import Overlay.Discovery.Config
import Overlay.Discovery.Peer
import Overlay.Event
import Overlay.Wire.DiscoveryMessage

/-!
# Discovery as a child sees it

A child greets its super peers at every heartbeat, takes the one with the least latency as its gateway, and
keeps direct paths to the peers a super peer has introduced.  The state only changes by heartbeats and
received messages; what it wants to send and what it has to tell collect in `outbox` and `events`.
-/

namespace Overlay

structure Outbound where
  recipient : PublicKey
  addr : Address
  message : DiscoveryMessage
deriving DecidableEq

/-- The child's part of discovery. -/
structure ChildSide where
  own : PublicKey
  config : DiscoveryConfig
  superPeers : Table PublicKey SuperPeer
  best : Option PublicKey
  traversing : Table PublicKey TraversingPeer
  outbox : List Outbound
  events : List Event

namespace ChildSide

/-- The state before the first heartbeat.  A node is not its own super peer. -/
def start (own : PublicKey) (config : DiscoveryConfig) : ChildSide where
  own := own
  config := config
  superPeers := (config.superPeers.filter fun key _ => key ≠ own).mapValues fun _ => .ofAddress
  best := none
  traversing := .empty
  outbox := []
  events := []

def isSuperPeer (c : ChildSide) (key : PublicKey) : Bool := c.superPeers.contains key

def post (c : ChildSide) (messages : List Outbound) : ChildSide :=
  { c with outbox := c.outbox ++ messages }

def announce (c : ChildSide) (events : List Event) : ChildSide :=
  { c with events := c.events ++ events }

def isStaleSuperPeer (c : ChildSide) (now : Nat) (p : SuperPeer) : Bool :=
  p.isStale now c.config.helloTimeout.millis

def isStalePath (c : ChildSide) (now : Nat) (p : TraversingPeer) : Bool :=
  p.isStale now c.config.helloTimeout.millis c.config.pathIdleTime.millis

/-! ## The gateway -/

/-- What super peers are chosen by: the latency, and the key among equals.  An unknown latency comes
last. -/
def merit (key : PublicKey) (p : SuperPeer) : Nat × Nat :=
  (p.latency.millis?.getD lastMoment, key.rank)

def precedes (a b : Nat × Nat) : Bool := a.1 < b.1 || (a.1 = b.1 && a.2 < b.2)

def better (best : Option (PublicKey × SuperPeer)) (e : PublicKey × SuperPeer) :
    Option (PublicKey × SuperPeer) :=
  match best with
  | none => some e
  | some b => if precedes (merit e.1 e.2) (merit b.1 b.2) then some e else some b

def bestOf (entries : List (PublicKey × SuperPeer)) : Option PublicKey :=
  (entries.foldl better none).map (·.1)

/-- Chooses the gateway among the super peers that are not stale, and reports what has changed. -/
def chooseGateway (c : ChildSide) (now : Nat) : ChildSide :=
  let stale := c.isStaleSuperPeer now
  let lost := c.superPeers.entries.filter fun e => stale e.2 && e.2.reachable
  let best := bestOf (c.superPeers.entries.filter fun e => !stale e.2)
  let superPeers := c.superPeers.mapValues fun _ p =>
    if stale p then { p with reachable := false } else p
  let changed := if best = c.best then [] else [Event.superPeerChanged best]
  let c := { c with superPeers := superPeers, best := best }
  c.announce (lost.map (fun e => .pathRemoved e.1 .superPeer) ++ changed)

/-! ## Heartbeats -/

def probes (key : PublicKey) (p : TraversingPeer) (now : Nat) : List Outbound :=
  p.probed.map fun addr => ⟨key, addr, .hello (.ofNat now) 0⟩

def greetSuperPeers (c : ChildSide) (now : Nat) : ChildSide :=
  let time := UInt64.ofNat now
  let c := { c with superPeers := c.superPeers.mapValues fun _ p => p.helloSent now }
  c.post (c.superPeers.entries.map fun e => ⟨e.1, e.2.addr, .hello time time⟩)

/-- Drops the stale direct paths and tries the others. -/
def tendPaths (c : ChildSide) (now : Nat) : ChildSide :=
  let stale := c.isStalePath now
  let lost := c.traversing.entries.filter fun e => stale e.2 && e.2.isConfirmed
  let kept := (c.traversing.filter fun _ p => !stale p).mapValues fun _ p => p.helloSent now
  let c : ChildSide := { c with traversing := kept }
  let c := c.announce (lost.map fun e => .pathRemoved e.1 .traversing)
  c.post (kept.entries.flatMap fun e => probes e.1 e.2 now)

/-- The periodic work: chooses the gateway, greets the super peers, and tends the direct paths. -/
def heartbeat (c : ChildSide) (now : Nat) : ChildSide :=
  ((c.chooseGateway now).greetSuperPeers now).tendPaths now

/-! ## Messages -/

/-- An acknowledgement from a super peer.  The answer says whether it counts. -/
def acknowledgedBySuperPeer (c : ChildSide) (now : Nat) (sender : PublicKey) (time : UInt64)
    (addr : Address) : Bool × ChildSide :=
  match c.superPeers.get? sender with
  | none => (false, c)
  | some p =>
    if c.config.acknowledgementFresh time.toNat now then
      let p' := { p.acknowledged now (now - time.toNat) with reachable := true }
      let c := { c with superPeers := c.superPeers.insert sender p' }
      let c := if p.reachable then c else c.announce [.pathAdded sender addr .superPeer]
      (true, c.chooseGateway now)
    else (false, c)

def introduced (c : ChildSide) (now : Nat) (sender peer : PublicKey) (addr : Address) :
    Bool × ChildSide :=
  if !c.isSuperPeer sender || peer = c.own then (false, c)
  else
    let known := c.traversing.get? peer
    if known.isNone && c.config.maxPeers ≠ 0 && c.config.maxPeers ≤ c.traversing.size then (false, c)
    else
      let p := ((known.getD (.ofAddress addr)).addCandidate addr).applicationSeen now |>.helloSent now
      let c := { c with traversing := c.traversing.insert peer p }
      (true, c.post (probes peer p now))

def greetedOnPath (c : ChildSide) (now : Nat) (sender : PublicKey) (time childrenTime : UInt64)
    (addr : Address) : Bool × ChildSide :=
  if childrenTime ≠ 0 || !c.config.withinTimeOffset time.toNat now then (false, c)
  else
    match c.traversing.get? sender with
    | none => (false, c)
    | some p =>
      let c := { c with traversing := c.traversing.insert sender (p.setAddr addr) }
      (true, c.post [⟨sender, addr, .acknowledgement time⟩])

def acknowledgedOnPath (c : ChildSide) (now : Nat) (sender : PublicKey) (time : UInt64)
    (addr : Address) : Bool × ChildSide :=
  if !c.config.acknowledgementFresh time.toNat now then (false, c)
  else
    match c.traversing.get? sender with
    | none => (false, c)
    | some p =>
      let news := if !p.isConfirmed || p.addr ≠ addr then [.pathAdded sender addr .traversing] else []
      let c := { c with traversing := c.traversing.insert sender (p.acknowledged addr now) }
      (true, c.announce news)

/-- A discovery message from a peer at an address.  The answer says whether it counts. -/
def receive (c : ChildSide) (now : Nat) (sender : PublicKey) (m : DiscoveryMessage) (addr : Address) :
    Bool × ChildSide :=
  match m with
  | .acknowledgement time =>
    if c.isSuperPeer sender then c.acknowledgedBySuperPeer now sender time addr
    else c.acknowledgedOnPath now sender time addr
  | .hello time childrenTime => c.greetedOnPath now sender time childrenTime addr
  | .unite peer at' => c.introduced now sender peer at'
  | .application _ => (false, c)

/-! ## Paths -/

def applicationSeen (c : ChildSide) (now : Nat) (peer : PublicKey) : ChildSide :=
  { c with traversing := c.traversing.modify peer fun p => p.applicationSeen now }

/-- The address of a peer's confirmed direct path, unless it is stale. -/
def directPath? (c : ChildSide) (now : Nat) (peer : PublicKey) : Option Address :=
  (c.traversing.get? peer).bind fun p =>
    if p.isConfirmed && !c.isStalePath now p then some p.addr else none

/-- Where messages for a peer go without a direct path: to the peer if it is a super peer, else to the
gateway. -/
def gateway? (c : ChildSide) (peer : PublicKey) : Option Address :=
  match c.superPeers.get? peer with
  | some p => some p.addr
  | none => (c.best.bind c.superPeers.get?).map (·.addr)

/-- Where application data for a peer is sent.  Sending on a direct path keeps the path alive. -/
def route (c : ChildSide) (now : Nat) (peer : PublicKey) : Option Address × ChildSide :=
  match c.directPath? now peer with
  | some addr => (some addr, c.applicationSeen now peer)
  | none => (c.gateway? peer, c)

def drainOutbox (c : ChildSide) : List Outbound × ChildSide := (c.outbox, { c with outbox := [] })

def drainEvents (c : ChildSide) : List Event × ChildSide := (c.events, { c with events := [] })

end ChildSide

end Overlay
