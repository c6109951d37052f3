import Overlay.Node.Step

/-!
# Nodes on a simulated network

Nodes with names and addresses share one clock and one source of randomness.  The datagrams they send wait in
one queue, from which they are delivered or lost.  Streams are between a node and another end that the
simulation plays: a server at a known address, or a child that connects.  A host may also be without streams
(`servers` is `none`): then no connection comes about, and a link ends as soon as it is opened.
-/

namespace Overlay

structure Datagram where
  sender : Address
  recipient : Address
  data : Bytes
deriving DecidableEq

structure Connection where
  member : String
  far : Address
  /-- Whether it is the node's link; else the other end is a child. -/
  isLink : Bool
  /-- What the node has not yet received as a frame. -/
  toNode : FrameDecoder := .empty
  /-- What the other end has not yet read. -/
  fromNode : FrameDecoder := .empty

structure Member where
  name : String
  identity : KeyPair
  addr : Address
  config : NodeConfig
  /-- The node, once it was started. -/
  node : Option Node := none
  /-- Whether the transport refuses every datagram. -/
  broken : Bool := false
  events : List Event := []

namespace Member

def transport (m : Member) (_ : Address) (_ : Bytes) : Except TransportError Unit :=
  if m.broken then .error .closed else .ok ()

/-- Lets an event wait for the application, if there is room. -/
def tell (m : Member) (event : Event) : Member :=
  if m.events.length < Node.maxWaiting then { m with events := m.events ++ [event] } else m

def withNode (m : Member) (change : Node → Node) : Member := { m with node := m.node.map change }

end Member

structure Network where
  members : List Member
  now : Nat
  entropy : Entropy
  /-- The servers that take stream connections; `none` for a host without streams. -/
  servers : Option (List Address)
  /-- The datagrams under way, the oldest first. -/
  queue : List Datagram := []
  /-- The datagrams sent that nobody has looked at. -/
  sent : List Datagram := []
  /-- The streams, the newest first. -/
  connections : List Connection := []

namespace Network

def get? (w : Network) (name : String) : Option Member := w.members.find? fun m => m.name = name

def modify (w : Network) (name : String) (change : Member → Member) : Network :=
  { w with members := w.members.map fun m => if m.name = name then change m else m }

/-! ## What nodes do -/

/-- Passes what a node writes on to the other end of its newest stream of a kind. -/
def pass (w : Network) (is : Connection → Bool) (data : Bytes) : Network :=
  { w with
    connections := match w.connections.span fun c => !is c with
      | (newer, c :: older) => newer ++ { c with fromNode := c.fromNode.extend data } :: older
      | (newer, []) => newer }

def perform (m : Member) (w : Network) : Action → Network
  | .datagram addr data =>
    let d : Datagram := ⟨m.addr, addr, data⟩
    { w with queue := w.queue ++ [d], sent := w.sent ++ [d] }
  | .openLink addr =>
    if w.servers.any fun servers => servers.contains addr then
      { w with connections := { member := m.name, far := addr, isLink := true } :: w.connections }
    else w.modify m.name fun m => m.withNode (·.linkEnded)
  | .closeLink => w
  | .writeLink data => w.pass (fun c => c.member = m.name && c.isLink) data
  | .writeClient addr data => w.pass (fun c => c.member = m.name && !c.isLink && c.far = addr) data
  | .tell event => w.modify m.name (·.tell event)

/-- Lets something happen to the node of a member.  Nothing happens to a node that was not started. -/
def stimulate (S : Suite) (w : Network) (m : Member) (s : Stimulus) : Except NodeError Unit × Network :=
  match m.node with
  | none => (.error .shutdown, w)
  | some n =>
    let (result, a) := n.step { suite := S, now := w.now, transport := m.transport } s w.entropy
    let w := { w with entropy := a.entropy }.modify m.name fun m => { m with node := some a.node }
    (result, a.actions.foldl (perform m) w)

def happen (S : Suite) (w : Network) (name : String) (s : Stimulus) : Except NodeError Unit × Network :=
  match w.get? name with
  | none => (.error .shutdown, w)
  | some m => w.stimulate S m s

def launch (S : Suite) (w : Network) (name : String) : Except NodeError Unit × Network :=
  match w.get? name with
  | none => (.error .shutdown, w)
  | some m =>
    match Node.start m.identity m.config with
    | .error e => (.error e, w)
    | .ok n =>
      (w.modify name fun m => { m with node := some n, broken := false }).happen S name .heartbeat

def shutdown (w : Network) (name : String) : Network := w.modify name fun m => m.withNode (·.stop)

/-! ## Datagrams -/

def deliver (S : Suite) (w : Network) (d : Datagram) : Network :=
  match w.members.find? fun m => m.node.isSome && m.addr = d.recipient with
  | none => w
  | some m => (w.stimulate S m (.datagram (d.data.take Node.receiveLimit) d.sender)).2

def pump (S : Suite) : Nat → Network → Nat × Network
  | 0, w => (0, w)
  | most + 1, w =>
    match w.queue with
    | [] => (0, w)
    | d :: rest =>
      let (count, w) := pump S most ({ w with queue := rest }.deliver S d)
      (count + 1, w)

def lose (count : Nat) (w : Network) : Nat × Network :=
  (min count w.queue.length, { w with queue := w.queue.drop count })

/-! ## The other ends of streams -/

/-- The newest stream whose other end is at an address. -/
def connection? (w : Network) (far : Address) : Option Connection :=
  w.connections.find? fun c => c.far = far

def replace (w : Network) (c : Connection) : Network :=
  { w with
    connections := match w.connections.span fun d => d.far ≠ c.far with
      | (newer, _ :: older) => newer ++ c :: older
      | (newer, []) => newer }

def isHeld (w : Network) (c : Connection) : Bool :=
  ((w.get? c.member).bind (·.node)).any fun n =>
    if c.isLink then n.link = some { addr := c.far } else n.clients.contains c.far

inductive StreamFault where
  | unreachable

def StreamFault.message : StreamFault → String
  | .unreachable => "Network is unreachable (os error 101)"

def connect (w : Network) (name : String) (far : Address) : Except StreamFault Network :=
  match w.servers with
  | none => .error .unreachable
  | some _ =>
    let joined := w.modify name fun m => m.withNode (·.clientJoined far)
    .ok { joined with connections := { member := name, far := far, isLink := false } :: w.connections }

structure Reading where
  held : Bool
  frames : List Bytes

def read (w : Network) (far : Address) : Option (Reading × Network) :=
  (w.connection? far).map fun c =>
    let (frames, rest) := c.fromNode.drain
    (⟨w.isHeld c, frames⟩, w.replace { c with fromNode := rest })

/-- Writes to the node, which receives every frame that is now complete. -/
def write (S : Suite) (w : Network) (far : Address) (data : Bytes) : Option Network :=
  (w.connection? far).map fun c =>
    let (frames, rest) := (c.toNode.extend data).drain
    let w := w.replace { c with toNode := rest }
    if w.isHeld c then frames.foldl (fun w frame => (w.happen S c.member (.frame frame far)).2) w
    else w

def close (w : Network) (far : Address) : Option Network :=
  (w.connection? far).map fun c =>
    let ended := w.modify c.member fun m => m.withNode fun n =>
      if !c.isLink then n.clientLeft far else if w.isHeld c then n.linkEnded else n
    { ended with connections := w.connections.filter fun c => c.far ≠ far }

/-! ## Looking at the network -/

/-- What has happened since the last look. -/
structure Happenings where
  sent : List Datagram
  events : List (String × List Event)

def observe (w : Network) : Happenings × Network :=
  (⟨w.sent, w.members.map fun m => (m.name, m.events)⟩,
    { w with sent := [], members := w.members.map fun m => { m with events := [] } })

end Network

end Overlay
