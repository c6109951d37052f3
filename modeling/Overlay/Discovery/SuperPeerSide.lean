import Overlay.Cache
import Overlay.Discovery.ChildSide
import Overlay.Wire.Envelope

/-!
# Discovery as a super peer sees it

A super peer registers the children that greet it, relays envelopes to them, and introduces two children to
each other when one writes to the other through it.  The same two are not introduced again for a while.
-/

namespace Overlay

/-- What becomes of an envelope. -/
inductive RelayDecision where
  | own
  /-- It goes on to a child, with one more relay counted. -/
  | forward (addr : Address) (envelope : Envelope)
  | drop
deriving DecidableEq

/-- The super peer's part of discovery. -/
structure SuperPeerSide where
  own : PublicKey
  config : DiscoveryConfig
  children : Table PublicKey Child
  /-- The pairs introduced lately, if that is to be remembered. -/
  attempts : Option (Cache (PublicKey × PublicKey) Unit)
  outbox : List Outbound
  events : List Event

namespace SuperPeerSide

/-- The most introductions that are remembered. -/
def maxAttempts : Nat := 1000

def start (own : PublicKey) (config : DiscoveryConfig) : SuperPeerSide where
  own := own
  config := config
  children := .empty
  attempts := config.uniteMinInterval.bound?.map fun ttl => .empty .afterWrite (some ttl) maxAttempts
  outbox := []
  events := []

def post (s : SuperPeerSide) (messages : List Outbound) : SuperPeerSide :=
  { s with outbox := s.outbox ++ messages }

def announce (s : SuperPeerSide) (events : List Event) : SuperPeerSide :=
  { s with events := s.events ++ events }

/-- A greeting from a node that wants to be a child.  The answer says whether it counts. -/
def greeted (s : SuperPeerSide) (now : Nat) (sender : PublicKey) (time childrenTime : UInt64)
    (addr : Address) : Bool × SuperPeerSide :=
  if childrenTime = 0 || sender = s.own || !s.config.withinTimeOffset time.toNat now then (false, s)
  else
    let known := s.children.get? sender
    let news := if known.map (·.addr) = some addr then [] else [.pathAdded sender addr .children]
    let s := { s with children := s.children.insert sender ⟨addr, now⟩ }.announce news
    (true, s.post [⟨sender, addr, .acknowledgement time⟩])

/-- Drops the children that have not greeted lately, and tells how many there were. -/
def checkStale (s : SuperPeerSide) (now : Nat) : Nat × SuperPeerSide :=
  let stale := fun (c : Child) => c.isStale now s.config.helloTimeout.millis
  let lost := s.children.entries.filter fun e => stale e.2
  let s : SuperPeerSide := { s with
    children := s.children.filter fun _ c => !stale c
    attempts := s.attempts.map fun a => (a.takeExpired now).2 }
  (lost.length, s.announce (lost.map fun e => .pathRemoved e.1 .children))

/-- Whether two children should be introduced now; if so, that is remembered. -/
def shouldUnite (s : SuperPeerSide) (now : Nat) (sender recipient : PublicKey) :
    Bool × SuperPeerSide :=
  if !s.children.contains sender || sender = recipient then (false, s)
  else
    match s.attempts with
    | none => (true, s)
    | some attempts =>
      let pair := PublicKey.ordered sender recipient
      if attempts.contains pair now then (false, s)
      else (true, { s with attempts := some (attempts.insert pair () now).cache })

def unite (s : SuperPeerSide) (sender recipient : PublicKey) : SuperPeerSide :=
  match s.children.get? sender, s.children.get? recipient with
  | some a, some b =>
    s.post [⟨sender, a.addr, .unite recipient b.addr⟩, ⟨recipient, b.addr, .unite sender a.addr⟩]
  | _, _ => s

def relay (s : SuperPeerSide) (now : Nat) (e : Envelope) : RelayDecision × SuperPeerSide :=
  if e.recipient = s.own then (.own, s)
  else
    match s.children.get? e.recipient with
    | none => (.drop, s)
    | some child =>
      if s.config.hopLimit ≤ e.hopCount then (.drop, s)
      else
        let (introduce, s) := s.shouldUnite now e.sender e.recipient
        let s := if introduce then s.unite e.sender e.recipient else s
        (.forward child.addr { e with hopCount := e.hopCount + 1 }, s)

def route (s : SuperPeerSide) (peer : PublicKey) : Option Address :=
  (s.children.get? peer).map (·.addr)

def drainOutbox (s : SuperPeerSide) : List Outbound × SuperPeerSide := (s.outbox, { s with outbox := [] })

def drainEvents (s : SuperPeerSide) : List Event × SuperPeerSide := (s.events, { s with events := [] })

end SuperPeerSide

end Overlay
