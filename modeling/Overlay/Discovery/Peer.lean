import Overlay.Address
import Overlay.Discovery.Latency

/-!
# What discovery remembers of a peer

A super peer, a child, and a peer on a direct path each have a record.  Moments are milliseconds, and zero
means never.  A record is stale when the last contact is more than a timeout ago.

A peer on a direct path is first known by the addresses it was announced at, its candidates.  All of them
are tried until one is confirmed by an acknowledgement, which then replaces the others.
-/

namespace Overlay

def longAgo (t now timeout : Nat) : Bool := t < now - timeout

structure SuperPeer where
  addr : Address
  firstHelloAt : Nat
  lastAckAt : Nat
  latency : Latency
  reachable : Bool

namespace SuperPeer

def ofAddress (addr : Address) : SuperPeer := ⟨addr, 0, 0, .unknown, false⟩

/-- A greeting was sent; only the first one is noted. -/
def helloSent (p : SuperPeer) (now : Nat) : SuperPeer :=
  if p.firstHelloAt = 0 then { p with firstHelloAt := now } else p

def acknowledged (p : SuperPeer) (now latency : Nat) : SuperPeer :=
  { p with lastAckAt := now, latency := p.latency.update latency }

/-- Neither the first greeting nor the last acknowledgement is recent. -/
def isStale (p : SuperPeer) (now helloTimeout : Nat) : Bool :=
  longAgo (max p.firstHelloAt p.lastAckAt) now helloTimeout

end SuperPeer

structure Child where
  addr : Address
  lastHelloAt : Nat
deriving DecidableEq

namespace Child

def helloReceived (c : Child) (addr : Address) (now : Nat) : Child :=
  { c with addr := addr, lastHelloAt := now }

/-- The last greeting is not recent. -/
def isStale (c : Child) (now helloTimeout : Nat) : Bool := longAgo c.lastHelloAt now helloTimeout

end Child

structure TraversingPeer where
  /-- The confirmed address, or the one announced last. -/
  addr : Address
  candidates : List Address
  firstHelloAt : Nat
  lastAckAt : Nat
  lastApplicationAt : Nat
deriving DecidableEq

namespace TraversingPeer

def maxCandidates : Nat := 8

def ofAddress (addr : Address) : TraversingPeer := ⟨addr, [addr], 0, 0, 0⟩

def isConfirmed (p : TraversingPeer) : Bool := 0 < p.lastAckAt

/-- A list without the first `n` entries that differ from `keep`. -/
def dropOldest (keep : Address) : Nat → List Address → List Address
  | 0, l => l
  | _ + 1, [] => []
  | n + 1, a :: r => if a = keep then a :: dropOldest keep (n + 1) r else dropOldest keep n r

/-- The peer was announced at an address.  The oldest candidates leave when there are too many, but never
the current address. -/
def addCandidate (p : TraversingPeer) (addr : Address) : TraversingPeer :=
  let candidates := if p.candidates.contains addr then p.candidates else p.candidates ++ [addr]
  let current := if p.lastAckAt = 0 then addr else p.addr
  { p with
    addr := current
    candidates := dropOldest current (candidates.length - maxCandidates) candidates }

def setAddr (p : TraversingPeer) (addr : Address) : TraversingPeer :=
  { p.addCandidate addr with addr := addr }

def helloSent (p : TraversingPeer) (now : Nat) : TraversingPeer :=
  if p.firstHelloAt = 0 then { p with firstHelloAt := now } else p

/-- An acknowledgement has come from an address, which replaces all others. -/
def acknowledged (p : TraversingPeer) (addr : Address) (now : Nat) : TraversingPeer :=
  { p with addr := addr, candidates := [addr], lastAckAt := now }

def applicationSeen (p : TraversingPeer) (now : Nat) : TraversingPeer :=
  { p with lastApplicationAt := now }

/-- There was no application data for too long, or neither the first greeting nor the last acknowledgement
is recent. -/
def isStale (p : TraversingPeer) (now helloTimeout pathIdleTime : Nat) : Bool :=
  longAgo p.lastApplicationAt now pathIdleTime
    || longAgo (max p.firstHelloAt p.lastAckAt) now helloTimeout

/-- The addresses to try: the confirmed one, or every candidate. -/
def probed (p : TraversingPeer) : List Address := if p.isConfirmed then [p.addr] else p.candidates

end TraversingPeer

end Overlay
