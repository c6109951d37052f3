import Overlay.Address
import Overlay.Time

/-!
# Falling back to a stream

Some networks let no datagrams through.  A child that keeps sending datagrams to its super peers without an
answer opens a stream connection instead, and closes it once a datagram from a super peer arrives.
`Fallback` decides when: the silence counts from the first datagram sent since the last answer, or from the
last attempt, so that attempts are more than the timeout apart.
-/

namespace Overlay

structure FallbackConfig where
  enabled : Bool := false
  /-- How long the super peers may be silent. -/
  timeout : Duration := .ofSeconds 15
  /-- Where the super peer takes stream connections. -/
  superPeerAddress : Option Address := none
  /-- Where a super peer takes stream connections from its children. -/
  serverAddress : Option Address := none
deriving DecidableEq

structure Fallback where
  timeout : Nat
  superPeerAddrs : List Address
  /-- When the silence began; zero if nothing waits for an answer. -/
  silentSince : Nat
  /-- Whether a connection is open or being opened. -/
  active : Bool
deriving DecidableEq

namespace Fallback

def start (config : FallbackConfig) (superPeerAddrs : List Address) : Fallback :=
  ⟨config.timeout.millis, superPeerAddrs, 0, false⟩

def isSuperPeer (f : Fallback) (addr : Address) : Bool := f.superPeerAddrs.contains addr

/-- A datagram is about to be sent to a super peer.  The answer says whether a connection should be opened
instead. -/
def onSend (f : Fallback) (now : Nat) : Bool × Fallback :=
  if f.active then (false, f)
  else
    let since := if f.silentSince = 0 then now else f.silentSince
    if since < now - f.timeout then (true, { f with silentSince := now, active := true })
    else (false, { f with silentSince := since })

/-- A datagram has arrived.  The answer says whether the connection should be closed. -/
def onInbound (f : Fallback) (sender : Address) : Bool × Fallback :=
  if f.isSuperPeer sender then (f.active, { f with silentSince := 0, active := false })
  else (false, f)

def connectionClosed (f : Fallback) : Fallback := { f with active := false }

end Fallback

end Overlay
