import Overlay.Address
import Overlay.Crypto.Key

/-!
# Events

What a node tells the application above it: paths that come and go, how traffic with a peer is
protected, payloads that arrive, and the super peer in use.
-/

namespace Overlay

inductive PathKind where
  /-- We are a child of this super peer. -/
  | superPeer
  /-- The peer is a child of ours. -/
  | children
  /-- A direct path found by rendezvous. -/
  | traversing
  /-- A stream connection to a super peer. -/
  | tcpFallback
deriving DecidableEq

inductive Event where
  | pathAdded (peer : PublicKey) (addr : Address) (path : PathKind)
  | pathRemoved (peer : PublicKey) (path : PathKind)
  | longTimeEncryption (peer : PublicKey)
  | forwardSecrecyEncryption (peer : PublicKey)
  | messageReceived (peer : PublicKey) (payload : Bytes)
  | superPeerChanged (peer : Option PublicKey)
deriving DecidableEq

def Event.peer : Event → Option PublicKey
  | .pathAdded peer _ _ => some peer
  | .pathRemoved peer _ => some peer
  | .longTimeEncryption peer => some peer
  | .forwardSecrecyEncryption peer => some peer
  | .messageReceived peer _ => some peer
  | .superPeerChanged peer => peer

end Overlay
