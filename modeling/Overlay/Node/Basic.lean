import Overlay.Discovery.SuperPeerSide
import Overlay.Engine
import Overlay.Node.Config

/-!
# Nodes

A node joins the engine with the two sides of discovery, and falls back to a stream connection to its super
peer (its link) where datagrams do not get through.  A super peer may also take such connections from its
children.  This module holds the state; `Activity` says how a node sends, and `Node.step` what it does.
-/

namespace Overlay

structure Link where
  /-- Where the super peer takes stream connections. -/
  addr : Address
  /-- Whether the connection has ended.  The node acts on it when it next looks. -/
  ended : Bool := false
deriving DecidableEq

structure Node where
  config : NodeConfig
  engine : Engine
  childSide : ChildSide
  /-- The part of a super peer, if the node is one. -/
  superPeerSide : Option SuperPeerSide
  /-- When to fall back to a stream connection, if the node may. -/
  fallback : Option Fallback
  link : Option Link
  /-- Where the children are that are connected by a stream. -/
  clients : List Address
  running : Bool

namespace Node

/-- The most octets of a datagram that a node takes from its transport; the rest of a longer one is lost. -/
def receiveLimit : Nat := 65535

/-- The most events that wait for the application; what comes on top of them is lost. -/
def maxWaiting : Nat := 256

/-- A node before its first heartbeat, unless it cannot run with the settings. -/
def start (identity : KeyPair) (config : NodeConfig) : Except NodeError Node :=
  config.validate.map fun config =>
    let own := identity.publicKey
    { config := config
      engine := .start identity config.arm
      childSide := .start own config.discovery
      superPeerSide := if config.superPeerMode then some (.start own config.discovery) else none
      fallback :=
        if config.fallback.enabled then
          some (.start config.fallback (config.discovery.superPeers.entries.map (·.2)))
        else none
      link := none
      clients := []
      running := true }

def address (n : Node) : PublicKey := n.engine.address

def servesStreams (n : Node) : Bool :=
  n.config.superPeerMode && n.config.fallback.serverAddress.isSome

/-- Whether datagrams to an address may go over the link instead: it is the address of a super peer, and the
node may fall back. -/
def mayFallBackAt (n : Node) (addr : Address) : Bool := n.fallback.any fun f => f.isSuperPeer addr

/-! ## What happens to the streams of a node -/

def linkEnded (n : Node) : Node := { n with link := n.link.map fun l => { l with ended := true } }

def clientJoined (n : Node) (addr : Address) : Node :=
  if n.running && n.servesStreams then { n with clients := addr :: n.clients.erase addr } else n

def clientLeft (n : Node) (addr : Address) : Node := { n with clients := n.clients.erase addr }

def stop (n : Node) : Node := { n with link := none, clients := [], running := false }

end Node

end Overlay
