import Overlay.Discovery.Config
import Overlay.Error
import Overlay.Fallback
import Overlay.Session.Config

/-!
# Settings of a node

`NodeConfig.validate` refuses the combinations a node cannot run with, and names the first one it finds.
A configuration can be built up from the defaults by a list of `Setting`s; it is validated at the end.
-/

namespace Overlay

/-- The port where a node receives datagrams if nothing else is set. -/
def NodeConfig.defaultPort : UInt16 := 22527

structure NodeConfig where
  /-- Where datagrams are received. -/
  bindAddr : Address := .ofV4 0 0 0 0 NodeConfig.defaultPort
  arm : ArmConfig := {}
  discovery : DiscoveryConfig := {}
  fallback : FallbackConfig := {}
  /-- Whether the node takes children and relays for them. -/
  superPeerMode : Bool := false
deriving DecidableEq

namespace NodeConfig

def fault? (c : NodeConfig) : Option ConfigFault :=
  if c.discovery.helloInterval.isZero then some .zeroHelloInterval
  else if c.discovery.helloTimeout ≤ c.discovery.helloInterval then
    some (.timeoutNotAboveInterval c.discovery.helloTimeout c.discovery.helloInterval)
  else if c.arm.retryInterval.isZero then some .zeroRetryInterval
  else if c.fallback.enabled && c.fallback.superPeerAddress.isNone then some .fallbackWithoutAddress
  else if c.fallback.serverAddress.isSome && !c.superPeerMode then some .serverWithoutSuperPeerMode
  else none

def validate (c : NodeConfig) : Except NodeError NodeConfig :=
  match c.fault? with
  | some fault => .error (.config fault)
  | none => .ok c

end NodeConfig

/-- One step in building a configuration. -/
inductive Setting where
  | bindAddr (addr : Address)
  | networkId (id : Int32)
  | superPeer (key : PublicKey) (addr : Address)
  | superPeerMode (on : Bool)
  | helloInterval (d : Duration)
  | helloTimeout (d : Duration)
  | discovery (c : DiscoveryConfig)
  | arm (c : ArmConfig)
  | forwardSecrecy (on : Bool)
  /-- Lets a child fall back to a stream connection to the address. -/
  | fallbackTo (addr : Address)
  /-- Lets a super peer take stream connections at the address. -/
  | fallbackServer (addr : Address)
  | fallbackTimeout (d : Duration)

namespace NodeConfig

def set (c : NodeConfig) : Setting → NodeConfig
  | .bindAddr addr => { c with bindAddr := addr }
  | .networkId id => { c with discovery := { c.discovery with networkId := id } }
  | .superPeer key addr =>
    { c with discovery := { c.discovery with superPeers := c.discovery.superPeers.insert key addr } }
  | .superPeerMode on => { c with superPeerMode := on }
  | .helloInterval d => { c with discovery := { c.discovery with helloInterval := d } }
  | .helloTimeout d => { c with discovery := { c.discovery with helloTimeout := d } }
  | .discovery d => { c with discovery := d }
  | .arm a => { c with arm := a }
  | .forwardSecrecy on => { c with arm := { c.arm with enabled := on } }
  | .fallbackTo addr =>
    { c with fallback := { c.fallback with enabled := true, superPeerAddress := some addr } }
  | .fallbackServer addr => { c with fallback := { c.fallback with serverAddress := some addr } }
  | .fallbackTimeout d => { c with fallback := { c.fallback with timeout := d } }

/-- The configuration that steps build from the defaults, if a node can run with it. -/
def build (steps : List Setting) : Except NodeError NodeConfig :=
  (steps.foldl set {}).validate

end NodeConfig

end Overlay
