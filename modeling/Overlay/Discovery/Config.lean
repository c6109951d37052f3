import Overlay.Address
import Overlay.Crypto.Key
import Overlay.Table
import Overlay.Time

/-!
# Settings of discovery

Besides the settings, this module says which stamps of received messages count: a stamp may differ from
our clock by a bounded offset (`withinTimeOffset`), and an acknowledgement must also be recent
(`acknowledgementFresh`).
-/

namespace Overlay

structure DiscoveryConfig where
  /-- The network; envelopes of other networks are dropped. -/
  networkId : Int32 := 1
  helloInterval : Duration := .ofSeconds 5
  /-- How long a peer may be silent. -/
  helloTimeout : Duration := .ofSeconds 30
  /-- How far a stamp may be from our clock. -/
  maxTimeOffset : Duration := .ofSeconds 60
  /-- How long a direct path is kept without application data. -/
  pathIdleTime : Duration := .ofSeconds 60
  /-- The most peers on direct paths; zero for no bound. -/
  maxPeers : Nat := 100
  /-- The most relays a message may take. -/
  hopLimit : UInt8 := 8
  /-- The least time between two introductions of the same two children; zero for no bound. -/
  uniteMinInterval : Duration := .ofSeconds 20
  superPeers : Table PublicKey Address := .empty
deriving DecidableEq

namespace DiscoveryConfig

/-- Whether a stamp is as close to our clock as it has to be. -/
def withinTimeOffset (c : DiscoveryConfig) (time now : Nat) : Bool :=
  (time - now) + (now - time) ≤ c.maxTimeOffset.millis

/-- Whether an acknowledgement of a greeting with this stamp still counts. -/
def acknowledgementFresh (c : DiscoveryConfig) (time now : Nat) : Bool :=
  now - c.helloTimeout.millis < time && c.withinTimeOffset time now

def superPeerAt? (c : DiscoveryConfig) (addr : Address) : Option PublicKey :=
  (c.superPeers.entries.find? fun e => e.2 = addr).map (·.1)

end DiscoveryConfig

end Overlay
