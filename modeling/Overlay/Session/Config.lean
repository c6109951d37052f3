import Overlay.Time

/-!
# Settings of armed conversations

Short-lived agreements are negotiated when they are enabled and have a lifetime.  An agreement stays good
for decryption one retry interval longer than for encryption (`ArmConfig.retention`), so that what was
encrypted just before the deadline can still be read.
-/

namespace Overlay

structure ArmConfig where
  enabled : Bool := true
  /-- How long an agreement is used to encrypt. -/
  expireAfter : Duration := .ofSeconds 300
  /-- The least time between two key exchanges, and between two renewals. -/
  retryInterval : Duration := .ofSeconds 10
  /-- The most agreements kept for decryption in a session; zero for no bound. -/
  maxAgreements : Nat := 100
  /-- The most sessions kept; zero for no bound. -/
  maxSessions : Nat := 100000
  /-- How long a session may be idle; zero for no bound. -/
  sessionExpireAfter : Duration := .ofSeconds 300
deriving DecidableEq

namespace ArmConfig

def forwardSecrecy (c : ArmConfig) : Bool := c.enabled && !c.expireAfter.isZero

/-- How long an agreement is kept for decryption. -/
def retention (c : ArmConfig) : Duration :=
  if c.expireAfter.isZero then .zero else c.expireAfter.add c.retryInterval

end ArmConfig

end Overlay
