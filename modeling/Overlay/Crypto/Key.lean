import Overlay.Bytes

/-!
# Keys

A public key is the overlay address of a node as well as its long-time key, or belongs to a short-lived
key pair.  Public keys are ordered octet by octet, so that both ends of an agreement see the same one
as the lower (`PublicKey.ordered`, symmetric by `ordered_swap`).  Secret keys and session keys are
never shown: the texts that describe keys (`describe`) do not depend on them.
-/

namespace Overlay

/-- A key that others may know: the address of a node, or one half of a short-lived key pair. -/
@[ext]
structure PublicKey where
  block : Block 32
deriving DecidableEq, Inhabited

/-- The half of a key pair that stays with its owner. -/
@[ext]
structure SecretKey where
  block : Block 32
deriving DecidableEq, Inhabited

/-- A symmetric key for one direction of an agreement. -/
@[ext]
structure SessionKey where
  block : Block 32
deriving DecidableEq, Inhabited

/-- A number used once with a session key. -/
abbrev Nonce := Block 24

/-- A public key with its secret. -/
@[ext]
structure KeyPair where
  publicKey : PublicKey
  secretKey : SecretKey
deriving DecidableEq, Inhabited

/-- The keys of the two directions of an agreement, as one end sees them. -/
@[ext]
structure SessionPair where
  rx : SessionKey
  tx : SessionKey
deriving DecidableEq, Inhabited

/-- The same agreement seen from the other end. -/
def SessionPair.swap (p : SessionPair) : SessionPair := ⟨p.tx, p.rx⟩

namespace PublicKey

def toBytes (k : PublicKey) : Bytes := k.block.toBytes

def rank (k : PublicKey) : Nat := k.block.toNat

instance : LT PublicKey := ⟨fun a b => a.rank < b.rank⟩

instance (a b : PublicKey) : Decidable (a < b) := inferInstanceAs (Decidable (a.rank < b.rank))

theorem lt_def {a b : PublicKey} : a < b ↔ a.rank < b.rank := Iff.rfl

theorem rank_injective {a b : PublicKey} (h : a.rank = b.rank) : a = b :=
  PublicKey.ext (Block.ext h)

def compare (a b : PublicKey) : Ordering := Ord.compare a.rank b.rank

def ordered (a b : PublicKey) : PublicKey × PublicKey := if b < a then (b, a) else (a, b)

/-- Both ends of an agreement agree on the order. -/
theorem ordered_swap (a b : PublicKey) : ordered a b = ordered b a := by
  unfold ordered
  by_cases h : b < a
  · have h' : ¬ a < b := by rw [lt_def] at h ⊢; omega
    simp [h, h']
  · by_cases h' : a < b
    · simp [h, h']
    · have : a = b := rank_injective (by rw [lt_def] at h h'; omega)
      simp [this]

/-- The first four octets in hexadecimal, enough to tell keys apart for a reader. -/
def short (k : PublicKey) : String := hex (k.toBytes.take 4)

end PublicKey

/-! ## Descriptions -/

/-- What a public key is used for, by the name that descriptions give it. -/
inductive KeyRole where
  /-- One half of a key pair for key agreement. -/
  | agreement
  /-- The address of a node. -/
  | identity
deriving DecidableEq

def KeyRole.name : KeyRole → String
  | .agreement => "KeyAgreementPublicKey"
  | .identity => "IdentityPublicKey"

def PublicKey.describe (role : KeyRole) (k : PublicKey) : String :=
  role.name ++ "(" ++ k.short ++ ")"

def KeyPair.describe (p : KeyPair) : String :=
  "KeyAgreementKeyPair \x7b public: " ++ p.publicKey.describe .agreement
    ++ ", secret: KeyAgreementSecretKey(..) \x7d"

def KeyPair.describeIdentity (p : KeyPair) : String :=
  "Identity \x7b key_agreement: " ++ p.describe ++ " \x7d"

def SessionPair.describe (_ : SessionPair) : String :=
  "SessionPair \x7b rx: SessionKey(..), tx: SessionKey(..) \x7d"

end Overlay
