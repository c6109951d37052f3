import Overlay.Crypto.Suite

/-!
# Agreements

An agreement starts out as one of our key pairs.  The peer's key turns it into a `Bond`: the name of the
agreement and its session keys, which both follow from the two keys.  A deadline finally says when it is no
longer used to encrypt.  A peer's key that cannot be bonded leaves the agreement as it was.
-/

namespace Overlay

def AgreementId.parse (text : String) : Except ArmError AgreementId :=
  match ofText? text with
  | some id => .ok id
  | none => .error (.invalidArgument (.agreementIdText text))

/-- What a peer's key settles: the name of the agreement and its session keys. -/
@[ext]
structure Bond where
  recipient : PublicKey
  id : AgreementId
  pair : SessionPair
deriving DecidableEq, Inhabited

/-- A key agreement with a peer. -/
@[ext]
structure Agreement where
  keyPair : KeyPair
  bond : Option Bond
  staleAt : Option Nat
deriving DecidableEq, Inhabited

namespace Agreement

/-- An agreement that holds our key pair only. -/
def ofKeyPair (p : KeyPair) : Agreement := ⟨p, none, none⟩

/-- The bond between a key pair and a peer's key. -/
def bondWith (S : Suite) (own : KeyPair) (peer : PublicKey) : Except ArmError Bond :=
  match S.agreementId own.publicKey peer with
  | .error e => .error e
  | .ok id =>
    match S.deriveSessionPair own peer with
    | .error e => .error (.crypto e)
    | .ok pair => .ok ⟨peer, id, pair⟩

/-- Attaches a peer's key, in place of any earlier one.  The name is computed first, then the session keys, and only
then is anything changed. -/
def setRecipient (S : Suite) (a : Agreement) (peer : PublicKey) : Except ArmError Unit × Agreement :=
  match bondWith S a.keyPair peer with
  | .ok bond => (.ok (), { a with bond := some bond })
  | .error e => (.error e, a)

/-- The agreement with a peer's key attached, if there is no error. -/
def withRecipient (S : Suite) (a : Agreement) (peer : PublicKey) : Except ArmError Agreement :=
  match a.setRecipient S peer with
  | (.ok (), a) => .ok a
  | (.error e, _) => .error e

def withStaleAt (a : Agreement) (t : Nat) : Agreement := { a with staleAt := some t }

/-- The agreement between two long-time keys, which has no deadline. -/
def longTime (S : Suite) (own : KeyPair) (peer : PublicKey) : Except ArmError Agreement :=
  (ofKeyPair own).withRecipient S peer

def recipient (a : Agreement) : Option PublicKey := a.bond.map (·.recipient)

def id (a : Agreement) : Option AgreementId := a.bond.map (·.id)

def pair (a : Agreement) : Option SessionPair := a.bond.map (·.pair)

def isInitialized (a : Agreement) : Bool := a.bond.isSome

def isStale (a : Agreement) (now : Nat) : Bool := a.staleAt.any fun t => t ≤ now

/-- Whether half of the deadline has come, counted from the start of the clock. -/
def isRenewable (a : Agreement) (now : Nat) : Bool := a.staleAt.any fun t => t / 2 ≤ now

end Agreement

/-! ## Slots -/

/-- A place for at most one agreement. -/
abbrev AgreementSlot := Option Agreement

namespace AgreementSlot

/-- The agreement in a slot, which is filled first if it is empty. -/
def computeIfAbsent (slot : AgreementSlot) (make : Except ArmError Agreement) :
    Except ArmError Agreement × AgreementSlot :=
  match slot with
  | some a => (.ok a, slot)
  | none =>
    match make with
    | .ok a => (.ok a, some a)
    | .error e => (.error e, none)

/-- The slot changed by `f` where the condition holds of it. -/
def computeOnCondition (slot : AgreementSlot) (condition : AgreementSlot → Bool)
    (f : AgreementSlot → AgreementSlot) : AgreementSlot :=
  if condition slot then f slot else slot

end AgreementSlot

end Overlay
