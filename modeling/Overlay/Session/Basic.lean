import Overlay.Agreement.Basic
import Overlay.Cache
import Overlay.Session.Config

/-!
# Sessions

What one end of a conversation remembers about its peer: the long-time agreement, the agreement under
negotiation (`inactive`), the one that encrypts (`active`), and all that may still decrypt
(`initialized`).  `Session.check` names the first way in which the parts contradict each other.
-/

namespace Overlay

inductive EncryptionState where
  | longTime
  | forwardSecrecy
deriving DecidableEq

/-- One end's memory of a conversation with one peer. -/
structure Session where
  longTimeId : AgreementId
  longTimePair : SessionPair
  initialized : Cache AgreementId Agreement
  active : AgreementSlot
  inactive : AgreementSlot
  lastKeyExchangeAt : Option Nat
  lastRenewAttemptAt : Option Nat
  state : EncryptionState

inductive SessionFault where
  | activeWithoutId
  | activeMissing (id : AgreementId)
  | stateWithoutActive
deriving DecidableEq

def SessionFault.message : SessionFault → String
  | .activeWithoutId => "active agreement has no id"
  | .activeMissing id => "active agreement " ++ id.text ++ " missing from initialized agreements"
  | .stateWithoutActive => "state is pfs without active agreement"

namespace Session

/-- A session that rests on a long-time agreement.  Agreements for decryption are kept for the given
time after they were promoted. -/
def ofLongTime (a : Agreement) (maxAgreements : Nat) (retention : Duration) :
    Except ArmError Session :=
  match a.bond with
  | none => .error (.invalidArgument .longTimeIncomplete)
  | some bond => .ok {
      longTimeId := bond.id
      longTimePair := bond.pair
      initialized := .empty .afterWrite retention.bound? maxAgreements
      active := none
      inactive := none
      lastKeyExchangeAt := none
      lastRenewAttemptAt := none
      state := .longTime }

def inactiveId (s : Session) : Option AgreementId := s.inactive.bind (·.id)

/-- The first contradiction between the parts of a session.  An agreement with a name has its session keys too, both are
in its `Bond`, so that need not be asked. -/
def check (s : Session) (now : Nat) : Except SessionFault Unit :=
  match s.active with
  | some a =>
    match a.id with
    | none => .error .activeWithoutId
    | some id =>
      if !a.isStale now && !s.initialized.contains id now then .error (.activeMissing id) else .ok ()
  | none => if s.state = .forwardSecrecy then .error .stateWithoutActive else .ok ()

end Session

end Overlay
