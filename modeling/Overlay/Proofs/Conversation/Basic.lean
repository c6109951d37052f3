import Mathlib.Logic.Function.Basic
import Overlay.Proofs.Engine.Operation

/-!
# Conversations

Two endpoints that talk with each other over a network that promises nothing.  The network keeps every
message that either end handed to it, and may deliver any of them to either end, at any time and any number
of times.  Each end has its own randomness, and each action its own moment.
-/

namespace Overlay

inductive Side where
  | left
  | right
deriving DecidableEq

namespace Side

def other : Side → Side
  | left => right
  | right => left

@[simp] theorem other_other (a : Side) : a.other.other = a := by cases a <;> rfl

@[simp] theorem other_ne (a : Side) : a.other ≠ a := by cases a <;> exact fun h => by cases h

instance (P : Side → Prop) [DecidablePred P] : Decidable (∀ a, P a) :=
  decidable_of_iff (P left ∧ P right) ⟨fun h a => by cases a; exacts [h.1, h.2], fun h => ⟨h left, h right⟩⟩

theorem eq_or_eq_other (a b : Side) : b = a ∨ b = a.other := by
  cases a <;> cases b <;> simp [other]

theorem forall_of_both {P : Side → Prop} {a : Side} (h : P a) (h' : P a.other) (b : Side) : P b := by
  rcases eq_or_eq_other a b with rfl | rfl
  exacts [h, h']

end Side

/-- Two endpoints and the messages that either ever handed to the network. -/
structure Conversation where
  ends : Side → Endpoint
  sent : List ArmedMessage

/-- What an end does about its peer without a message from it. -/
inductive Chore where
  | doKeyExchange
  | sendAck
  | checkForRenew
  | defer (work : Deferred)
  | runDeferred
  | evictIdleSessions
  | drainEvents
deriving DecidableEq

def Chore.operation (peer : PublicKey) : Chore → Operation
  | doKeyExchange => .doKeyExchange peer
  | sendAck => .sendAck peer
  | checkForRenew => .checkForRenew peer
  | defer work => .defer peer work
  | runDeferred => .runDeferred
  | evictIdleSessions => .evictIdleSessions
  | drainEvents => .drainEvents

namespace Conversation

inductive Action where
  /-- An end encrypts a payload and hands the message to the network. -/
  | arm (a : Side) (payload : Bytes)
  /-- The network delivers one of its messages to an end, as coming from the other. -/
  | deliver (a : Side) (k : Nat)
  /-- An end hands its protocol messages to the network. -/
  | collect (a : Side)
  | chore (a : Side) (work : Chore)
deriving DecidableEq

def Action.side : Action → Side
  | arm a _ | deliver a _ | collect a | chore a _ => a

def address (c : Conversation) (a : Side) : PublicKey := (c.ends a).engine.address

/-- What an action asks of its end.  A message that was never sent cannot be delivered. -/
def operation (c : Conversation) : Action → Option Operation
  | .arm a payload => some (.armOutbound (c.address a.other) payload)
  | .deliver a k => c.sent[k]?.map (.disarmInbound (c.address a.other))
  | .collect _ => some .drainOutbox
  | .chore a work => some (work.operation (c.address a.other))

def said (S : Suite) (now : Nat) (c : Conversation) : Action → List ArmedMessage
  | .arm a payload =>
    ((c.ends a).engine.armOutbound S now (c.address a.other) payload (c.ends a).entropy).1.toOption.toList
  | .collect a => (c.ends a).engine.outbox.map (·.armed)
  | .deliver _ _ | .chore _ _ => []

def act (S : Suite) (now : Nat) (c : Conversation) (act : Action) : Conversation where
  ends := Function.update c.ends act.side
    ((c.operation act).elim (c.ends act.side) (·.perform S now (c.ends act.side)))
  sent := c.sent ++ c.said S now act

def start (identity : Side → KeyPair) (config : Side → ArmConfig) (entropy : Side → Entropy) :
    Conversation :=
  ⟨fun a => .start (identity a) (config a) (entropy a), []⟩

def run (S : Suite) (c : Conversation) (acts : List (Nat × Action)) : Conversation :=
  acts.foldl (fun c act => c.act S act.1 act.2) c

variable {S : Suite} {c : Conversation} {now : Nat} {act : Action}

theorem run_concat (S : Suite) (c : Conversation) (acts : List (Nat × Action)) (now : Nat)
    (act : Action) : c.run S (acts ++ [(now, act)]) = (c.run S acts).act S now act := by
  unfold run
  rw [List.foldl_append]
  rfl

theorem ends_act_other (S : Suite) (now : Nat) (c : Conversation) (act : Action) :
    (c.act S now act).ends act.side.other = c.ends act.side.other :=
  Function.update_of_ne (Side.other_ne act.side) _ _

theorem ends_act_side (S : Suite) (now : Nat) (c : Conversation) (act : Action) :
    (c.act S now act).ends act.side =
      (c.operation act).elim (c.ends act.side) (·.perform S now (c.ends act.side)) :=
  Function.update_self act.side _ _

/-- What holds at both ends, and still at the acting one, holds at both after the action. -/
theorem ends_act_keeps {P : Side → Endpoint → Prop} (hp : ∀ a, P a (c.ends a))
    (hop : ∀ op, c.operation act = some op → P act.side (op.perform S now (c.ends act.side))) (a : Side) :
    P a ((c.act S now act).ends a) := by
  rcases Side.eq_or_eq_other act.side a with rfl | rfl
  · rw [ends_act_side]
    cases ho : c.operation act with
    | none => exact hp act.side
    | some op => exact hop op ho
  · rw [ends_act_other]
    exact hp act.side.other

end Conversation

end Overlay
