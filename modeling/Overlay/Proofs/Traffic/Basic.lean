import Overlay.Proofs.Conversation.Basic
import Overlay.Proofs.Crypto.Textbook
import Overlay.Proofs.Engine.Work

/-!
# Traffic

Two engines that talk with each other, and the messages that are on their way to each of them.  The network may
deliver these in any order, lose them and copy them (`Traffic.Action`), but it shows no message to the end that it is
from.  A record is kept of what each end has encrypted.
-/

namespace Overlay

/-- Two endpoints, and the messages on their way. -/
structure Traffic where
  ends : Side → Endpoint
  /-- The messages on their way to an end. -/
  toward : Side → List ArmedMessage
  /-- What each end has encrypted so far. -/
  sealed : Side → List Seal

namespace Traffic

inductive Action where
  /-- An end encrypts a payload and hands the message to the network. -/
  | arm (a : Side) (payload : Bytes)
  | runDeferred (a : Side)
  | evictIdleSessions (a : Side)
  /-- An end hands its protocol messages to the network. -/
  | collect (a : Side)
  | drainEvents (a : Side)
  /-- A message on its way to an end arrives. -/
  | deliver (a : Side) (k : Nat)
  | lose (a : Side) (k : Nat)
  | copy (a : Side) (k : Nat)
deriving DecidableEq

def Action.side : Action → Side
  | arm a _ | runDeferred a | evictIdleSessions a | collect a | drainEvents a | deliver a _ | lose a _
  | copy a _ => a

def address (v : Traffic) (a : Side) : PublicKey := (v.ends a).engine.address

def operation (v : Traffic) : Action → Option Operation
  | .arm a payload => some (.armOutbound (v.address a.other) payload)
  | .runDeferred _ => some .runDeferred
  | .evictIdleSessions _ => some .evictIdleSessions
  | .collect _ => some .drainOutbox
  | .drainEvents _ => some .drainEvents
  | .deliver a k => (v.toward a)[k]?.map (.disarmInbound (v.address a.other))
  | .lose _ _ | .copy _ _ => none

def said (S : Suite) (now : Nat) (v : Traffic) : Action → List ArmedMessage
  | .arm a payload =>
    ((v.ends a).engine.armOutbound S now (v.address a.other) payload (v.ends a).entropy).1.toOption.toList
  | .collect a => ((v.ends a).engine.outbox.filter (·.peer = v.address a.other)).map (·.armed)
  | _ => []

def left (v : Traffic) : Action → List ArmedMessage
  | .deliver a k | .lose a k => (v.toward a).eraseIdx k
  | .copy a k => v.toward a ++ (v.toward a)[k]?.toList
  | act => v.toward act.side

def act (S : Suite) (now : Nat) (v : Traffic) (act : Action) : Traffic where
  ends := Function.update v.ends act.side
    ((v.operation act).elim (v.ends act.side) (·.perform S now (v.ends act.side)))
  toward a := if a = act.side then v.left act else v.toward a ++ v.said S now act
  sealed := Function.update v.sealed act.side
    (v.sealed act.side ++ (v.operation act).elim [] (·.seals S now (v.ends act.side)))

def start (S : Suite) (secret : Side → SecretKey) (config : Side → ArmConfig) (entropy : Side → Entropy) :
    Traffic :=
  ⟨fun a => .start (S.keyPair (secret a)) (config a) (entropy a), fun _ => [], fun _ => []⟩

def run (S : Suite) (v : Traffic) (acts : List (Nat × Action)) : Traffic :=
  acts.foldl (fun v act => v.act S act.1 act.2) v

variable {S : Suite} {v : Traffic} {now : Nat} {act : Action}

theorem ends_act_side (S : Suite) (now : Nat) (v : Traffic) (act : Action) :
    (v.act S now act).ends act.side =
      (v.operation act).elim (v.ends act.side) (·.perform S now (v.ends act.side)) :=
  Function.update_self act.side _ _

theorem ends_act_other (S : Suite) (now : Nat) (v : Traffic) (act : Action) :
    (v.act S now act).ends act.side.other = v.ends act.side.other :=
  Function.update_of_ne (Side.other_ne act.side) _ _

theorem ends_act_keeps {P : Side → Endpoint → Prop} (hp : ∀ a, P a (v.ends a))
    (hop : ∀ op, v.operation act = some op → P act.side (op.perform S now (v.ends act.side))) (a : Side) :
    P a ((v.act S now act).ends a) := by
  rcases Side.eq_or_eq_other act.side a with rfl | rfl
  · rw [ends_act_side]
    cases ho : v.operation act with
    | none => exact hp act.side
    | some op => exact hop op ho
  · rw [ends_act_other]
    exact hp act.side.other

theorem toward_act_side (S : Suite) (now : Nat) (v : Traffic) (act : Action) :
    (v.act S now act).toward act.side = v.left act := if_pos rfl

theorem toward_act_other (S : Suite) (now : Nat) (v : Traffic) (act : Action) :
    (v.act S now act).toward act.side.other = v.toward act.side.other ++ v.said S now act :=
  if_neg (Side.other_ne act.side)

/-- A message on its way was on its way before, or was just said. -/
theorem mem_toward_act {a : Side} {m : ArmedMessage} (hm : m ∈ (v.act S now act).toward a) :
    m ∈ v.toward a ∨ a = act.side.other ∧ m ∈ v.said S now act := by
  rcases Side.eq_or_eq_other act.side a with rfl | rfl
  · rw [toward_act_side] at hm
    left
    cases act with
    | deliver a k => exact List.mem_of_mem_eraseIdx hm
    | lose a k => exact List.mem_of_mem_eraseIdx hm
    | copy a k =>
      rcases List.mem_append.1 hm with hm | hm
      · exact hm
      · exact List.mem_of_getElem? (Option.mem_toList.1 hm)
    | _ => exact hm
  · rw [toward_act_other, List.mem_append] at hm
    exact hm.imp_right fun hm => ⟨rfl, hm⟩

/-! ### Ends to try -/

def secrets (a : Side) : SecretKey := ⟨Textbook.remainder (if a = .left then 5 else 7)⟩

def sources (a : Side) : Entropy := Textbook.counting (if a = .left then 11 else 31)

end Traffic

end Overlay
