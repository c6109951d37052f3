import Overlay.Proofs.Handshake.Convergence
import Overlay.Proofs.Renewal.Engine

/-!
# A round of a dialogue

A round begins with a payload, which is delivered at once.  Then the ends do their jobs, hand their messages to their
lines, and the oldest message of a line is delivered, in any order (`Dialogue.Handling`).  The clock stands still in a
round.

The payload is read as it was sent, and whatever comes of it goes as the outline of a renewal says
(`Renewal.follows_round`).
-/

namespace Overlay

namespace Dialogue

/-- What the ends do about what a payload left behind. -/
inductive Handling where
  | runDeferred (a : Side)
  | collect (a : Side)
  /-- The oldest message of the other end's line is delivered to an end. -/
  | deliver (a : Side)
deriving DecidableEq

def Handling.action : Handling → Action
  | runDeferred a => .runDeferred a
  | collect a => .collect a
  | deliver a => .deliver a

/-- A payload from one end, and what the ends do about what it left behind. -/
structure Round where
  now : Nat
  side : Side
  payload : Bytes
  handling : List Handling
deriving DecidableEq

def Round.actions (r : Round) : List (Nat × Action) :=
  (r.now, .arm r.side r.payload) :: (r.now, .deliver r.side.other) :: r.handling.map fun h => (r.now, h.action)

variable {S : Suite} {d : Dialogue}

theorem run_append (S : Suite) (d : Dialogue) (acts later : List (Nat × Action)) :
    d.run S (acts ++ later) = (d.run S acts).run S later := List.foldl_append

theorem act_deliver_nil {a : Side} (h : d.line a.other = []) (S : Suite) (now : Nat) :
    d.act S now (.deliver a) = d := by
  simp only [act, h]

theorem act_deliver_cons {a : Side} {l : Letter} {rest : List Letter} (h : d.line a.other = l :: rest) (S : Suite)
    (now : Nat) :
    d.act S now (.deliver a) =
      { d.perform S now a (.disarmInbound (d.address a.other) l.armed) with
        line := Function.update d.line a.other rest
        answers := d.answers ++ l.payload.toList.map (·, ((d.ends a).engine.disarmInbound S now (d.address a.other)
          l.armed (d.ends a).entropy).1) } := by
  simp only [act, h]

theorem ends_act (S : Suite) (now : Nat) (d : Dialogue) (act : Action) (a : Side) :
    ∃ ops, (d.act S now act).ends a = (d.ends a).run S ops := by
  have hperform : ∀ (b : Side) (op : Operation), ∃ ops, (d.perform S now b op).ends a = (d.ends a).run S ops := by
    intro b op
    by_cases hb : a = b
    · subst hb
      exact ⟨[(now, op)], Function.update_self a _ _⟩
    · exact ⟨[], Function.update_of_ne hb _ _⟩
  cases act with
  | arm b payload => exact hperform b _
  | runDeferred b => exact hperform b _
  | collect b => exact hperform b _
  | deliver b =>
    cases hl : d.line b.other with
    | nil =>
      rw [act_deliver_nil hl]
      exact ⟨[], rfl⟩
    | cons l rest =>
      rw [act_deliver_cons hl]
      exact hperform b _

/-- What happens in a dialogue is a run of each end. -/
theorem ends_run (S : Suite) (d : Dialogue) (acts : List (Nat × Action)) (a : Side) :
    ∃ ops, (d.run S acts).ends a = (d.ends a).run S ops := by
  induction acts using List.reverseRecOn with
  | nil => exact ⟨[], rfl⟩
  | append_singleton acts act ih =>
    obtain ⟨ops, hops⟩ := ih
    obtain ⟨more, hmore⟩ := ends_act S act.1 (d.run S acts) act.2 a
    refine ⟨ops ++ more, ?_⟩
    rw [run_concat, hmore, hops, Endpoint.run_append]

end Dialogue

namespace Renewal

open Dialogue Function

def Bears (S : Suite) (P : Party) (i : Item) (l : Letter) : Prop := P.Carries S i l.armed ∧ l.payload = none

/-- The two ends use the same and will agree on the same, and everything they need can be made. -/
structure Matched (S : Suite) (P : Side → Party) (due : Bool) (now : Nat) : Prop where
  ready : ∀ a, (P a).Ready S
  faces : ∀ a, (P a).Faces (P a.other)
  now : ∀ a, (P a).now = now
  due : ∀ a, (P a).due = due

/-- A dialogue goes as the outline says; nothing was told, and no payload is on its way. -/
structure Follows (S : Suite) (P : Side → Party) (told : Side → List Event)
    (answers : List (Bytes × Except ArmError Disarmed)) (p : Exchange) (d : Dialogue) : Prop where
  ends : ∀ a, (P a).Runs S (P a).now (told a) (p a) (d.ends a)
  line : ∀ a, List.Forall₂ (Bears S (P a)) (p a).line (d.line a)
  answers : d.answers = answers

variable {S : Suite} {P : Side → Party} {due : Bool} {now seen : Nat} {told : Side → List Event}
  {answers : List (Bytes × Except ArmError Disarmed)} {p : Exchange} {d : Dialogue}

theorem address_of_runs (hP : Matched S P due now) {a : Side} {events : List Event} {h : Half}
    (hw : (P a.other).Runs S seen events h (d.ends a.other)) : d.address a.other = (P a).peer := by
  rw [Dialogue.address, Engine.address, hw.identity]
  exact (hP.faces a).own

/-! ### The payload -/

/-- **The payload is read as it was sent**, and each end has a check to do. -/
theorem follows_payload (hP : Matched S P due now) (hS : S.Opens)
    (hd : ∀ a, (P a).Runs S seen (told a) ⟨.idle, 0, [], []⟩ (d.ends a)) (hline : ∀ a, d.line a = []) (a : Side)
    {payload : Bytes}
    (hencrypt : ∀ k n data, ∃ c, S.encrypt k n data (ArmMessage.application payload).encode = some c) :
    Follows S P told (d.answers ++ [(payload, .ok (.application payload))]) (fun _ => .start)
      (d.run S [(now, .arm a payload), (now, .deliver a.other)]) := by
  have hnow : ∀ b, (P b).now = now := hP.now
  have hpeer : ∀ b, d.address b.other = (P b).peer := fun b => address_of_runs hP (hd b.other)
  obtain ⟨harmed, m, hm, hsealed⟩ := (hd a).armOutbound (hP.ready a) rfl payload hencrypt
  obtain ⟨hopened, hanswer⟩ := (hd a.other).disarmPayload (hP.ready a.other) (hP.faces a.other) hS rfl
    (by rw [Side.other_other]; exact hsealed)
  rw [hnow] at harmed hm hopened hanswer
  have harm : d.act S now (.arm a payload) =
      { ends := update d.ends a ((Operation.armOutbound (P a).peer payload).perform S now (d.ends a))
        line := update d.line a [⟨m, some payload⟩]
        answers := d.answers } := by
    simp only [Dialogue.act, Dialogue.perform, hpeer, hm, hline a]
    rfl
  have hends : (d.act S now (.arm a payload)).ends a.other = d.ends a.other := by
    rw [harm]
    exact update_of_ne (Side.other_ne a) _ _
  have haddress : (d.act S now (.arm a payload)).address a.other.other = (P a.other).peer := by
    apply address_of_runs hP
    rw [Side.other_other, harm]
    simp only [update_self]
    exact harmed
  have hfirst : (d.act S now (.arm a payload)).line a.other.other = [⟨m, some payload⟩] := by
    rw [Side.other_other, harm]
    exact update_self a _ _
  show Follows S P told _ _ ((d.act S now (.arm a payload)).act S now (.deliver a.other))
  rw [act_deliver_cons hfirst, haddress, hends, hanswer, harm]
  refine ⟨?_, ?_, rfl⟩
  · intro b
    rw [hnow]
    rcases Side.eq_or_eq_other a b with rfl | rfl
    · simp only [Dialogue.perform, update_self, update_of_ne (Side.other_ne b).symm]
      exact harmed
    · simp only [Dialogue.perform, update_self, update_of_ne (Side.other_ne a)]
      exact hopened
  · intro b
    rcases Side.eq_or_eq_other a b with rfl | rfl
    · simp only [Side.other_other, update_self]
      exact .nil
    · simp only [Side.other_other, update_of_ne (Side.other_ne a), hline]
      exact .nil

/-! ### What is left to do -/

/-- One end does something by itself, and what it sends goes to its line. -/
theorem Follows.put (hd : Follows S P told answers p d) (a : Side) {h : Half} {w : Endpoint} {items : List Item}
    {letters : List Letter} (hw : (P a).Runs S (P a).now (told a) h w) (hline : h.line = (p a).line ++ items)
    (hletters : List.Forall₂ (Bears S (P a)) items letters) :
    Follows S P told answers (update p a h)
      { d with ends := update d.ends a w, line := update d.line a (d.line a ++ letters) } := by
  refine ⟨?_, ?_, hd.answers⟩ <;> intro b <;> rcases Side.eq_or_eq_other a b with rfl | rfl
  · simp only [update_self]
    exact hw
  · simp only [update_of_ne (Side.other_ne a)]
    exact hd.ends a.other
  · simp only [update_self]
    rw [hline]
    exact List.rel_append (hd.line b) hletters
  · simp only [update_of_ne (Side.other_ne a)]
    exact hd.line a.other

theorem bears_outbox {Q : Party} {items : List Item} {outbox : List Outgoing}
    (h : List.Forall₂ (Q.Carries S) items (outbox.map (·.armed))) :
    List.Forall₂ (Bears S Q) items (outbox.map (⟨·.armed, none⟩)) := by
  rw [List.forall₂_map_right_iff] at h ⊢
  exact h.imp fun _ _ hm => ⟨hm, rfl⟩

/-- The oldest message of a line is delivered and understood. -/
theorem Follows.deliver (hd : Follows S P told answers p d) (hP : Matched S P due now) (hS : S.Opens)
    (hp : Exchange.Orderly due p) (a : Side) {l : Letter} {letters : List Letter} (hl : d.line a.other = l :: letters) :
    ∃ p', Exchange.Next due p p' ∧ Follows S P told answers p' (d.act S now (.deliver a)) := by
  have hline := hd.line a.other
  rw [hl] at hline
  cases hi : (p a.other).line with
  | nil =>
    rw [hi] at hline
    cases hline
  | cons i rest =>
    rw [hi] at hline
    obtain ⟨⟨hcarries, hpayload⟩, hrest⟩ := List.forall₂_cons.1 hline
    have hline' : (p a.other).line ≠ [] := by
      rw [hi]
      exact List.cons_ne_nil i rest
    have hdue : (P a).due = true := (hP.due a).trans (hp.due_of_line a.other hline')
    obtain ⟨s, hs, hw⟩ := (hd.ends a).hear (hP.ready a) (hP.faces a) hS hdue (hp.understood a hi) hcarries
    refine ⟨_, .deliver a i rest s hi hs, ?_⟩
    rw [act_deliver_cons hl, address_of_runs hP (hd.ends _), hpayload]
    refine ⟨?_, ?_, ?_⟩
    · intro b
      rcases Side.eq_or_eq_other a b with rfl | rfl
      · rw [hP.now] at hw ⊢
        simp only [Dialogue.perform, update_self]
        exact hw
      · simp only [Dialogue.perform, update_self, update_of_ne (Side.other_ne a)]
        exact (hd.ends a.other).same _ rfl rfl rfl
    · intro b
      rcases Side.eq_or_eq_other a b with rfl | rfl
      · simp only [update_self, update_of_ne (Side.other_ne b).symm]
        exact hd.line b
      · simp only [update_self, update_of_ne (Side.other_ne a)]
        exact hrest
    · exact (List.append_nil _).trans hd.answers

/-- **The outline runs along** with whatever the ends do. -/
theorem Follows.handle (hd : Follows S P told answers p d) (hP : Matched S P due now) (hS : S.Opens)
    (hp : Exchange.Orderly due p) (h : Handling) :
    ∃ p', Exchange.Orderly due p' ∧ Follows S P told answers p' (d.act S now h.action) := by
  have hnow : ∀ a, (P a).now = now := hP.now
  cases h with
  | runDeferred a =>
    have hidle : (P a).due = false → (p a).stage = .idle := by
      intro hdue
      rw [hP.due] at hdue
      exact (hp.begun a).calm (by rw [hdue]; exact Bool.false_ne_true)
    have hw := (hd.ends a).runDeferred (hP.ready a) hidle
    rw [hP.due] at hw
    have hline := (Half.line_runDeferred due (p a)).trans (List.append_nil _).symm
    have hput := hd.put a hw hline .nil
    rw [List.append_nil, update_eq_self, hnow] at hput
    exact ⟨_, hp.next (.runDeferred a), hput⟩
  | collect a =>
    have hw := (hd.ends a).drainOutbox
    have hput := hd.put a hw rfl (bears_outbox (hd.ends a).outbox)
    rw [hnow] at hput
    exact ⟨_, hp.next (.collect a), hput⟩
  | deliver a =>
    cases hl : d.line a.other with
    | nil =>
      refine ⟨p, hp, ?_⟩
      rw [Handling.action, act_deliver_nil hl]
      exact hd
    | cons l letters =>
      obtain ⟨p', hnext, hfollows⟩ := hd.deliver hP hS hp a hl
      exact ⟨p', hp.next hnext, hfollows⟩

/-- **A round goes as the outline says.** -/
theorem follows_round (hS : S.Opens) (r : Round) (hP : Matched S P due r.now)
    (hd : ∀ a, (P a).Runs S seen (told a) ⟨.idle, 0, [], []⟩ (d.ends a)) (hline : ∀ a, d.line a = [])
    (hencrypt : ∀ k n data, ∃ c, S.encrypt k n data (ArmMessage.application r.payload).encode = some c) :
    ∃ p, Exchange.Orderly due p ∧
      Follows S P told (d.answers ++ [(r.payload, .ok (.application r.payload))]) p (d.run S r.actions) := by
  have hstart := follows_payload hP hS hd hline r.side hencrypt
  have hsplit : d.run S r.actions = (d.run S [(r.now, .arm r.side r.payload), (r.now, .deliver r.side.other)]).run S
      (r.handling.map fun h => (r.now, h.action)) :=
    run_append S d [(r.now, .arm r.side r.payload), (r.now, .deliver r.side.other)] _
  rw [hsplit]
  generalize d.run S [(r.now, .arm r.side r.payload), (r.now, .deliver r.side.other)] = d₁ at hstart
  induction r.handling using List.reverseRecOn with
  | nil => exact ⟨_, Exchange.orderly_start due, hstart⟩
  | append_singleton handling h ih =>
    obtain ⟨p, hp, hfollows⟩ := ih
    rw [List.map_append, List.map_singleton, run_concat]
    exact hfollows.handle hP hS hp h

theorem Follows.quiet (hd : Follows S P told answers p d) (hquiet : d.Quiet) (a : Side) :
    (p a).checks = 0 ∧ (p a).outbox = [] ∧ (p a).line = [] := by
  obtain ⟨hdeferred, houtbox, hline⟩ := hquiet a
  have hchecks := (hd.ends a).deferred
  have hposted := (hd.ends a).outbox
  have hsent := hd.line a
  rw [hdeferred] at hchecks
  rw [houtbox] at hposted
  rw [hline] at hsent
  exact ⟨(List.replicate_eq_nil_iff _).1 hchecks.symm, List.forall₂_nil_right_iff.1 hposted,
    List.forall₂_nil_right_iff.1 hsent⟩

end Renewal

end Overlay
