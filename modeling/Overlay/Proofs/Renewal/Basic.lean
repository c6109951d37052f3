import Overlay.Proofs.Conversation.Basic

/-!
# A renewal in outline

Two ends that use an agreement renew it, over lines that lose nothing and keep the order; without the
cryptography.  Where a renewal is due, a check for it offers a key.  The other end answers with its own key and an
acknowledgement, unless it has offered its key already, and then it acknowledges only.  An end that has
answered finds the renewal due at its own check, as long as the acknowledgement has not arrived, and offers its key
once more.  The offer that comes after the acknowledgement primes the other end with a key for the next renewal, and
the agreement of that key is acknowledged in vain.

The two stages of the ends tell what is on its way between them (`Stage.posted`, `Stage.heard`), and they fit
together (`Together`).  So whatever arrives can be understood (`Orderly.understood`), and where nothing is left to do
and the renewal was due, both ends have promoted the new agreement (`Orderly.renewed`).
-/

namespace Overlay

namespace Renewal

/-- What travels between the ends. -/
inductive Item where
  | key
  | ack
  /-- The acknowledgement of an agreement that the other end does not know. -/
  | spare
deriving DecidableEq

/-- How an end has sent its key: at a check for renewal, in answer to the other end's key, or both. -/
inductive Way where
  | asked
  | answered
  | repeated
deriving DecidableEq

/-- How far an end is in a renewal. -/
inductive Stage where
  | idle
  | asked
  | bonded (way : Way)
  | promoted (way : Way)
  /-- Promoted, and with another key for the next renewal; its agreement may have been acknowledged. -/
  | primed (spare : Bool)
  /-- Promoted, and past the acknowledgement in vain. -/
  | settled
deriving DecidableEq

instance (P : Item → Prop) [DecidablePred P] : Decidable (∀ i, P i) :=
  decidable_of_iff (P .key ∧ P .ack ∧ P .spare)
    ⟨fun h i => by cases i; exacts [h.1, h.2.1, h.2.2], fun h => ⟨h .key, h .ack, h .spare⟩⟩

def Way.posted : Way → List Item
  | asked | answered => [.key, .ack]
  | repeated => [.key, .ack, .key]

namespace Stage

def all : List Stage :=
  [idle, asked, bonded .asked, bonded .answered, bonded .repeated, promoted .asked, promoted .answered,
    promoted .repeated, primed true, primed false, settled]

theorem mem_all (s : Stage) : s ∈ all := by
  cases s with
  | bonded way | promoted way => cases way <;> decide
  | primed spare => cases spare <;> decide
  | _ => decide

instance (P : Stage → Prop) [DecidablePred P] : Decidable (∀ s, P s) :=
  decidable_of_iff (∀ s ∈ all, P s) ⟨fun h s => h s s.mem_all, fun h s _ => h s⟩

def posted : Stage → List Item
  | idle => []
  | asked => [.key]
  | bonded way | promoted way => way.posted
  | primed spare => if spare then [.key, .ack, .spare] else [.key, .ack]
  | settled => [.key, .ack, .key]

def heard : Stage → List Item
  | idle | asked => []
  | bonded _ => [.key]
  | promoted _ => [.key, .ack]
  | primed _ => [.key, .ack, .key]
  | settled => [.key, .ack, .spare]

def renewed : Stage → Bool
  | idle | asked | bonded _ => false
  | promoted _ | primed _ | settled => true

def check : Stage → Stage
  | idle => asked
  | bonded .answered => bonded .repeated
  | s => s

/-- What an end may become on hearing an item. -/
def hear : Stage → Item → List Stage
  | idle, .key => [bonded .answered]
  | asked, .key => [bonded .asked]
  | bonded way, .ack => [promoted way]
  | promoted .asked, .key => [primed true, primed false]
  | promoted .repeated, .spare => [settled]
  | _, _ => []

def answers : Stage → Bool
  | bonded way | promoted way => way ≠ .asked
  | settled => true
  | idle | asked | primed _ => false

def news (s s' : Stage) : List Item := s'.posted.drop s.posted.length

end Stage

/-! ### Stages that fit together -/

/-- The stages of two ends fit together: what an end has heard the other one has posted, and one of them was asked
first. -/
def Together (s s' : Stage) : Prop :=
  s.heard <+: s'.posted ∧ s'.heard <+: s.posted ∧ ¬ (s.answers ∧ s'.answers)

instance (s s' : Stage) : Decidable (Together s s') := inferInstanceAs (Decidable (_ ∧ _ ∧ _))

theorem Together.symm {s s' : Stage} (h : Together s s') : Together s' s :=
  ⟨h.2.1, h.1, fun hb => h.2.2 ⟨hb.2, hb.1⟩⟩

theorem together_check : ∀ s s', Together s s' → Together s.check s' := by decide

/-- Whatever comes next is understood, and every outcome fits. -/
theorem together_hear : ∀ s s', Together s s' → ∀ i ∈ (s'.posted.drop s.heard.length).head?,
    s.hear i ≠ [] ∧ ∀ next ∈ s.hear i, Together next s' := by decide

/-- Where everything is heard, both ends are done, or neither has begun. -/
theorem together_quiet : ∀ s s', Together s s' → s'.posted.length ≤ s.heard.length →
    s.posted.length ≤ s'.heard.length → (s.renewed ∧ s'.renewed) ∨ (s = .idle ∧ s' = .idle) := by decide

theorem check_spec : ∀ s : Stage, s.posted <+: s.check.posted ∧ s.check.heard = s.heard ∧ s.check ≠ .idle := by
  decide

theorem hear_spec : ∀ (s : Stage) (i : Item), ∀ next ∈ s.hear i,
    s.posted <+: next.posted ∧ next.heard = s.heard ++ [i] ∧ next ≠ .idle := by decide

/-! ### Two ends and their lines -/

/-- One end in a renewal. -/
structure Half where
  stage : Stage
  /-- How many checks for a renewal wait. -/
  checks : Nat
  outbox : List Item
  /-- What is on its way to the other end, the oldest first. -/
  line : List Item

namespace Half

def start : Half := ⟨.idle, 1, [], []⟩

def become (h : Half) (s : Stage) : Half := { h with stage := s, outbox := h.outbox ++ h.stage.news s }

def check (due : Bool) (h : Half) : Half := if due then h.become h.stage.check else h

def runDeferred (due : Bool) (h : Half) : Half := (check due)^[h.checks] { h with checks := 0 }

def collect (h : Half) : Half := { h with outbox := [], line := h.line ++ h.outbox }

def heed (h : Half) (s : Stage) : Half := { h.become s with checks := h.checks + 1 }

theorem line_check (due : Bool) (h : Half) : (h.check due).line = h.line := by
  unfold check
  split <;> rfl

theorem line_runDeferred (due : Bool) (h : Half) : (h.runDeferred due).line = h.line := by
  have hchecks : ∀ n, ((check due)^[n] { h with checks := 0 }).line = h.line := by
    intro n
    induction n with
    | zero => rfl
    | succ n ih =>
      rw [Function.iterate_succ_apply', line_check]
      exact ih
  exact hchecks h.checks

/-- The items that were posted and not heard yet. -/
def pipeline (h : Half) : List Item := h.line ++ h.outbox

end Half

abbrev Exchange := Side → Half

namespace Exchange

open Function

inductive Next (due : Bool) (p : Exchange) : Exchange → Prop where
  | runDeferred (a : Side) : Next due p (update p a ((p a).runDeferred due))
  | collect (a : Side) : Next due p (update p a (p a).collect)
  | deliver (a : Side) (i : Item) (rest : List Item) (s : Stage) (hi : (p a.other).line = i :: rest)
      (hs : s ∈ (p a).stage.hear i) :
      Next due p (update (update p a.other { p a.other with line := rest }) a ((p a).heed s))

/-- What an end has posted and the other one has not heard is on its way. -/
def Flows (mine theirs : Half) : Prop := mine.pipeline = mine.stage.posted.drop theirs.stage.heard.length

/-- Where a renewal is due, an end has begun or is about to. -/
structure Begun (due : Bool) (h : Half) : Prop where
  begun : due → h.stage ≠ .idle ∨ h.checks ≠ 0
  calm : ¬ due → h.stage = .idle

structure Orderly (due : Bool) (p : Exchange) : Prop where
  together : ∀ a, Together (p a).stage (p a.other).stage
  flows : ∀ a, Flows (p a) (p a.other)
  begun : ∀ a, Begun due (p a)

variable {due : Bool} {p p' : Exchange} {mine theirs : Half}

theorem orderly_start (due : Bool) : Orderly due fun _ => .start :=
  ⟨fun _ => by decide, fun _ => rfl, fun _ => ⟨fun _ => Or.inr Nat.one_ne_zero, fun _ => rfl⟩⟩

/-! ### What is on its way -/

theorem Flows.become (hf : Flows mine theirs) {s : Stage} (hheard : theirs.stage.heard <+: mine.stage.posted)
    (hposted : mine.stage.posted <+: s.posted) : Flows (mine.become s) theirs := by
  obtain ⟨more, hmore⟩ := hposted
  have hnews : mine.stage.news s = more := by
    rw [Stage.news, ← hmore, List.drop_left]
  have happend : (mine.become s).pipeline = mine.pipeline ++ mine.stage.news s := (List.append_assoc _ _ _).symm
  have hstage : (mine.become s).stage.posted = s.posted := rfl
  rw [Flows, happend, hnews, hf, hstage, ← hmore, List.drop_append_of_le_length hheard.length_le]

theorem Flows.congr (hf : Flows mine theirs) {theirs' : Half} (hheard : theirs'.stage.heard = theirs.stage.heard) :
    Flows mine theirs' := by
  rw [Flows, hheard]
  exact hf

theorem Flows.next (hf : Flows mine theirs) {i : Item} {rest : List Item} (hline : mine.line = i :: rest) :
    i ∈ (mine.stage.posted.drop theirs.stage.heard.length).head? ∧
      ({ mine with line := rest } : Half).pipeline =
        mine.stage.posted.drop (theirs.stage.heard ++ [i]).length := by
  have hcons : mine.stage.posted.drop theirs.stage.heard.length = i :: (rest ++ mine.outbox) := by
    rw [← hf, Half.pipeline, hline, List.cons_append]
  refine ⟨by rw [hcons]; rfl, ?_⟩
  rw [List.length_append, List.length_singleton, ← List.tail_drop, hcons]
  rfl

/-! ### Steps -/

theorem orderly_of (a : Side) (htogether : Together (p a).stage (p a.other).stage)
    (hmine : Flows (p a) (p a.other)) (htheirs : Flows (p a.other) (p a)) (hbegun : ∀ b, Begun due (p b)) :
    Orderly due p := by
  refine ⟨?_, ?_, hbegun⟩ <;> intro b <;> rcases Side.eq_or_eq_other a b with rfl | rfl
  · exact htogether
  · rw [Side.other_other]
    exact htogether.symm
  · exact hmine
  · rw [Side.other_other]
    exact htheirs

theorem Orderly.change (hp : Orderly due p) (a : Side) {h : Half} (htogether : Together h.stage (p a.other).stage)
    (hflows : Flows h (p a.other)) (hheard : h.stage.heard = (p a).stage.heard) (hbegun : Begun due h) :
    Orderly due (update p a h) := by
  have hback := hp.flows a.other
  rw [Side.other_other] at hback
  apply orderly_of a
  · rw [update_self, update_of_ne (Side.other_ne a)]
    exact htogether
  · rw [update_self, update_of_ne (Side.other_ne a)]
    exact hflows
  · rw [update_self, update_of_ne (Side.other_ne a)]
    exact hback.congr hheard
  · intro b
    rcases Side.eq_or_eq_other a b with rfl | rfl
    · rw [update_self]
      exact hbegun
    · rw [update_of_ne (Side.other_ne a)]
      exact hp.begun a.other

/-- Checks leave an end in order, and one check is enough to begin. -/
theorem runDeferred_keeps {h : Half} (htogether : Together h.stage theirs.stage) (hflows : Flows h theirs)
    (hbegun : Begun due h) :
    Together (h.runDeferred due).stage theirs.stage ∧ Flows (h.runDeferred due) theirs ∧
      (h.runDeferred due).stage.heard = h.stage.heard ∧ Begun due (h.runDeferred due) := by
  have hchecks : ∀ n, let k := (Half.check due)^[n] { h with checks := 0 }
      Together k.stage theirs.stage ∧ Flows k theirs ∧ k.stage.heard = h.stage.heard ∧
        (due → h.stage ≠ .idle ∨ n ≠ 0 → k.stage ≠ .idle) ∧ (¬ due → k.stage = .idle) := by
    intro n
    induction n with
    | zero => exact ⟨htogether, hflows, rfl, fun _ hs => hs.resolve_right fun h => h rfl, hbegun.calm⟩
    | succ n ih =>
      rw [iterate_succ_apply']
      generalize (Half.check due)^[n] { h with checks := 0 } = k at ih
      obtain ⟨htogether, hflows, hheard, -, hcalm⟩ := ih
      cases due with
      | false => exact ⟨htogether, hflows, hheard, fun h => absurd h Bool.false_ne_true, hcalm⟩
      | true =>
        obtain ⟨hposted, hsame, hne⟩ := check_spec k.stage
        exact ⟨together_check _ _ htogether, hflows.become htogether.2.1 hposted, hsame.trans hheard,
          fun _ _ => hne, fun h => absurd rfl h⟩
  obtain ⟨htogether, hflows, hheard, hne, hcalm⟩ := hchecks h.checks
  exact ⟨htogether, hflows, hheard, fun hd => Or.inl (hne hd (hbegun.begun hd)), hcalm⟩

theorem Orderly.due_of_line (hp : Orderly due p) (a : Side) (hline : (p a).line ≠ []) : due = true := by
  by_contra hdue
  have hflows := hp.flows a
  rw [Flows, (hp.begun a).calm hdue, Half.pipeline] at hflows
  exact hline (List.append_eq_nil_iff.1 (hflows.trans List.drop_nil)).1

theorem Orderly.understood (hp : Orderly due p) (a : Side) {i : Item} {rest : List Item}
    (hline : (p a.other).line = i :: rest) : (p a).stage.hear i ≠ [] := by
  have hback := hp.flows a.other
  rw [Side.other_other] at hback
  exact (together_hear _ _ (hp.together a) i (hback.next hline).1).1

/-- **Whatever happens keeps the renewal in order.** -/
theorem Orderly.next (hp : Orderly due p) (hn : Next due p p') : Orderly due p' := by
  cases hn with
  | runDeferred a =>
    obtain ⟨htogether, hflows, hheard, hbegun⟩ := runDeferred_keeps (hp.together a) (hp.flows a) (hp.begun a)
    exact hp.change a htogether hflows hheard hbegun
  | collect a =>
    have hpipeline : (p a).collect.pipeline = (p a).pipeline := List.append_nil _
    refine hp.change a (hp.together a) ?_ rfl ⟨(hp.begun a).begun, (hp.begun a).calm⟩
    rw [Flows, hpipeline]
    exact hp.flows a
  | deliver a i rest s hi hs =>
    have hback := hp.flows a.other
    rw [Side.other_other] at hback
    obtain ⟨hmem, hpipeline⟩ := hback.next hi
    obtain ⟨-, htogether⟩ := together_hear _ _ (hp.together a) i hmem
    obtain ⟨hposted, hheard, hne⟩ := hear_spec _ i s hs
    have hdue : due := hp.due_of_line a.other (by rw [hi]; exact List.cons_ne_nil i rest)
    apply orderly_of a
    · rw [update_self, update_of_ne (Side.other_ne a), update_self]
      exact htogether s hs
    · rw [update_self, update_of_ne (Side.other_ne a), update_self]
      exact (hp.flows a).become (hp.together a).2.1 hposted
    · rw [update_self, update_of_ne (Side.other_ne a), update_self]
      rw [← hheard] at hpipeline
      exact hpipeline
    · intro b
      rcases Side.eq_or_eq_other a b with rfl | rfl
      · rw [update_self]
        exact ⟨fun _ => Or.inl hne, fun h => absurd hdue h⟩
      · rw [update_of_ne (Side.other_ne a), update_self]
        exact ⟨(hp.begun a.other).begun, (hp.begun a.other).calm⟩

/-- **Where nothing is left to do**, both ends have promoted the new agreement if the renewal was due, and neither
has begun if it was not. -/
theorem Orderly.renewed (hp : Orderly due p)
    (hquiet : ∀ a, (p a).checks = 0 ∧ (p a).outbox = [] ∧ (p a).line = []) (a : Side) :
    if due then (p a).stage.renewed else (p a).stage = .idle := by
  have hheard : ∀ a, (p a).stage.posted.length ≤ (p a.other).stage.heard.length := by
    intro a
    have hflows := hp.flows a
    rw [Flows, Half.pipeline, (hquiet a).2.1, (hquiet a).2.2] at hflows
    exact List.drop_eq_nil_iff.1 hflows.symm
  have hback := hheard a.other
  rw [Side.other_other] at hback
  split
  · rename_i hdue
    rcases together_quiet _ _ (hp.together a) hback (hheard a) with ⟨hdone, -⟩ | ⟨hidle, -⟩
    · exact hdone
    · exact absurd hidle (((hp.begun a).begun hdue).resolve_right fun h => h (hquiet a).1)
  · rename_i hdue
    exact (hp.begun a).calm hdue

end Exchange

end Renewal

end Overlay
