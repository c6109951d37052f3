import Overlay.Proofs.Conversation.Basic

/-!
# The handshake in outline

Two ends that lose no message and keep their order, without the cryptography.  An end is fresh, has offered a
key, has bonded with the key of the other end, or has promoted the agreement (`Stage`).  It sends its key once
and acknowledges once, in this order; payloads go under the long-time agreement until it has promoted.

In every state that can be reached (`Handshake.Orderly`) what an end has posted and the other has not heard yet
is the rest of the key and the acknowledgement.  So whatever arrives can be understood (`Orderly.understood`), and
where nothing is left to do after somebody asked for a key exchange, both ends have promoted
(`Orderly.promoted`).
-/

namespace Overlay

/-- How far an end is in the handshake. -/
inductive Stage where
  | fresh
  | offered
  | bonded
  | promoted
deriving DecidableEq

/-- What travels between the ends. -/
inductive Parcel where
  /-- A payload under the long-time agreement. -/
  | plain (payload : Bytes)
  /-- A payload under the new agreement. -/
  | covered (payload : Bytes)
  | key
  | ack
deriving DecidableEq

namespace Parcel

def payload : Parcel → Option Bytes
  | plain payload | covered payload => some payload
  | key | ack => none

def ofHandshake (i : Parcel) : Bool := i.payload.isNone

end Parcel

namespace Stage

def wrap (s : Stage) (payload : Bytes) : Parcel :=
  if s = promoted then .covered payload else .plain payload

def armJobs (s : Stage) : List Deferred :=
  if s = promoted then [.checkRenewal] else [.checkRenewal, .keyExchange]

def posted : Stage → Nat
  | fresh => 0
  | offered => 1
  | bonded | promoted => 2

/-- Whether an end has not heard the key of the other one. -/
def early : Stage → Bool
  | fresh | offered => true
  | bonded | promoted => false

/-- What an end becomes on hearing an item, and what it replies, if the item can be understood. -/
def hear : Stage → Parcel → Option (Stage × List Parcel)
  | s, .plain _ => some (s, [])
  | bonded, .covered _ | promoted, .covered _ => some (promoted, [])
  | fresh, .key => some (bonded, [.key, .ack])
  | offered, .key => some (bonded, [.ack])
  | bonded, .ack | promoted, .ack => some (promoted, [])
  | _, _ => none

/-- What an end becomes by a job, and what it posts. -/
def perform : Stage → Deferred → Stage × List Parcel
  | fresh, .keyExchange => (offered, [.key])
  | s, _ => (s, [])

end Stage

structure Half where
  stage : Stage
  jobs : List Deferred
  outbox : List Parcel
  /-- What is on its way to the other end, the oldest first. -/
  line : List Parcel
  armed : Bool

namespace Half

def start : Half := ⟨.fresh, [], [], [], false⟩

/-- Sending a payload; the encryption may fail. -/
def arm (h : Half) (sent : Option Bytes) : Half :=
  { h with
    jobs := h.jobs ++ h.stage.armJobs
    line := h.line ++ (sent.map h.stage.wrap).toList
    armed := true }

def perform (h : Half) (work : Deferred) : Half :=
  { h with stage := (h.stage.perform work).1, outbox := h.outbox ++ (h.stage.perform work).2 }

def runDeferred (h : Half) : Half := h.jobs.foldl perform { h with jobs := [] }

def collect (h : Half) : Half := { h with outbox := [], line := h.line ++ h.outbox }

def heed (h : Half) (s : Stage) (reply : List Parcel) : Half :=
  { h with stage := s, jobs := h.jobs ++ [.checkRenewal], outbox := h.outbox ++ reply }

/-- The items of the handshake that were posted and not heard yet. -/
def pipeline (h : Half) : List Parcel := h.line.filter Parcel.ofHandshake ++ h.outbox

end Half

abbrev Handshake := Side → Half

namespace Handshake

def put (p : Handshake) (a : Side) (h : Half) : Handshake := Function.update p a h

inductive Next (p : Handshake) : Handshake → Prop where
  | arm (a : Side) (sent : Option Bytes) : Next p (p.put a ((p a).arm sent))
  | runDeferred (a : Side) : Next p (p.put a (p a).runDeferred)
  | collect (a : Side) : Next p (p.put a (p a).collect)
  | deliver (a : Side) (i : Parcel) (rest : List Parcel) (s : Stage) (reply : List Parcel)
      (hi : (p a.other).line = i :: rest) (hs : (p a).stage.hear i = some (s, reply)) :
      Next p ((p.put a.other { p a.other with line := rest }).put a ((p a).heed s reply))

/-! ### What is on its way -/

def script : List Parcel := [.key, .ack]

/-- The traffic from an end, of which the other end has heard so many items. -/
structure Traffic (mine theirs : Half) (heard : Nat) : Prop where
  pipeline : mine.pipeline = (script.take mine.stage.posted).drop heard
  le : heard ≤ mine.stage.posted
  unheard : heard = 0 ↔ theirs.stage.early
  both : heard = 2 → theirs.stage = .promoted
  covered : ∀ payload, .covered payload ∈ mine.line → mine.stage = .promoted
  agreed : mine.stage = .promoted → ¬ theirs.stage.early

/-- Whoever has sent a payload has offered a key or is about to. -/
def Asked (h : Half) : Prop := h.armed → h.stage ≠ .fresh ∨ .keyExchange ∈ h.jobs

structure Orderly (p : Handshake) : Prop where
  asked : ∀ a, Asked (p a)
  traffic : ∀ a, ∃ heard, Traffic (p a) (p a.other) heard

theorem script_next {i : Parcel} {rest : List Parcel} {n k : Nat}
    (h : (script.take n).drop k = i :: rest) :
    rest = (script.take n).drop (k + 1) ∧ k < n ∧ (k = 0 ∧ i = .key ∨ k = 1 ∧ i = .ack) := by
  have hrest : rest = (script.take n).drop (k + 1) := by
    rw [← List.tail_drop, h]
    rfl
  have hitem : (script.take n)[k]? = some i := by
    rw [← Nat.add_zero k, ← List.getElem?_drop, h]
    rfl
  have hlt : k < n := by
    by_contra hk
    rw [List.getElem?_take, if_neg hk] at hitem
    cases hitem
  rw [List.getElem?_take_of_lt hlt] at hitem
  refine ⟨hrest, hlt, ?_⟩
  match k, hitem with
  | 0, hitem => exact Or.inl ⟨rfl, (Option.some.inj hitem).symm⟩
  | 1, hitem => exact Or.inr ⟨rfl, (Option.some.inj hitem).symm⟩

theorem length_script (s : Stage) : (script.take s.posted).length = s.posted := by cases s <;> rfl

theorem script_hear {s s' : Stage} {i : Parcel} {reply : List Parcel} (h : s.hear i = some (s', reply)) :
    script.take s'.posted = script.take s.posted ++ reply ∧ s.posted ≤ s'.posted ∧
      (s = .promoted → s' = .promoted) ∧ (s ≠ .fresh → s' ≠ .fresh) := by
  cases s <;> cases i <;> cases h <;> simp [Stage.posted, script]

namespace Traffic

variable {mine theirs : Half} {heard : Nat} {i : Parcel} {rest : List Parcel}

theorem start : Traffic .start .start 0 where
  pipeline := rfl
  le := Nat.le_refl _
  unheard := ⟨fun _ => rfl, fun _ => rfl⟩
  both h := by cases h
  covered _ h := by cases h
  agreed h := by cases h

/-- Of the other end only the stage matters. -/
theorem stage_eq (h : Traffic mine theirs heard) {theirs' : Half} (hs : theirs'.stage = theirs.stage) :
    Traffic mine theirs' heard := by
  obtain ⟨hpipeline, hle, hunheard, hboth, hcovered, hagreed⟩ := h
  rw [← hs] at hunheard hboth hagreed
  exact ⟨hpipeline, hle, hunheard, hboth, hcovered, hagreed⟩

theorem filter_outbox (h : Traffic mine theirs heard) :
    mine.outbox.filter Parcel.ofHandshake = mine.outbox := by
  rw [List.filter_eq_self]
  intro i hi
  have hpipeline : i ∈ mine.pipeline := List.mem_append_right _ hi
  rw [h.pipeline] at hpipeline
  have hscript : i ∈ script := List.mem_of_mem_take (List.mem_of_mem_drop hpipeline)
  have hcases : i = .key ∨ i = .ack := by simpa [script] using hscript
  rcases hcases with rfl | rfl <;> rfl

theorem pipeline_payload {payload : Bytes} (hi : i.payload = some payload) (hline : mine.line = i :: rest) :
    ({ mine with line := rest } : Half).pipeline = mine.pipeline := by
  have hfilter : ¬ i.ofHandshake = true := by simp [Parcel.ofHandshake, hi]
  rw [Half.pipeline, Half.pipeline, hline, List.filter_cons_of_neg hfilter]

/-- An item of the handshake that arrives is the next one of the script. -/
theorem pipeline_handshake (h : Traffic mine theirs heard) (hi : i.ofHandshake) (hline : mine.line = i :: rest) :
    ({ mine with line := rest } : Half).pipeline = (script.take mine.stage.posted).drop (heard + 1) ∧
      heard < mine.stage.posted ∧ (heard = 0 ∧ i = .key ∨ heard = 1 ∧ i = .ack) := by
  apply script_next
  rw [← h.pipeline, Half.pipeline, Half.pipeline, hline, List.filter_cons_of_pos hi]
  rfl

/-! ### What the ends do by themselves -/

theorem arm (h : Traffic mine theirs heard) (sent : Option Bytes) : Traffic (mine.arm sent) theirs heard := by
  refine ⟨?_, h.le, h.unheard, h.both, ?_, h.agreed⟩
  · have hpipeline : (mine.arm sent).pipeline = mine.pipeline := by
      rw [Half.pipeline, Half.pipeline]
      cases sent with
      | none => simp [Half.arm]
      | some payload =>
        by_cases hs : mine.stage = .promoted <;>
          simp [Half.arm, Stage.wrap, hs, Parcel.ofHandshake, Parcel.payload]
    rw [hpipeline]
    exact h.pipeline
  · intro payload hp
    have hp' : .covered payload ∈ mine.line ++ (sent.map mine.stage.wrap).toList := hp
    rcases List.mem_append.1 hp' with hold | hnew
    · exact h.covered payload hold
    · obtain ⟨payload', -, hwrap⟩ := Option.map_eq_some_iff.1 (Option.mem_toList.1 hnew)
      unfold Stage.wrap at hwrap
      split at hwrap
      · assumption
      · cases hwrap

theorem collect (h : Traffic mine theirs heard) : Traffic mine.collect theirs heard := by
  refine ⟨?_, h.le, h.unheard, h.both, ?_, h.agreed⟩
  · have hpipeline : mine.collect.pipeline = mine.pipeline := by
      rw [Half.pipeline, Half.collect, List.filter_append, h.filter_outbox, List.append_nil]
      rfl
    rw [hpipeline]
    exact h.pipeline
  · intro payload hp
    have hp' : .covered payload ∈ mine.line ++ mine.outbox := hp
    rcases List.mem_append.1 hp' with hold | hnew
    · exact h.covered payload hold
    · rw [← h.filter_outbox] at hnew
      cases (List.mem_filter.1 hnew).2

theorem perform (h : Traffic mine theirs heard) (work : Deferred) :
    Traffic (mine.perform work) theirs heard := by
  by_cases hnew : mine.stage = .fresh ∧ work = .keyExchange
  · obtain ⟨hs, rfl⟩ := hnew
    have hle := h.le
    have hpipeline := h.pipeline
    rw [hs] at hle hpipeline
    obtain rfl : heard = 0 := Nat.le_zero.1 hle
    have hperform : mine.perform .keyExchange =
        { mine with stage := .offered, outbox := mine.outbox ++ [.key] } := by
      rw [Half.perform, hs]
      rfl
    rw [hperform]
    refine ⟨?_, Nat.zero_le _, h.unheard, h.both, fun payload hp => ?_, fun hs => by cases hs⟩
    · have happend : ({ mine with stage := .offered, outbox := mine.outbox ++ [.key] } : Half).pipeline =
          mine.pipeline ++ [.key] := (List.append_assoc _ _ _).symm
      rw [happend, hpipeline]
      rfl
    · have hpromoted := h.covered payload hp
      rw [hs] at hpromoted
      cases hpromoted
  · have hperform : mine.perform work = mine := by
      have hnone : mine.stage.perform work = (mine.stage, []) := by
        revert hnew
        cases mine.stage <;> cases work <;> simp [Stage.perform]
      rw [Half.perform, hnone, List.append_nil]
    rw [hperform]
    exact h

theorem perform_theirs (h : Traffic mine theirs heard) (work : Deferred) :
    Traffic mine (theirs.perform work) heard := by
  obtain ⟨hpipeline, hle, hunheard, hboth, hcovered, hagreed⟩ := h
  have hearly : (theirs.stage.perform work).1.early = theirs.stage.early := by
    cases theirs.stage <;> cases work <;> rfl
  have hpromoted : theirs.stage = .promoted → (theirs.stage.perform work).1 = .promoted := by
    intro hs
    rw [hs]
    cases work <;> rfl
  rw [← hearly] at hunheard hagreed
  exact ⟨hpipeline, hle, hunheard, fun hh => hpromoted (hboth hh), hcovered, hagreed⟩

/-! ### What the ends hear -/

/-- **Whatever arrives is understood**, and the traffic stays in order. -/
theorem understood (h : Traffic mine theirs heard) (hline : mine.line = i :: rest)
    (hback : theirs.stage = .promoted → ¬ mine.stage.early) :
    ∃ s reply, theirs.stage.hear i = some (s, reply) ∧ (s = .promoted → ¬ mine.stage.early) ∧
      ∃ heard', Traffic { mine with line := rest } (theirs.heed s reply) heard' := by
  have hcovered : ∀ payload, .covered payload ∈ rest → mine.stage = .promoted := fun payload hp =>
    h.covered payload (hline ▸ List.mem_cons_of_mem i hp)
  cases i with
  | plain payload =>
    refine ⟨theirs.stage, [], by cases theirs.stage <;> rfl, hback, heard, ?_⟩
    refine ⟨?_, h.le, h.unheard, h.both, hcovered, h.agreed⟩
    rw [pipeline_payload rfl hline]
    exact h.pipeline
  | covered payload =>
    have hmine := h.covered payload (hline ▸ List.mem_cons_self)
    have hlate := h.agreed hmine
    refine ⟨.promoted, [], ?_, fun _ => by rw [hmine]; exact Bool.false_ne_true, heard, ?_⟩
    · revert hlate
      cases theirs.stage <;> simp [Stage.hear, Stage.early]
    · refine ⟨?_, h.le, ?_, fun _ => rfl, hcovered, fun _ => Bool.false_ne_true⟩
      · rw [pipeline_payload rfl hline]
        exact h.pipeline
      · exact ⟨fun h0 => absurd (h.unheard.1 h0) hlate, fun hs => (by cases hs)⟩
  | key =>
    obtain ⟨hpipeline, hlt, ⟨rfl, -⟩ | ⟨-, hack⟩⟩ := h.pipeline_handshake rfl hline
    · have hearly := h.unheard.1 rfl
      have hmine : mine.stage ≠ .promoted := fun hs => h.agreed hs hearly
      obtain ⟨reply, hreply⟩ : ∃ reply, theirs.stage.hear .key = some (.bonded, reply) := by
        revert hearly
        cases theirs.stage <;> simp [Stage.hear, Stage.early]
      refine ⟨.bonded, reply, hreply, fun hs => (by cases hs), 1, ?_⟩
      exact ⟨hpipeline, hlt, ⟨fun h1 => (by cases h1), fun hs => (by cases hs)⟩,
        fun h1 => (by cases h1), hcovered, fun _ => Bool.false_ne_true⟩
    · cases hack
  | ack =>
    obtain ⟨hpipeline, hlt, ⟨-, hkey⟩ | ⟨rfl, -⟩⟩ := h.pipeline_handshake rfl hline
    · cases hkey
    · have hlate : ¬ theirs.stage.early := fun hs => by cases h.unheard.2 hs
      have hmine : ¬ mine.stage.early := by
        revert hlt
        cases mine.stage <;> simp [Stage.posted, Stage.early]
      refine ⟨.promoted, [], ?_, fun _ => hmine, 2, ?_⟩
      · revert hlate
        cases theirs.stage <;> simp [Stage.hear, Stage.early]
      · exact ⟨hpipeline, hlt, ⟨fun h2 => (by cases h2), fun hs => (by cases hs)⟩, fun _ => rfl, hcovered,
          fun _ => Bool.false_ne_true⟩

theorem heed (h : Traffic mine theirs heard) {s : Stage} {reply : List Parcel}
    (hs : mine.stage.hear i = some (s, reply)) (hagreed : s = .promoted → ¬ theirs.stage.early) :
    Traffic (mine.heed s reply) theirs heard := by
  obtain ⟨hscript, hle, hpromoted, -⟩ := script_hear hs
  refine ⟨?_, Nat.le_trans h.le hle, h.unheard, h.both,
    fun payload hp => hpromoted (h.covered payload hp), hagreed⟩
  have hlength : heard ≤ (script.take mine.stage.posted).length := by
    rw [length_script]
    exact h.le
  have happend : (mine.heed s reply).pipeline = mine.pipeline ++ reply := (List.append_assoc _ _ _).symm
  have hstage : (mine.heed s reply).stage = s := rfl
  rw [happend, h.pipeline, hstage, hscript, List.drop_append_of_le_length hlength]

end Traffic

/-! ### Runs of the handshake -/

variable {p p' : Handshake}

theorem stage_perform {h : Half} (work : Deferred) (hs : h.stage ≠ .fresh) :
    (h.perform work).stage ≠ .fresh := by
  show (h.stage.perform work).1 ≠ .fresh
  revert hs
  cases h.stage <;> cases work <;> simp [Stage.perform]

theorem stage_runDeferred {h : Half} (hs : h.stage ≠ .fresh ∨ .keyExchange ∈ h.jobs) :
    h.runDeferred.stage ≠ .fresh := by
  have hjobs : ∀ (jobs : List Deferred) (h : Half), (h.stage ≠ .fresh ∨ .keyExchange ∈ jobs) →
      (jobs.foldl Half.perform h).stage ≠ .fresh := by
    intro jobs
    induction jobs with
    | nil => exact fun h hs => hs.resolve_right List.not_mem_nil
    | cons work jobs ih =>
      intro h hs
      apply ih (h.perform work)
      rcases hs with hs | hs
      · exact Or.inl (stage_perform work hs)
      · rcases List.mem_cons.1 hs with rfl | hs
        · left
          show (h.stage.perform .keyExchange).1 ≠ .fresh
          cases h.stage <;> simp [Stage.perform]
        · exact Or.inr hs
  exact hjobs h.jobs { h with jobs := [] } hs

theorem runDeferred_keeps {P : Half → Prop} {h : Half} (hp : P { h with jobs := [] })
    (hstep : ∀ h work, P h → P (h.perform work)) : P h.runDeferred :=
  List.foldlRecOn h.jobs Half.perform hp fun h' hh work _ => hstep h' work hh

@[simp] theorem put_self (p : Handshake) (a : Side) (h : Half) : p.put a h a = h := by
  rw [put, Function.update_self]

@[simp] theorem put_other (p : Handshake) (a : Side) (h : Half) : p.put a h a.other = p a.other := by
  rw [put, Function.update_of_ne (Side.other_ne a)]

theorem Orderly.put (h : Orderly p) (a : Side) {x : Half} (hasked : Asked x)
    (hmine : ∀ heard, Traffic (p a) (p a.other) heard → Traffic x (p a.other) heard)
    (htheirs : ∀ heard, Traffic (p a.other) (p a) heard → Traffic (p a.other) x heard) :
    Orderly (p.put a x) := by
  refine ⟨?_, ?_⟩
  · intro b
    rcases Side.eq_or_eq_other a b with rfl | rfl
    · rw [put_self]
      exact hasked
    · rw [put_other]
      exact h.asked a.other
  · intro b
    rcases Side.eq_or_eq_other a b with rfl | rfl
    · obtain ⟨heard, ht⟩ := h.traffic b
      rw [put_self, put_other]
      exact ⟨heard, hmine heard ht⟩
    · obtain ⟨heard, ht⟩ := h.traffic a.other
      rw [Side.other_other] at ht ⊢
      rw [put_self, put_other]
      exact ⟨heard, htheirs heard ht⟩

theorem Orderly.payload_outbox (h : Orderly p) (a : Side) : ∀ i ∈ (p a).outbox, i.payload = none := by
  intro i hi
  obtain ⟨heard, ht⟩ := h.traffic a
  rw [← ht.filter_outbox] at hi
  exact Option.isNone_iff_eq_none.1 (List.mem_filter.1 hi).2

/-- The oldest item on its way to an end is understood there. -/
theorem Orderly.understood (h : Orderly p) (a : Side) {i : Parcel} {rest : List Parcel}
    (hline : (p a.other).line = i :: rest) : ∃ s reply, (p a).stage.hear i = some (s, reply) := by
  obtain ⟨heard, ht⟩ := h.traffic a.other
  obtain ⟨heard', ht'⟩ := h.traffic a
  rw [Side.other_other] at ht
  obtain ⟨s, reply, hs, -⟩ := ht.understood hline ht'.agreed
  exact ⟨s, reply, hs⟩

/-- **Whatever happens keeps the handshake in order.** -/
theorem Orderly.next (h : Orderly p) (hn : Next p p') : Orderly p' := by
  cases hn with
  | arm a sent =>
    refine h.put a ?_ (fun _ ht => ht.arm sent) fun _ ht => ht.stage_eq rfl
    intro _
    show (p a).stage ≠ .fresh ∨ .keyExchange ∈ (p a).jobs ++ (p a).stage.armJobs
    cases (p a).stage <;> simp [Stage.armJobs]
  | runDeferred a =>
    refine h.put a (fun harmed => Or.inl (stage_runDeferred ?_)) ?_ ?_
    · have hkeep : (p a).runDeferred.armed = (p a).armed :=
        runDeferred_keeps (P := fun x => x.armed = (p a).armed) rfl fun _ _ hx => hx
      rw [hkeep] at harmed
      exact h.asked a harmed
    · intro heard ht
      exact runDeferred_keeps (P := fun x => Traffic x (p a.other) heard)
        ⟨ht.pipeline, ht.le, ht.unheard, ht.both, ht.covered, ht.agreed⟩ fun _ work hx => hx.perform work
    · intro heard ht
      exact runDeferred_keeps (P := fun x => Traffic (p a.other) x heard) (ht.stage_eq rfl)
        fun _ work hx => hx.perform_theirs work
  | collect a => exact h.put a (h.asked a) (fun _ ht => ht.collect) fun _ ht => ht.stage_eq rfl
  | deliver a i rest s reply hi hs =>
    obtain ⟨heard, ht⟩ := h.traffic a.other
    obtain ⟨heard', ht'⟩ := h.traffic a
    rw [Side.other_other] at ht
    obtain ⟨s', reply', hs', hagreed, next, htraffic⟩ := ht.understood hi ht'.agreed
    rw [hs] at hs'
    cases hs'
    refine ⟨?_, ?_⟩
    · intro b
      rcases Side.eq_or_eq_other a b with rfl | rfl
      · rw [put_self]
        intro harmed
        rcases h.asked b harmed with hstage | hjob
        · exact Or.inl ((script_hear hs).2.2.2 hstage)
        · exact Or.inr (List.mem_append_left _ hjob)
      · rw [put_other, put_self]
        exact h.asked a.other
    · intro b
      rcases Side.eq_or_eq_other a b with rfl | rfl
      · rw [put_self, put_other, put_self]
        exact ⟨heard', (ht'.heed hs hagreed).stage_eq rfl⟩
      · rw [Side.other_other, put_self, put_other, put_self]
        exact ⟨next, htraffic⟩

theorem Next.armed (hn : Next p p') {a : Side} (ha : (p a).armed) : (p' a).armed := by
  have hput : ∀ (p : Handshake) (b : Side) (h : Half), (p a).armed → ((p b).armed → h.armed) →
      ((p.put b h) a).armed := by
    intro p b h hp hb
    rcases Side.eq_or_eq_other b a with rfl | rfl
    · rw [put_self]
      exact hb hp
    · rw [put_other]
      exact hp
  cases hn with
  | arm b sent => exact hput p b _ ha fun _ => rfl
  | runDeferred b =>
    apply hput p b _ ha
    intro hb
    exact runDeferred_keeps (P := fun h => h.armed) hb fun _ _ hh => hh
  | collect b => exact hput p b _ ha id
  | deliver b i rest s reply hi hs =>
    refine hput _ b _ (hput p b.other _ ha id) ?_
    intro hb
    have hother := put_other p b.other { p b.other with line := rest }
    rw [Side.other_other] at hother
    rw [hother] at hb
    exact hb

/-- Where nothing is left to do after somebody sent a payload, both ends have promoted the agreement. -/
theorem Orderly.promoted (h : Orderly p) (hquiet : ∀ a, (p a).jobs = [] ∧ (p a).outbox = [] ∧ (p a).line = [])
    (harmed : ∃ a, (p a).armed) (a : Side) : (p a).stage = .promoted := by
  -- All that was posted has been heard.
  have hheard : ∀ a, Traffic (p a) (p a.other) (p a).stage.posted := by
    intro a
    obtain ⟨heard, ht⟩ := h.traffic a
    have hpipeline := ht.pipeline
    rw [Half.pipeline, (hquiet a).2.1, (hquiet a).2.2] at hpipeline
    have hlength := congrArg List.length hpipeline
    rw [List.length_drop, length_script] at hlength
    have heq : heard = (p a).stage.posted := by
      have hle := ht.le
      simp at hlength
      omega
    rwa [← heq]
  have hlate : ∀ a, (p a).stage ≠ .fresh → ¬ (p a.other).stage.early := by
    intro a ha he
    have hposted := (hheard a).unheard.2 he
    revert ha hposted
    cases (p a).stage <;> simp [Stage.posted]
  have hboth : ∀ a, ¬ (p a).stage.early → (p a.other).stage = .promoted := by
    intro a ha
    apply (hheard a).both
    revert ha
    cases (p a).stage <;> simp [Stage.posted, Stage.early]
  obtain ⟨b, hb⟩ := harmed
  have hstage : (p b).stage ≠ .fresh := by
    apply (h.asked b hb).resolve_right
    rw [(hquiet b).1]
    exact List.not_mem_nil
  have hthis := hboth b.other (hlate b hstage)
  rw [Side.other_other] at hthis
  rcases Side.eq_or_eq_other b a with rfl | rfl
  · exact hthis
  · exact hboth b (by rw [hthis]; exact Bool.false_ne_true)

end Handshake

end Overlay
