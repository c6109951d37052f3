import Mathlib.Data.List.MinMax
import Overlay.Proofs.Engine.Retention
import Overlay.Proofs.Engine.Work

/-!
# The rate of key exchanges

A `Chronicle` follows an engine through a run and marks, for one peer, each key that is sent, each renewal, which
sends a key too, and each promotion of an agreement, with its moment.  The marks of one session are kept together;
where an operation about the peer finds no live session, those of another one begin.

In every run whose clock does not go back, the marks of every session are `Paced`: a key that is no renewal comes
more than a retry interval after every earlier key, and a renewal more than that after every earlier renewal and
promotion.  No window of one retry interval has more than two keys then (`Paced.window`).  An operation marks the keys
that it emits, no more and no less (`keyMoments_perform`).

The invariant is that the times that a session has noted cover the marks of its life so far (`Session.Covers`).
The pace of a turn says how both grow (`Session.Covers.pace`).
-/

namespace Overlay

inductive Milestone where
  /-- A key is sent, and not for a renewal. -/
  | exchange
  /-- A key is sent for a renewal. -/
  | renewal
  | promotion
deriving DecidableEq

structure Mark where
  moment : Nat
  kind : Milestone
deriving DecidableEq

/-- Marks in the order of their moments, with keys a retry interval apart. -/
structure Paced (interval : Nat) (life : List Mark) : Prop where
  exchange : life.Pairwise fun m m' =>
    m'.kind = .exchange → m.kind ≠ .promotion → m.moment + interval < m'.moment
  renewal : life.Pairwise fun m m' =>
    m'.kind = .renewal → m.kind ≠ .exchange → m.moment + interval < m'.moment

def keysWithin (first last : Nat) (life : List Mark) : List Mark :=
  life.filter fun m => m.kind ≠ .promotion ∧ first ≤ m.moment ∧ m.moment ≤ last

/-- **No window of one retry interval has three keys**: the second and the third would both be renewals, the
third too soon after the second. -/
theorem Paced.window {interval : Nat} {life : List Mark} (h : Paced interval life) (first : Nat) :
    (keysWithin first (first + interval) life).length ≤ 2 := by
  have hexchange := h.exchange.filter
    fun m => decide (m.kind ≠ .promotion ∧ first ≤ m.moment ∧ m.moment ≤ first + interval)
  have hrenewal := h.renewal.filter
    fun m => decide (m.kind ≠ .promotion ∧ first ≤ m.moment ∧ m.moment ≤ first + interval)
  have hwithin : ∀ m ∈ keysWithin first (first + interval) life,
      m.kind ≠ .promotion ∧ first ≤ m.moment ∧ m.moment ≤ first + interval :=
    fun m hm => of_decide_eq_true (List.mem_filter.1 hm).2
  change (keysWithin first (first + interval) life).Pairwise _ at hexchange hrenewal
  match hl : keysWithin first (first + interval) life with
  | [] | [_] | [_, _] => simp
  | m₁ :: m₂ :: m₃ :: rest =>
    rw [hl] at hexchange hrenewal hwithin
    obtain ⟨hfirst, -⟩ := List.pairwise_cons.1 hexchange
    obtain ⟨-, hrest⟩ := List.pairwise_cons.1 hrenewal
    obtain ⟨hsecond, -⟩ := List.pairwise_cons.1 hrest
    have hm₁ := hwithin m₁ (by simp)
    have hrenews : ∀ m ∈ m₂ :: m₃ :: rest, m.kind = .renewal := by
      intro m hm
      have hm' := hwithin m (List.mem_cons_of_mem m₁ hm)
      cases hk : m.kind with
      | exchange =>
        have hlate := hfirst m hm hk hm₁.1
        omega
      | renewal => rfl
      | promotion => exact absurd hk hm'.1
    have hm₂ := hwithin m₂ (by simp)
    have hm₃ := hwithin m₃ (by simp)
    have hne : m₂.kind ≠ .exchange := by
      rw [hrenews m₂ (by simp)]
      decide
    have hlate := hsecond m₃ (by simp) (hrenews m₃ (by simp)) hne
    omega

/-! ### One turn -/

namespace Session

variable {s s' : Session} {x : Context} {life : List Mark} {renews : Bool} {keys : List Seal}

/-- A session has noted a time as late as every key of its life, and one as late as every renewal and
promotion. -/
structure Covers (s : Session) (life : List Mark) : Prop where
  exchange : ∀ m ∈ life, m.kind ≠ .promotion → ∃ t, s.lastKeyExchangeAt = some t ∧ m.moment ≤ t
  renewal : ∀ m ∈ life, m.kind ≠ .exchange → ∃ t, s.lastRenewAttemptAt = some t ∧ m.moment ≤ t

def keyMarks (now : Nat) (renews : Bool) (keys : List Seal) : List Mark :=
  keys.map fun _ => ⟨now, if renews then .renewal else .exchange⟩

def promotionMarks (now : Nat) (promoted : Bool) : List Mark := if promoted then [⟨now, .promotion⟩] else []

theorem moment_marks {now : Nat} {promoted : Bool} {m : Mark}
    (hm : m ∈ keyMarks now renews keys ++ promotionMarks now promoted) : m.moment = now := by
  rcases List.mem_append.1 hm with hm | hm
  · obtain ⟨k, -, rfl⟩ := List.mem_map.1 hm
    rfl
  · cases promoted with
    | false => cases hm
    | true => rw [List.mem_singleton.1 hm]

theorem covers_nil (s : Session) : s.Covers [] :=
  ⟨fun _ h => absurd h List.not_mem_nil, fun _ h => absurd h List.not_mem_nil⟩

theorem paced_nil (interval : Nat) : Paced interval [] := ⟨.nil, .nil⟩

theorem paced_concat {interval : Nat} {m' : Mark} (h : Paced interval life)
    (hexchange : m'.kind = .exchange → ∀ m ∈ life, m.kind ≠ .promotion → m.moment + interval < m'.moment)
    (hrenewal : m'.kind = .renewal → ∀ m ∈ life, m.kind ≠ .exchange → m.moment + interval < m'.moment) :
    Paced interval (life ++ [m']) := by
  constructor
  · refine List.pairwise_append.2 ⟨h.exchange, List.pairwise_singleton _ _, ?_⟩
    intro m hm
    rw [List.forall_mem_singleton]
    exact fun hk => hexchange hk m hm
  · refine List.pairwise_append.2 ⟨h.renewal, List.pairwise_singleton _ _, ?_⟩
    intro m hm
    rw [List.forall_mem_singleton]
    exact fun hk => hrenewal hk m hm

/-- What is due comes more than the interval after all that the noted time covers. -/
theorem before_due {last : Option Nat} {now interval moment : Nat}
    (hdue : intervalElapsed last now interval = true) (h : ∃ t, last = some t ∧ moment ≤ t) :
    moment + interval < now := by
  obtain ⟨t, rfl, hle⟩ := h
  have hlt : interval < now - t := of_decide_eq_true hdue
  omega

theorem Covers.concat {m' : Mark} (h : s.Covers life) (hpast : ∀ m ∈ life, m.moment ≤ m'.moment)
    (hk : s'.lastKeyExchangeAt = if m'.kind = .promotion then s.lastKeyExchangeAt else some m'.moment)
    (hr : s'.lastRenewAttemptAt = if m'.kind = .exchange then s.lastRenewAttemptAt else some m'.moment) :
    s'.Covers (life ++ [m']) := by
  constructor
  · rw [List.forall_mem_append, List.forall_mem_singleton]
    by_cases hkind : m'.kind = .promotion
    · rw [if_pos hkind] at hk
      exact ⟨hk ▸ h.exchange, fun hne => absurd hkind hne⟩
    · rw [if_neg hkind] at hk
      exact ⟨fun m hm _ => ⟨m'.moment, hk, hpast m hm⟩, fun _ => ⟨m'.moment, hk, Nat.le_refl _⟩⟩
  · rw [List.forall_mem_append, List.forall_mem_singleton]
    by_cases hkind : m'.kind = .exchange
    · rw [if_pos hkind] at hr
      exact ⟨hr ▸ h.renewal, fun hne => absurd hkind hne⟩
    · rw [if_neg hkind] at hr
      exact ⟨fun m hm _ => ⟨m'.moment, hr, hpast m hm⟩, fun _ => ⟨m'.moment, hr, Nat.le_refl _⟩⟩

theorem Covers.renewed {now : Nat} (h : s.Covers life) (hpast : ∀ m ∈ life, m.moment ≤ now)
    (hk : s'.lastKeyExchangeAt = s.lastKeyExchangeAt) (hr : s'.lastRenewAttemptAt = some now) : s'.Covers life :=
  ⟨hk ▸ h.exchange, fun m hm _ => ⟨now, hr, hpast m hm⟩⟩

/-- **A turn keeps the marks paced**, and the session covers them. -/
theorem Covers.pace {promoted : Bool} (h : s.Covers life) (hpaced : Paced x.config.retryInterval.millis life)
    (hpast : ∀ m ∈ life, m.moment ≤ x.now) (hp : Pace x s s' renews keys)
    (hpromoted : promoted = true → s.inactive ≠ none ∧ s'.inactive = none) :
    Paced x.config.retryInterval.millis (life ++ (keyMarks x.now renews keys ++ promotionMarks x.now promoted)) ∧
      s'.Covers (life ++ (keyMarks x.now renews keys ++ promotionMarks x.now promoted)) := by
  have hkept : (s.inactive ≠ none → s'.inactive ≠ none) → promotionMarks x.now promoted = [] := by
    intro hi
    cases promoted with
    | false => rfl
    | true => exact absurd (hpromoted rfl).2 (hi (hpromoted rfl).1)
  cases hp with
  | rest _ hs =>
    rw [hkept hs.inactive, keyMarks, List.map_nil, List.append_nil, List.append_nil]
    exact ⟨hpaced, hs.exchange ▸ h.exchange, hs.renewal ▸ h.renewal⟩
  | exchange k hdue hk hr hi =>
    rw [hkept hi, keyMarks, List.map_singleton, List.append_nil]
    have hlate : ∀ m ∈ life, m.kind ≠ .promotion → m.moment + x.config.retryInterval.millis < x.now :=
      fun m hm hkind => before_due hdue (h.exchange m hm hkind)
    exact ⟨paced_concat hpaced (fun _ => hlate) nofun, h.concat hpast hk hr⟩
  | promotion hk hr =>
    rw [keyMarks, List.map_nil, List.nil_append]
    cases promoted with
    | false =>
      rw [promotionMarks, if_neg Bool.false_ne_true, List.append_nil]
      exact ⟨hpaced, h.renewed hpast hk hr⟩
    | true => exact ⟨paced_concat hpaced nofun nofun, h.concat hpast hk hr⟩
  | renewal k hdue hk hr hi =>
    rw [hkept hi, List.append_nil]
    cases k with
    | none =>
      rw [keyMarks, Option.toList_none, List.map_nil, List.append_nil]
      exact ⟨hpaced, h.renewed hpast hk hr⟩
    | some k =>
      have hlate : ∀ m ∈ life, m.kind ≠ .exchange → m.moment + x.config.retryInterval.millis < x.now :=
        fun m hm hkind => before_due hdue (h.renewal m hm hkind)
      exact ⟨paced_concat hpaced nofun fun _ => hlate, h.concat hpast hk hr⟩

end Session

/-! ### Chronicles -/

/-- The marks that an operation leaves in the session with a peer: the keys that it sends, and a promotion in a
session that was there before. -/
def Operation.marks (S : Suite) (now : Nat) (w : Endpoint) (p : PublicKey) (op : Operation) : List Mark :=
  Session.keyMarks now op.renews ((Seal.keys (op.workSeals S now w)).filter (·.recipient = p)) ++
    Session.promotionMarks now ((w.engine.session p now).isSome && (op.promoted S now w p).isSome)

/-- An engine in a run, with the marks of each session with a peer so far: those of the last one, and those of the
ones before it. -/
structure Chronicle where
  endpoint : Endpoint
  life : List Mark
  former : List (List Mark)

namespace Chronicle

open Endpoint Engine

variable {S : Suite} {now past : Nat} {p : PublicKey} {c : Chronicle} {interval : Nat} {op : Operation}

def lives (c : Chronicle) : List (List Mark) := c.life :: c.former

/-- Another session begins: the operation is about the peer, with whom there is no live session. -/
def Begins (now : Nat) (p : PublicKey) (c : Chronicle) (op : Operation) : Prop :=
  op.peers c.endpoint p ∧ c.endpoint.engine.session p now = none

instance (now : Nat) (p : PublicKey) (c : Chronicle) (op : Operation) : Decidable (c.Begins now p op) :=
  decidable_of_iff (op.peers c.endpoint p ∧ (c.endpoint.engine.session p now).isNone)
    (and_congr_right fun _ => Option.isNone_iff_eq_none)

def work (S : Suite) (now : Nat) (p : PublicKey) (c : Chronicle) (op : Operation) : Chronicle where
  endpoint := op.perform S now c.endpoint
  life := (if c.Begins now p op then [] else c.life) ++ op.marks S now c.endpoint p
  former := if c.Begins now p op then c.lives else c.former

def perform (S : Suite) (p : PublicKey) (c : Chronicle) (o : Nat × Operation) : Chronicle :=
  if o.2 = .runDeferred then
    c.endpoint.engine.deferred.foldl (fun c job => c.work S o.1 p (job.2.operation job.1))
      { c with endpoint := c.endpoint.cleared }
  else c.work S o.1 p o.2

def start (identity : KeyPair) (config : ArmConfig) (entropy : Entropy) : Chronicle :=
  ⟨.start identity config entropy, [], []⟩

def run (S : Suite) (p : PublicKey) (c : Chronicle) (ops : List (Nat × Operation)) : Chronicle :=
  ops.foldl (perform S p) c

theorem run_concat (S : Suite) (p : PublicKey) (c : Chronicle) (ops : List (Nat × Operation)) (o : Nat × Operation) :
    c.run S p (ops ++ [o]) = (c.run S p ops).perform S p o := by
  unfold run
  rw [List.foldl_append]
  rfl

theorem endpoint_jobs (S : Suite) (now : Nat) (p : PublicKey) (jobs : List (PublicKey × Deferred))
    (c : Chronicle) : (jobs.foldl (fun c job => c.work S now p (job.2.operation job.1)) c).endpoint =
      c.endpoint.run S (jobs.map fun job => (now, job.2.operation job.1)) := by
  induction jobs generalizing c with
  | nil => rfl
  | cons job jobs ih => exact ih (c.work S now p (job.2.operation job.1))

/-- A chronicle follows its engine. -/
theorem endpoint_run (S : Suite) (p : PublicKey) (c : Chronicle) (ops : List (Nat × Operation)) :
    (c.run S p ops).endpoint = c.endpoint.run S ops := by
  induction ops generalizing c with
  | nil => rfl
  | cons o ops ih =>
    have hone : (c.perform S p o).endpoint = o.2.perform S o.1 c.endpoint := by
      unfold perform
      split
      · rename_i hjobs
        rw [endpoint_jobs, hjobs, Operation.perform_runDeferred, afterJobs_run]
      · rfl
    show ((c.perform S p o).run S p ops).endpoint = (o.2.perform S o.1 c.endpoint).run S ops
    rw [ih, hone]

/-! ### All keys are marked -/

/-- The moments of the keys that were sent so far. -/
def keyMoments (c : Chronicle) : List Nat := (c.lives.flatten.filter (·.kind ≠ .promotion)).map (·.moment)

theorem keyMoments_marks (S : Suite) (now : Nat) (w : Endpoint) (p : PublicKey) (op : Operation) :
    ((op.marks S now w p).filter (·.kind ≠ .promotion)).map (·.moment) =
      ((Seal.keys (op.workSeals S now w)).filter (·.recipient = p)).map fun _ => now := by
  have hkeys : ∀ l : List Seal, (Session.keyMarks now op.renews l).filter (·.kind ≠ .promotion) =
      Session.keyMarks now op.renews l := by
    intro l
    refine List.filter_eq_self.2 fun m hm => ?_
    obtain ⟨k, -, rfl⟩ := List.mem_map.1 hm
    cases op.renews <;> rfl
  have hpromotion : ∀ b, (Session.promotionMarks now b).filter (·.kind ≠ .promotion) = [] := by
    intro b
    cases b <;> rfl
  rw [Operation.marks, List.filter_append, hkeys, hpromotion, List.append_nil, Session.keyMarks, List.map_map]
  rfl

/-- The marks of an operation are added to those of the last session, or are the first ones of another. -/
theorem lives_work (S : Suite) (now : Nat) (p : PublicKey) (c : Chronicle) (op : Operation) :
    (c.work S now p op).lives.flatten.Perm (c.lives.flatten ++ op.marks S now c.endpoint p) := by
  simp only [lives, work]
  split
  · exact List.perm_append_comm
  · rw [List.flatten_cons, List.flatten_cons, List.append_assoc, List.append_assoc]
    exact List.perm_append_comm.append_left _

theorem keyMoments_work (S : Suite) (now : Nat) (p : PublicKey) (c : Chronicle) (op : Operation) :
    (c.work S now p op).keyMoments.Perm (c.keyMoments ++
      ((Seal.keys (op.workSeals S now c.endpoint)).filter (·.recipient = p)).map fun _ => now) := by
  have hmarks := ((lives_work S now p c op).filter (·.kind ≠ .promotion)).map (·.moment)
  rw [List.filter_append, List.map_append, keyMoments_marks] at hmarks
  exact hmarks

theorem keyMoments_jobs (S : Suite) (now : Nat) (p : PublicKey) (jobs : List (PublicKey × Deferred))
    (c : Chronicle) : (jobs.foldl (fun c job => c.work S now p (job.2.operation job.1)) c).keyMoments.Perm
      (c.keyMoments ++
        ((Seal.keys (jobSeals S now jobs c.endpoint)).filter (·.recipient = p)).map fun _ => now) := by
  induction jobs generalizing c with
  | nil => exact .of_eq (List.append_nil _).symm
  | cons job jobs ih =>
    have hone := keyMoments_work S now p c (job.2.operation job.1)
    refine (ih (c.work S now p (job.2.operation job.1))).trans ((hone.append_right _).trans (.of_eq ?_))
    rw [List.append_assoc, ← List.map_append, ← List.filter_append, Seal.keys, Seal.keys, ← List.filter_append]
    rfl

/-- **An operation marks the keys that it encrypts for the peer**, each once, at its moment. -/
theorem keyMoments_perform (S : Suite) (p : PublicKey) (c : Chronicle) (o : Nat × Operation) :
    (c.perform S p o).keyMoments.Perm (c.keyMoments ++
      ((Seal.keys (o.2.seals S o.1 c.endpoint)).filter (·.recipient = p)).map fun _ => o.1) := by
  unfold perform Operation.seals
  split
  · exact keyMoments_jobs S o.1 p c.endpoint.engine.deferred { c with endpoint := c.endpoint.cleared }
  · exact keyMoments_work S o.1 p c o.2

/-! ### One operation -/

/-- The marks of every session are paced, those of the last one are not later than the given moment, and the session
covers them. -/
structure Sound (interval now : Nat) (p : PublicKey) (c : Chronicle) : Prop where
  sessions : c.endpoint.engine.sessions.Sound
  caches : ∀ q s, c.endpoint.engine.held q = some s → s.initialized.Sound
  retry : c.endpoint.engine.config.retryInterval.millis = interval
  paced : ∀ life ∈ c.lives, Paced interval life
  past : ∀ m ∈ c.life, m.moment ≤ now
  covers : ∀ s, c.endpoint.engine.held p = some s → s.Covers c.life

theorem Sound.later (h : c.Sound interval past p) (hnow : past ≤ now) : c.Sound interval now p :=
  { h with past := fun m hm => (h.past m hm).trans hnow }

theorem sound_start (identity : KeyPair) (config : ArmConfig) (entropy : Entropy) (now : Nat) (p : PublicKey) :
    (start identity config entropy).Sound config.retryInterval.millis now p where
  sessions := Endpoint.sound_start identity config entropy
  caches _ _ h := by cases h
  retry := rfl
  paced life h := by
    rw [List.mem_singleton.1 h]
    exact Session.paced_nil _
  past _ h := absurd h List.not_mem_nil
  covers _ h := by cases h

theorem sound_perform {w : Endpoint} (S : Suite) (now : Nat) (hw : w.engine.sessions.Sound)
    (hcaches : ∀ q s, w.engine.held q = some s → s.initialized.Sound) (op : Operation) :
    (op.perform S now w).engine.sessions.Sound ∧
      (∀ q s, (op.perform S now w).engine.held q = some s → s.initialized.Sound) ∧
      (op.perform S now w).engine.config = w.engine.config := by
  have hcourse := op.course S now hw
  exact ⟨hcourse.sound hw, hcourse.caches hw hcaches, hcourse.config⟩

theorem promoted_idle {w : Endpoint} (h : (op.perform S now w).engine.held p = w.engine.held p ∨
    (op.perform S now w).engine.held p = none) : op.promoted S now w p = none := by
  rw [Operation.promoted, Option.filter_eq_none_iff]
  intro id hid hgone
  rcases h with h | h
  · rw [h] at hgone
    obtain ⟨s, hs, hid⟩ := Option.bind_eq_some_iff.1 hid
    rw [hs, Option.any_some, decide_eq_true_iff] at hgone
    rw [Session.inactiveId, hgone] at hid
    cases hid
  · rw [h] at hgone
    cases hgone

theorem Sound.idle (h : c.Sound interval past p) (hnow : past ≤ now)
    (hheld : (op.perform S now c.endpoint).engine.held p = c.endpoint.engine.held p ∨
      (op.perform S now c.endpoint).engine.held p = none)
    (hseals : (op.workSeals S now c.endpoint).filter (·.recipient = p) = []) :
    (c.work S now p op).Sound interval now p := by
  obtain ⟨hsessions, hcaches, hconfig⟩ := sound_perform S now h.sessions h.caches op
  have hkeys : (Seal.keys (op.workSeals S now c.endpoint)).filter (·.recipient = p) = [] := by
    rw [Seal.keys, List.filter_filter]
    rw [List.filter_eq_nil_iff] at hseals ⊢
    intro k hk hboth
    rw [Bool.and_eq_true] at hboth
    exact hseals k hk hboth.1
  have hmarks : op.marks S now c.endpoint p = [] := by
    rw [Operation.marks, hkeys, promoted_idle hheld, Option.isSome_none, Bool.and_false]
    rfl
  refine ⟨hsessions, hcaches, hconfig ▸ h.retry, ?_, ?_, ?_⟩
  all_goals
    simp only [lives, work, hmarks, List.append_nil]
    split
  · exact List.forall_mem_cons.2 ⟨Session.paced_nil interval, h.paced⟩
  · exact h.paced
  · exact fun _ hm => absurd hm List.not_mem_nil
  · exact (h.later hnow).past
  · exact fun s _ => s.covers_nil
  · intro s hs
    rcases hheld with hsame | hnone
    · exact h.covers s (hsame ▸ hs)
    · rw [hnone] at hs
      cases hs

theorem Sound.found {s : Session} (h : c.Sound interval past p) (hnow : past ≤ now) (hpeer : op.peers c.endpoint p)
    (hfinds : c.endpoint.engine.Finds S now p s) {life : List Mark}
    (hlife : life = if c.Begins now p op then [] else c.life) :
    s.Covers life ∧ Paced interval life ∧ ∀ m ∈ life, m.moment ≤ now := by
  by_cases hb : c.Begins now p op
  · rw [if_pos hb] at hlife
    subst hlife
    exact ⟨s.covers_nil, Session.paced_nil _, fun _ hm => absurd hm List.not_mem_nil⟩
  · rw [if_neg hb] at hlife
    subst hlife
    refine ⟨?_, h.paced _ List.mem_cons_self, (h.later hnow).past⟩
    rcases hfinds with hlive | ⟨hnone, -⟩
    · exact h.covers s (held_live h.sessions hlive)
    · exact absurd ⟨hpeer, hnone⟩ hb

theorem promoted_found {w : Endpoint} {s s' : Session} (hw : w.engine.sessions.Sound)
    (hfinds : w.engine.Finds S now p s) (hheld : (op.perform S now w).engine.held p = some s')
    (hboth : ((w.engine.session p now).isSome && (op.promoted S now w p).isSome) = true) :
    s.inactive ≠ none ∧ s'.inactive = none := by
  rw [Bool.and_eq_true] at hboth
  rcases hfinds with hlive | ⟨hnone, -⟩
  · obtain ⟨id, hid⟩ := Option.isSome_iff_exists.1 hboth.2
    rw [Operation.promoted, held_live hw hlive, hheld, Option.bind_some, Option.filter_eq_some_iff] at hid
    refine ⟨?_, of_decide_eq_true hid.2⟩
    intro hnone
    rw [Session.inactiveId, hnone] at hid
    cases hid.1
  · rw [hnone] at hboth
    cases hboth.1

theorem Sound.turn {t : Turn} (h : c.Sound interval past p) (hnow : past ≤ now) (hjobs : op ≠ .runDeferred)
    (hpeer : op.peers c.endpoint p) (hfinds : c.endpoint.engine.Finds S now p t.session)
    (ht : t.session.initialized.Sound) (hheld : (op.perform S now c.endpoint).engine.held p =
      some (op.turn (c.endpoint.engine.context S now p) t).session)
    (hseals : op.workSeals S now c.endpoint = op.turnSeals (c.endpoint.engine.context S now p) t) :
    (c.work S now p op).Sound interval now p := by
  obtain ⟨hsessions, hcaches, hconfig⟩ := sound_perform S now h.sessions h.caches op
  -- all keys of the operation are for the peer
  have hkeys : (Seal.keys (op.workSeals S now c.endpoint)).filter (·.recipient = p) =
      Seal.keys (op.turnSeals (c.endpoint.engine.context S now p) t) := by
    rw [← hseals, List.filter_eq_self]
    intro k hk
    have hmem := (Operation.workSeals_cases _ (List.mem_filter.1 hk).1).2.1
    exact decide_eq_true (Operation.peers_unique hjobs hpeer hmem)
  generalize hlife : (if c.Begins now p op then [] else c.life) = life
  have hnew : (c.work S now p op).life = life ++ op.marks S now c.endpoint p :=
    congrArg (· ++ op.marks S now c.endpoint p) hlife
  obtain ⟨hcovers, hpaced, hpast⟩ := h.found hnow hpeer hfinds hlife.symm
  have hretry : (c.endpoint.engine.context S now p).config.retryInterval.millis = interval := h.retry
  have hpace := hcovers.pace (hretry ▸ hpaced) hpast
    (Operation.pace_turn ht (c.endpoint.engine.context S now p) op) (promoted_found h.sessions hfinds hheld)
  rw [hretry, ← hkeys] at hpace
  obtain ⟨hpaced', hcovers'⟩ := hpace
  refine ⟨hsessions, hcaches, hconfig ▸ h.retry, ?_, ?_, ?_⟩
  · refine List.forall_mem_cons.2 ⟨hnew ▸ hpaced', ?_⟩
    simp only [work]
    split
    · exact h.paced
    · exact fun l hl => h.paced l (List.mem_cons_of_mem _ hl)
  · rw [hnew]
    exact List.forall_mem_append.2 ⟨hpast, fun m hm => (Session.moment_marks hm).le⟩
  · intro s hs
    cases Option.some.inj (hs.symm.trans hheld)
    rw [hnew]
    exact hcovers'

/-- **An operation that does no jobs keeps a chronicle sound.** -/
theorem Sound.work (h : c.Sound interval past p) (hnow : past ≤ now) (hjobs : op ≠ .runDeferred) :
    (c.work S now p op).Sound interval now p := by
  by_cases hpeer : op.peers c.endpoint p
  swap
  · refine h.idle hnow (Operation.held_perform_other S now h.sessions hpeer) ?_
    refine List.filter_eq_nil_iff.2 ?_
    intro k hk hkp
    exact hpeer (of_decide_eq_true hkp ▸ (Operation.workSeals_cases _ hk).2.1)
  by_cases hdefer : ∃ work, op = .defer p work
  · obtain ⟨work, rfl⟩ := hdefer
    exact h.idle hnow (Or.inl rfl) rfl
  have hturn : ∀ (e : Engine) (s : Session), c.endpoint.engine.Finds S now p s →
      e.held p = some s → e.sessions.Sound →
      (op.perform S now c.endpoint).engine = e.absorb p (op.turn (c.endpoint.engine.context S now p)
        { session := s, entropy := c.endpoint.entropy }) →
      op.workSeals S now c.endpoint =
        op.turnSeals (c.endpoint.engine.context S now p) { session := s, entropy := c.endpoint.entropy } →
      (c.work S now p op).Sound interval now p := by
    intro e s hfinds hheld hsound hafter hseals
    refine h.turn hnow hjobs hpeer hfinds ?_ ?_ hseals
    · rcases hfinds with hlive | ⟨-, hfresh⟩
      · exact h.caches p s (held_live h.sessions hlive)
      · obtain ⟨b, -, rfl⟩ := freshSession_ok hfresh
        exact Cache.sound_empty _ _ _
    · rw [hafter, held_absorb hsound hheld, if_pos rfl]
  have houtcome := Operation.outcome S now h.sessions hpeer hjobs fun work hw => hdefer ⟨work, hw⟩
  generalize hafter : op.perform S now c.endpoint = w' at houtcome
  cases houtcome with
  | idle e hlooked hidle hseals =>
    refine h.idle hnow ?_ (by rw [hseals]; rfl)
    rw [hafter]
    rcases hidle with rfl | ⟨-, hnone⟩
    · exact Or.inl rfl
    · exact Or.inr hnone
  | turn e s hlooked hfinds hlive hseals =>
    exact hturn e s hfinds (held_live hlooked.sound hlive) hlooked.sound (by rw [hafter]; rfl) hseals

theorem Sound.jobs (h : c.Sound interval now p) (jobs : List (PublicKey × Deferred)) :
    (jobs.foldl (fun c job => c.work S now p (job.2.operation job.1)) c).Sound interval now p :=
  List.foldlRecOn jobs _ h fun _ hc job _ => hc.work (Nat.le_refl now) (job.2.operation_ne_runDeferred job.1)

theorem Sound.perform {o : Nat × Operation} (h : c.Sound interval past p) (hnow : past ≤ o.1) :
    (c.perform S p o).Sound interval o.1 p := by
  unfold Chronicle.perform
  split
  · have hcleared : Sound interval o.1 p { c with endpoint := c.endpoint.cleared } :=
      ⟨h.sessions, h.caches, h.retry, h.paced, (h.later hnow).past, h.covers⟩
    exact hcleared.jobs c.endpoint.engine.deferred
  · rename_i hjobs
    exact h.work hnow hjobs

/-- The marks of every session of a run are paced. -/
theorem sound_run (identity : KeyPair) (config : ArmConfig) (entropy : Entropy) (ops : List (Nat × Operation))
    (hclock : (ops.map Prod.fst).Pairwise (· ≤ ·)) (p : PublicKey) : ∀ now, (∀ o ∈ ops, o.1 ≤ now) →
      ((start identity config entropy).run S p ops).Sound config.retryInterval.millis now p := by
  induction ops using List.reverseRecOn with
  | nil => exact fun now _ => sound_start identity config entropy now p
  | append_singleton ops o ih =>
    intro now hnow
    rw [List.map_append, List.pairwise_append] at hclock
    have hbefore := ih hclock.1 o.1 fun o' ho' =>
      hclock.2.2 o'.1 (List.mem_map_of_mem ho') o.1 (List.mem_singleton_self _)
    rw [run_concat]
    exact (hbefore.perform (Nat.le_refl o.1)).later (hnow o (by simp))

end Chronicle

/-- **Keys are not exchanged too often.**  In every run of an engine whose clock does not go back, whatever is asked
of it, and for every session with a peer: a key that is sent for no renewal comes more than the retry interval after
every earlier key of that session, and a renewal more than the retry interval after every earlier renewal and
promotion; so at most two keys are sent in any window of one retry interval.  What an operation adds to the keys that
are counted are those for the peer among the messages that it emits. -/
theorem keys_limited (S : Suite) (identity : KeyPair) (config : ArmConfig) (entropy : Entropy)
    (ops : List (Nat × Operation)) (hclock : (ops.map Prod.fst).Pairwise (· ≤ ·)) (p : PublicKey) :
    (∀ life ∈ ((Chronicle.start identity config entropy).run S p ops).lives,
      Paced config.retryInterval.millis life ∧
        ∀ first, (keysWithin first (first + config.retryInterval.millis) life).length ≤ 2) ∧
    ∀ before o, ∃ l, o.2.Emits S o.1 ((Endpoint.start identity config entropy).run S before) l ∧
      ((Chronicle.start identity config entropy).run S p (before ++ [o])).keyMoments.Perm
        (((Chronicle.start identity config entropy).run S p before).keyMoments ++
          ((Seal.keys l).filter (·.recipient = p)).map fun _ => o.1) := by
  have hlast : ∀ o ∈ ops, o.1 ≤ (ops.map Prod.fst).foldr max 0 :=
    fun o ho => List.le_max_of_le' 0 (List.mem_map_of_mem ho) (Nat.le_refl _)
  have hsound := Chronicle.sound_run (S := S) identity config entropy ops hclock p _ hlast
  constructor
  · intro life hlife
    exact ⟨hsound.paced life hlife, (hsound.paced life hlife).window⟩
  · intro before o
    have hmarks := Chronicle.keyMoments_perform S p ((Chronicle.start identity config entropy).run S p before) o
    rw [← Chronicle.run_concat, Chronicle.endpoint_run] at hmarks
    exact ⟨_, Operation.emits_seals S o.1 _ o.2, hmarks⟩

/-- The newcomer answers its partner's key, promotes their agreement and renews it.  The first exchange after that
comes too soon, the second one does not. -/
theorem keys_limited_acquaintance :
    let partner := Endpoint.partner
    let newcomer := Endpoint.newcomer
    let ops := Endpoint.acquaintance ++ [(200000, .checkForRenew partner), (205000, .doKeyExchange partner),
      (210001, .doKeyExchange partner)]
    let lives := ((Chronicle.start newcomer.engine.identity {} newcomer.entropy).run Textbook.suite partner
      ops).lives
    (ops.map Prod.fst).Pairwise (· ≤ ·) ∧
      lives = [[⟨1, .exchange⟩, ⟨2, .promotion⟩, ⟨200000, .renewal⟩, ⟨210001, .exchange⟩], []] ∧
      ∀ life ∈ lives, Paced 10000 life ∧ ∀ first, (keysWithin first (first + 10000) life).length ≤ 2 :=
  ⟨by decide, by decide +kernel, (keys_limited _ _ {} _ _ (by decide) _).1⟩

end Overlay
