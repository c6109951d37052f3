import Overlay.Proofs.Cache.Settled
import Overlay.Proofs.Engine.Known
import Overlay.Proofs.Session.Opening

/-!
# Sessions through a run

Where the session with a peer is live, an operation about that peer is a turn of that very session
(`converse_live`, `session_perform`), and any other operation leaves the session alone or drops it
(`held_perform_other`).  `runDeferred` does its jobs one after the other, and each job is an operation
(`afterJobs_run`); so a property of the single operations of a run, those jobs included (`Throughout`), is
enough to carry an invariant through the run (`Throughout.keeps`).  Where an invariant is lost for good with the first
operation of some kind, it tells at the end of the run whether there was one (`Throughout.decides`).

Every session of a run keeps its agreements in a sound cache with the bounds that the settings give
(`furnished_run`).
-/

namespace Overlay

/-! ### A live session -/

namespace Engine

variable {S : Suite} {e : Engine} {now : Nat} {p : PublicKey} {s : Session}

theorem held_live (hw : e.sessions.Sound) (hs : e.session p now = some s) : e.held p = some s := by
  rw [session, Cache.peek_stored hw] at hs
  obtain ⟨i, hi, hv⟩ := Option.bind_eq_some_iff.1 hs
  split at hv
  · cases hv
  · rw [held, hi]
    exact hv

theorem resolve_live (S : Suite) (hw : e.sessions.Sound) (hs : e.session p now = some s) :
    e.resolve S now p = (.ok s, e.withSessions (e.sessions.get p now).2) := by
  have hc : e.sessions.contains p now = true := congrArg Option.isSome hs
  have hg := (Cache.get_fst hw p now).trans hs
  rw [resolve, ensureSession, if_pos hc]
  simp only
  cases hr : e.sessions.get p now with
  | mk found sessions =>
    rw [hr] at hg
    cases hg
    rfl

theorem converse_live {α : Type} (hw : e.sessions.Sound) (hs : e.session p now = some s)
    (work : Context → Turn → Except ArmError α × Turn) (r : Entropy) :
    e.converse S now p work r =
      ((work (e.context S now p) { session := s, entropy := r }).1,
        (e.withSessions (e.sessions.get p now).2).absorb p
          (work (e.context S now p) { session := s, entropy := r }).2,
        (work (e.context S now p) { session := s, entropy := r }).2.entropy) := by
  rw [converse, resolve_live S hw hs]
  rfl

/-- After a turn of a live session, the session is that of the turn, and it is live. -/
theorem live_absorb (hw : e.sessions.Sound) (hs : e.session p now = some s) (t : Turn) :
    (e.absorb p t).session p now = some t.session := by
  show (e.sessions.modify p fun _ => t.session).peek p now = _
  rw [Cache.peek_modify hw, show e.sessions.peek p now = some s from hs]
  rfl

theorem session_absorb (hw : e.sessions.Sound) (hs : e.session p now = some s) (t : Turn) :
    ((e.withSessions (e.sessions.get p now).2).absorb p t).session p now = some t.session :=
  live_absorb (e := e.withSessions (e.sessions.get p now).2) (hw.get p now) (Cache.settled_get hw hs).peek t

/-- A session that was just found is found again, and nothing changes. -/
theorem resolve_settled (S : Suite) (h : e.sessions.Settled p now s) : e.resolve S now p = (.ok s, e) := by
  have hc : e.sessions.contains p now = true := congrArg Option.isSome h.peek
  rw [resolve, ensureSession, if_pos hc]
  simp only [h.get]

end Engine

theorem Endpoint.settled_resolve {S : Suite} {now : Nat} {p : PublicKey} {w : Endpoint} {s : Session}
    (hw : w.engine.sessions.Sound) (hs : (w.engine.resolve S now p).1 = .ok s) :
    (w.engine.resolve S now p).2.sessions.Settled p now s := by
  cases hensure : (w.engine.ensureSession S now p).1 with
  | error err =>
    rw [resolve_unensured hensure] at hs
    cases hs
  | ok u =>
    rw [resolve_ensured hw hensure] at hs ⊢
    refine Cache.settled_get (sound_ensureSession S now p hw) ?_
    cases hlive : (w.engine.ensureSession S now p).2.session p now with
    | none =>
      rw [hlive] at hs
      cases hs
    | some s' =>
      rw [hlive] at hs
      cases hs
      exact hlive

/-! ### One operation -/

namespace Endpoint

open Engine

variable {S : Suite} {now : Nat} {sc : Scope} {w w' : Endpoint} {p : PublicKey} {s : Session}

theorem Steps.held_other (hs : Steps S now sc w w') (hw : w.engine.sessions.Sound) (hp : ¬ sc.peers p) :
    w'.engine.held p = w.engine.held p ∨ w'.engine.held p = none := by
  refine hs.keeps (P := fun v => v.engine.held p = w.engine.held p ∨ v.engine.held p = none) hw ?_
    (Or.inl rfl)
  intro v v' hv hstep hheld
  have hsame : v'.engine.held p = v.engine.held p ∨ v'.engine.held p = none := by
    cases hstep with
    | settle c events hc hb hf =>
      have hfate := hf p
      generalize hnew : (c.stored p).map (·.value) = new at hfate
      generalize hold : v.engine.held p = old at hfate
      generalize events.filter (fun e => e.peer = some p) = told at hfate
      show (c.stored p).map (·.value) = old ∨ (c.stored p).map (·.value) = none
      rw [hnew]
      cases hfate with
      | keep => exact Or.inl rfl
      | drop s => exact Or.inr rfl
      | start s hq hs => exact absurd hq hp
    | lapse c q i hc hb hi hstored hl =>
      have hnew := hstored p
      show (c.stored p).map (·.value) = _ ∨ (c.stored p).map (·.value) = none
      rw [hnew]
      split
      · exact Or.inr rfl
      · exact Or.inl rfl
    | turn q s t hpeer hq hm =>
      have hne : p ≠ q := fun h => hp (h ▸ hpeer)
      exact Or.inl ((held_absorb hv hq p).trans (if_neg hne))
    | queue deferred outbox hd ho => exact Or.inl rfl
    | handOut => exact Or.inl rfl
  rcases hsame with hsame | hnone
  · rw [hsame]
    exact hheld
  · exact Or.inr hnone

end Endpoint

namespace Operation

open Endpoint Engine

variable {S : Suite} {now : Nat} {w : Endpoint} {p : PublicKey} {s : Session}

def turn (x : Context) (t : Turn) : Operation → Turn
  | armOutbound _ payload => (t.armOutbound x payload).2
  | disarmInbound _ m => (t.disarmInbound x m).2
  | doKeyExchange _ => (t.doKeyExchange x).2
  | receivedKeyExchange _ key => (t.receivedKeyExchange x key).2
  | sendAck _ => (t.sendAck x).2
  | receivedAck _ id => (t.promote x id).2
  | checkForRenew _ => (t.checkForRenew x).2
  | defer _ _ | runDeferred | evictIdleSessions | drainOutbox | drainEvents => t

/-- Most operations negotiate at most; the other three are a message, an acknowledgement and a check for
renewal. -/
theorem turn_cases (x : Context) (t : Turn) (op : Operation) :
    t.session.Negotiated (op.turn x t).session ∨ (∃ peer m, op = .disarmInbound peer m) ∨
      (∃ peer id, op = .receivedAck peer id) ∨ ∃ peer, op = .checkForRenew peer := by
  cases op with
  | armOutbound peer payload =>
    left
    show t.session.Negotiated (t.armOutbound x payload).2.session
    rw [Turn.session_armOutbound]
    exact .refl _
  | disarmInbound peer m => exact Or.inr (Or.inl ⟨peer, m, rfl⟩)
  | doKeyExchange peer => exact Or.inl (Turn.negotiated_doKeyExchange x t)
  | receivedKeyExchange peer key => exact Or.inl (Turn.negotiated_receivedKeyExchange x key t)
  | sendAck peer =>
    left
    show t.session.Negotiated (t.sendAck x).2.session
    rw [Turn.session_sendAck]
    exact .refl _
  | receivedAck peer id => exact Or.inr (Or.inr (Or.inl ⟨peer, id, rfl⟩))
  | checkForRenew peer => exact Or.inr (Or.inr (Or.inr ⟨peer, rfl⟩))
  | _ => exact Or.inl (.refl _)

/-- An operation about a peer with whom there is a live session is a turn of that session. -/
theorem session_perform (hw : w.engine.sessions.Sound) (hfs : w.engine.config.forwardSecrecy = true)
    {op : Operation} (hop : op ≠ .runDeferred) (hpeer : op.peers w p)
    (hs : w.engine.session p now = some s) :
    (op.perform S now w).engine.session p now =
      some (op.turn (w.engine.context S now p) { session := s, entropy := w.entropy }).session := by
  have hconverse : ∀ {α : Type} (work : Context → Turn → Except ArmError α × Turn),
      (w.engine.converse S now p work w.entropy).2.1.session p now =
        some (work (w.engine.context S now p) { session := s, entropy := w.entropy }).2.session := by
    intro α work
    rw [converse_live hw hs]
    exact session_absorb hw hs _
  cases op with
  | armOutbound peer payload =>
    cases hpeer
    exact hconverse fun x t => t.armOutbound x payload
  | disarmInbound peer m =>
    cases hpeer
    exact hconverse fun x t => t.disarmInbound x m
  | doKeyExchange peer =>
    cases hpeer
    simp only [perform, Engine.doKeyExchange, hfs, if_true]
    exact hconverse fun x t => t.doKeyExchange x
  | receivedKeyExchange peer key =>
    cases hpeer
    simp only [perform, Engine.receivedKeyExchange, turn]
    by_cases hkey : key = p
    · rw [if_pos hkey, Turn.receivedKeyExchange, if_pos (show key = (w.engine.context S now p).peer from hkey)]
      exact hs
    · rw [if_neg hkey]
      exact hconverse fun x t => t.receivedKeyExchange x key
  | sendAck peer =>
    cases hpeer
    exact hconverse fun x t => t.sendAck x
  | receivedAck peer id =>
    cases hpeer
    exact hconverse fun x t => ((.ok (t.promote x id).1 : Except ArmError Bool), (t.promote x id).2)
  | checkForRenew peer =>
    cases hpeer
    have hg := (Cache.get_fst hw p now).trans hs
    have hab := session_absorb hw hs
      (Turn.checkForRenew (w.engine.context S now p) { session := s, entropy := w.entropy }).2
    simp only [perform, Engine.checkForRenew, hfs, if_true, turn]
    cases hr : w.engine.sessions.get p now with
    | mk found sessions =>
      rw [hr] at hg hab
      cases hg
      exact hab
  | defer peer work => exact hs
  | runDeferred => exact absurd rfl hop
  | evictIdleSessions => cases hpeer
  | drainOutbox => cases hpeer
  | drainEvents => cases hpeer

/-- An operation about other peers leaves a session alone, or drops it. -/
theorem held_perform_other (S : Suite) (now : Nat) (hw : w.engine.sessions.Sound) {op : Operation}
    (hpeer : ¬ op.peers w p) :
    (op.perform S now w).engine.held p = w.engine.held p ∨
      (op.perform S now w).engine.held p = none := by
  obtain ⟨v, hs, hc⟩ := op.course S now hw
  rw [held, hc.sessions]
  exact hs.held_other hw hpeer

end Operation

/-! ### Jobs -/

def Deferred.operation (peer : PublicKey) : Deferred → Operation
  | checkRenewal => .checkForRenew peer
  | keyExchange => .doKeyExchange peer

theorem Deferred.operation_ne_runDeferred (peer : PublicKey) (work : Deferred) :
    work.operation peer ≠ .runDeferred := by
  intro h
  cases work <;> cases h

namespace Endpoint

open Engine

variable {S : Suite} {now : Nat} {w : Endpoint} {ops : List (Nat × Operation)}

def cleared (w : Endpoint) : Endpoint := w.withEngine { w.engine with deferred := [] }

theorem perform_job (S : Suite) (now : Nat) (w : Endpoint) (job : PublicKey × Deferred) :
    w.after (Engine.perform S now (w.engine, w.entropy) job) =
      (job.2.operation job.1).perform S now w := by
  obtain ⟨peer, work⟩ := job
  cases work <;> rfl

theorem afterJobs_run (S : Suite) (now : Nat) (w : Endpoint) (jobs : List (PublicKey × Deferred)) :
    w.afterJobs S now jobs = w.cleared.run S (jobs.map fun job => (now, job.2.operation job.1)) := by
  induction jobs using List.reverseRecOn with
  | nil => rfl
  | append_singleton jobs job ih =>
    rw [afterJobs_concat, perform_job, ih, List.map_append, List.map_singleton, run_concat]

theorem sound_afterJobs (hw : w.engine.sessions.Sound) (jobs : List (PublicKey × Deferred)) :
    (w.afterJobs S now jobs).engine.sessions.Sound := by
  rw [afterJobs_run]
  exact sound_run (w := w.cleared) hw _

theorem keeps_afterJobs {I : Endpoint → Prop} (hI : I w.cleared) (jobs : List (PublicKey × Deferred))
    (hjob : ∀ l₁ job l₂, jobs = l₁ ++ job :: l₂ → I (w.afterJobs S now l₁) →
      I ((job.2.operation job.1).perform S now (w.afterJobs S now l₁))) :
    I (w.afterJobs S now jobs) := by
  induction jobs using List.reverseRecOn with
  | nil => exact hI
  | append_singleton jobs job ih =>
    rw [afterJobs_concat, perform_job]
    apply hjob jobs job [] rfl
    apply ih
    intro l₁ job' l₂ hl
    exact hjob l₁ job' (l₂ ++ [job]) (by rw [hl, List.append_assoc]; rfl)

end Endpoint

/-- The single operations that an operation is made of, each with the endpoint that it finds: the operation
itself, or the jobs that it does. -/
inductive Operation.Part (S : Suite) (now : Nat) (w : Endpoint) :
    Operation → Endpoint → Operation → Prop where
  | whole (op : Operation) (h : op ≠ .runDeferred) : Part S now w op w op
  | job (l₁ : List (PublicKey × Deferred)) (job : PublicKey × Deferred)
      (l₂ : List (PublicKey × Deferred)) (h : w.engine.deferred = l₁ ++ job :: l₂) :
      Part S now w .runDeferred (w.afterJobs S now l₁) (job.2.operation job.1)

namespace Endpoint

open Engine

variable {S : Suite} {now : Nat} {w : Endpoint} {ops : List (Nat × Operation)}

/-- A property of every single operation of a run, of its moment and of the endpoint that it finds. -/
def Throughout (S : Suite) (w : Endpoint) (ops : List (Nat × Operation))
    (P : Nat → Endpoint → Operation → Prop) : Prop :=
  match ops with
  | [] => True
  | (now, op) :: rest =>
    (∀ v part, op.Part S now w v part → P now v part) ∧ (op.perform S now w).Throughout S rest P

variable {P : Nat → Endpoint → Operation → Prop}

theorem run_append (S : Suite) (w : Endpoint) (ops later : List (Nat × Operation)) :
    w.run S (ops ++ later) = (w.run S ops).run S later := List.foldl_append

theorem drawn_mono (S : Suite) (hw : w.engine.sessions.Sound) {past ops : List (Nat × Operation)} (h : past <+: ops) :
    (w.run S past).entropy.secretsDrawn ≤ (w.run S ops).entropy.secretsDrawn := by
  obtain ⟨rest, rfl⟩ := h
  rw [run_append]
  exact (entropy_run (sound_run hw past) rest).2

theorem throughout_append {later : List (Nat × Operation)} :
    w.Throughout S (ops ++ later) P ↔ w.Throughout S ops P ∧ (w.run S ops).Throughout S later P := by
  induction ops generalizing w with
  | nil => exact ⟨fun h => ⟨trivial, h⟩, fun h => h.2⟩
  | cons o ops ih => exact (and_congr_right fun _ => ih).trans and_assoc.symm

theorem Throughout.mono {Q : Nat → Endpoint → Operation → Prop} (h : w.Throughout S ops P)
    (himp : ∀ o ∈ ops, ∀ v part, P o.1 v part → Q o.1 v part) : w.Throughout S ops Q := by
  induction ops generalizing w with
  | nil => trivial
  | cons o ops ih =>
    exact ⟨fun v part hpart => himp o List.mem_cons_self v part (h.1 v part hpart),
      ih h.2 fun o ho => himp o (List.mem_cons_of_mem _ ho)⟩

theorem Throughout.and {Q : Nat → Endpoint → Operation → Prop} (h : w.Throughout S ops P)
    (g : w.Throughout S ops Q) : w.Throughout S ops fun now v part => P now v part ∧ Q now v part := by
  induction ops generalizing w with
  | nil => trivial
  | cons o ops ih => exact ⟨fun v part hpart => ⟨h.1 v part hpart, g.1 v part hpart⟩, ih h.2 g.2⟩

theorem forall_part {op : Operation} : (∀ v part, op.Part S now w v part → P now v part) ↔
    (op ≠ .runDeferred → P now w op) ∧ (op = .runDeferred → ∀ k, (hk : k < w.engine.deferred.length) →
      P now (w.afterJobs S now (w.engine.deferred.take k))
        ((w.engine.deferred[k].2).operation (w.engine.deferred[k].1))) := by
  constructor
  · intro h
    refine ⟨fun hop => h w op (.whole op hop), ?_⟩
    rintro rfl k hk
    apply h
    refine .job _ _ (w.engine.deferred.drop (k + 1)) ?_
    rw [List.getElem_cons_drop, List.take_append_drop]
  · rintro ⟨hwhole, hjobs⟩ v part hpart
    cases hpart with
    | whole op hop => exact hwhole hop
    | job l₁ job l₂ h =>
      have hk : l₁.length < w.engine.deferred.length := by simp [h]
      have hjob := hjobs rfl l₁.length hk
      simpa [h] using hjob

instance decidableThroughout [∀ now v part, Decidable (P now v part)] :
    (ops : List (Nat × Operation)) → (w : Endpoint) → Decidable (w.Throughout S ops P)
  | [], _ => .isTrue trivial
  | (now, op) :: rest, w =>
    @instDecidableAnd _ _ (decidable_of_iff _ forall_part.symm)
      (decidableThroughout rest (op.perform S now w))

/-- **An invariant of the single operations is an invariant of a run.** -/
theorem Throughout.keeps {I : Endpoint → Prop} (h : w.Throughout S ops P)
    (hw : w.engine.sessions.Sound) (hclear : ∀ v : Endpoint, I v → I v.cleared)
    (hstep : ∀ now (v : Endpoint) op, v.engine.sessions.Sound → op ≠ .runDeferred → P now v op → I v →
      I (op.perform S now v)) (hI : I w) : I (w.run S ops) := by
  induction ops generalizing w with
  | nil => exact hI
  | cons o ops ih =>
    obtain ⟨now, op⟩ := o
    refine ih h.2 ((op.course S now hw).sound hw) ?_
    show I (op.perform S now w)
    by_cases hop : op = .runDeferred
    · subst hop
      rw [Operation.perform_runDeferred]
      refine keeps_afterJobs (hclear w hI) _ ?_
      intro l₁ job l₂ hl hI
      exact hstep now _ _ (sound_afterJobs hw l₁) (job.2.operation_ne_runDeferred job.1)
        (h.1 _ _ (.job l₁ job l₂ hl)) hI
    · exact hstep now w op hw hop (h.1 w op (.whole op hop)) hI

/-- What jobs keep while none of them is of a kind, is lost for good with the first one that is. -/
theorem decides_afterJobs {Q : Nat → Endpoint → Operation → Prop} {A B : Endpoint → Prop}
    (hclear : A w.cleared) (hw : w.engine.sessions.Sound)
    (hkeep : ∀ (v : Endpoint) op, v.engine.sessions.Sound → op ≠ .runDeferred → P now v op → ¬ Q now v op →
      A v → A (op.perform S now v))
    (hlose : ∀ (v : Endpoint) op, v.engine.sessions.Sound → op ≠ .runDeferred → P now v op → Q now v op →
      A v → B (op.perform S now v))
    (hlost : ∀ (v : Endpoint) op, v.engine.sessions.Sound → op ≠ .runDeferred → P now v op →
      B v → B (op.perform S now v))
    (jobs : List (PublicKey × Deferred))
    (hP : ∀ l₁ job l₂, jobs = l₁ ++ job :: l₂ → P now (w.afterJobs S now l₁) (job.2.operation job.1)) :
    ((∀ l₁ job l₂, jobs = l₁ ++ job :: l₂ → ¬ Q now (w.afterJobs S now l₁) (job.2.operation job.1)) ∧
      A (w.afterJobs S now jobs)) ∨
    ((∃ l₁ job l₂, jobs = l₁ ++ job :: l₂ ∧ Q now (w.afterJobs S now l₁) (job.2.operation job.1)) ∧
      B (w.afterJobs S now jobs)) := by
  induction jobs using List.reverseRecOn with
  | nil =>
    refine Or.inl ⟨fun l₁ job l₂ h => ?_, hclear⟩
    cases l₁ <;> cases h
  | append_singleton jobs job ih =>
    have hsound : (w.afterJobs S now jobs).engine.sessions.Sound := sound_afterJobs hw jobs
    have hrun := job.2.operation_ne_runDeferred job.1
    have hjob := hP jobs job [] rfl
    rw [afterJobs_concat, perform_job]
    rcases ih fun l₁ job' l₂ h => hP l₁ job' (l₂ ++ [job]) (by rw [h, List.append_assoc]; rfl) with
      ⟨hnone, hA⟩ | ⟨⟨l₁, job', l₂, h, hQ⟩, hB⟩
    · by_cases hQ : Q now (w.afterJobs S now jobs) (job.2.operation job.1)
      · exact Or.inr ⟨⟨jobs, job, [], rfl, hQ⟩, hlose _ _ hsound hrun hjob hQ hA⟩
      · refine Or.inl ⟨?_, hkeep _ _ hsound hrun hjob hQ hA⟩
        intro l₁ job' l₂ h
        rcases List.eq_nil_or_concat l₂ with rfl | ⟨l₃, job'', rfl⟩
        · obtain ⟨rfl, hlast⟩ := List.append_inj' h rfl
          cases hlast
          exact hQ
        · rw [List.concat_eq_append, ← List.cons_append, ← List.append_assoc] at h
          exact hnone l₁ job' l₃ (List.append_inj' h rfl).1
    · exact Or.inr ⟨⟨l₁, job', l₂ ++ [job], by rw [h, List.append_assoc]; rfl, hQ⟩, hlost _ _ hsound hrun hjob hB⟩

/-- It is the same for any operation, whether it is a single one or made of jobs. -/
theorem decides_perform {Q : Nat → Endpoint → Operation → Prop} {A B : Endpoint → Prop} (hA : A w)
    (hclear : A w → A w.cleared) (hw : w.engine.sessions.Sound)
    (hkeep : ∀ (v : Endpoint) op, v.engine.sessions.Sound → op ≠ .runDeferred → P now v op → ¬ Q now v op →
      A v → A (op.perform S now v))
    (hlose : ∀ (v : Endpoint) op, v.engine.sessions.Sound → op ≠ .runDeferred → P now v op → Q now v op →
      A v → B (op.perform S now v))
    (hlost : ∀ (v : Endpoint) op, v.engine.sessions.Sound → op ≠ .runDeferred → P now v op →
      B v → B (op.perform S now v))
    (op : Operation) (hP : ∀ v part, op.Part S now w v part → P now v part) :
    ((∀ v part, op.Part S now w v part → ¬ Q now v part) ∧ A (op.perform S now w)) ∨
      ((¬ ∀ v part, op.Part S now w v part → ¬ Q now v part) ∧ B (op.perform S now w)) := by
  by_cases hop : op = .runDeferred
  · subst hop
    rw [Operation.perform_runDeferred]
    rcases decides_afterJobs (hclear hA) hw hkeep hlose hlost w.engine.deferred
      (fun l₁ job l₂ hl => hP _ _ (.job l₁ job l₂ hl)) with ⟨hnone, hA⟩ | ⟨⟨l₁, job, l₂, hl, hQ⟩, hB⟩
    · refine Or.inl ⟨fun v part hpart => ?_, hA⟩
      cases hpart with
      | whole op hop => exact absurd rfl hop
      | job l₁ job l₂ hl => exact hnone l₁ job l₂ hl
    · exact Or.inr ⟨fun hall => hall _ _ (.job l₁ job l₂ hl) hQ, hB⟩
  · have hwhole := hP w op (.whole op hop)
    by_cases hQ : Q now w op
    · exact Or.inr ⟨fun hall => hall w op (.whole op hop) hQ, hlose w op hw hop hwhole hQ hA⟩
    · refine Or.inl ⟨fun v part hpart => ?_, hkeep w op hw hop hwhole hQ hA⟩
      cases hpart with
      | whole => exact hQ
      | job => exact absurd rfl hop

/-- **What is kept until an operation of some kind, is lost for good with the first one.**  At the end of a run it tells
whether there was one. -/
theorem Throughout.decides {Q : Nat → Endpoint → Operation → Prop} {A B : Endpoint → Prop}
    (h : w.Throughout S ops P) (hw : w.engine.sessions.Sound)
    (hclear : ∀ v : Endpoint, A v → A v.cleared) (hclear' : ∀ v : Endpoint, B v → B v.cleared)
    (hkeep : ∀ now (v : Endpoint) op, v.engine.sessions.Sound → op ≠ .runDeferred → P now v op → ¬ Q now v op →
      A v → A (op.perform S now v))
    (hlose : ∀ now (v : Endpoint) op, v.engine.sessions.Sound → op ≠ .runDeferred → P now v op → Q now v op →
      A v → B (op.perform S now v))
    (hlost : ∀ now (v : Endpoint) op, v.engine.sessions.Sound → op ≠ .runDeferred → P now v op →
      B v → B (op.perform S now v)) (hA : A w) :
    ((w.Throughout S ops fun now v part => ¬ Q now v part) ∧ A (w.run S ops)) ∨
      ((¬ w.Throughout S ops fun now v part => ¬ Q now v part) ∧ B (w.run S ops)) := by
  induction ops generalizing w with
  | nil => exact Or.inl ⟨trivial, hA⟩
  | cons o ops ih =>
    obtain ⟨now, op⟩ := o
    have hsound := (op.course S now hw).sound hw
    rcases decides_perform hA (hclear w) hw (hkeep now) (hlose now) (hlost now) op h.1 with ⟨hnone, hA⟩ | ⟨hsome, hB⟩
    · rcases ih h.2 hsound hA with ⟨hrest, hA⟩ | ⟨hrest, hB⟩
      · exact Or.inl ⟨⟨hnone, hrest⟩, hA⟩
      · exact Or.inr ⟨fun hall => hrest hall.2, hB⟩
    · exact Or.inr ⟨fun hall => hsome hall.1, h.2.keeps hsound hclear' hlost hB⟩

/-! ### Every session of a run -/

theorem Course.caches {sc : Scope} {w' : Endpoint} (hc : Course S now sc w w') (hw : w.engine.sessions.Sound)
    (h : ∀ p s, w.engine.held p = some s → s.initialized.Sound) :
    ∀ p s, w'.engine.held p = some s → s.initialized.Sound := by
  refine hc.sessions (Q := fun _ s => s.initialized.Sound) hw ?_ ?_ h
  · intro p s hs
    obtain ⟨b, -, rfl⟩ := freshSession_ok hs
    exact Cache.sound_empty _ _ _
  · intro p t t' hm ht
    induction hm with
    | refl => exact ht
    | tail _ hm ih => exact hm.sound ih

/-- What fresh sessions have and moves keep, every session of a run has. -/
theorem sessions_run (S : Suite) (identity : KeyPair) (config : ArmConfig) (entropy : Entropy)
    (ops : List (Nat × Operation)) {Q : PublicKey → Session → Prop}
    (hfresh : ∀ p s, (Engine.start identity config).freshSession S p = .ok s → Q p s)
    (hmoves : ∀ p x h t t', Turn.Moves x h t t' → Q p t.session → Q p t'.session) :
    ∀ p s, ((start identity config entropy).run S ops).engine.held p = some s → Q p s := by
  induction ops using List.reverseRecOn with
  | nil =>
    intro p s hp
    cases hp
  | append_singleton ops o ih =>
    have hw := sound_start identity config entropy
    have hsound := sound_run (S := S) hw ops
    rw [run_concat]
    refine (o.2.course S o.1 hsound).sessions hsound ?_ (fun p t t' => hmoves p _ _ t t') ih
    intro p s hs
    rw [freshSession_congr (identity_run hw ops) (config_run hw ops)] at hs
    exact hfresh p s hs

theorem furnished_run (S : Suite) (identity : KeyPair) (config : ArmConfig) (entropy : Entropy)
    (ops : List (Nat × Operation)) : ∀ p s,
      ((start identity config entropy).run S ops).engine.held p = some s → s.Furnished config := by
  apply sessions_run
  · intro p s hs
    obtain ⟨b, -, rfl⟩ := freshSession_ok hs
    exact ⟨Cache.sound_empty _ _ _, rfl⟩
  · intro p x h t t' hm ht
    exact hm.furnished ht

theorem bounds_run (hw : w.engine.sessions.Sound) (ops : List (Nat × Operation)) :
    (w.run S ops).engine.sessions.bounds = w.engine.sessions.bounds := by
  induction ops using List.reverseRecOn with
  | nil => rfl
  | append_singleton ops o ih =>
    have hsound := sound_run (S := S) hw ops
    rw [run_concat]
    exact ((o.2.course S o.1 hsound).bounds hsound).trans ih

theorem longTime_run (S : Suite) (identity : KeyPair) (config : ArmConfig) (entropy : Entropy)
    (ops : List (Nat × Operation)) : ∀ p s,
      ((start identity config entropy).run S ops).engine.held p = some s →
        S.agreementId identity.publicKey p = .ok s.longTimeId := by
  apply sessions_run
  · intro p s hs
    obtain ⟨b, hb, rfl⟩ := freshSession_ok hs
    exact (bondWith_ok hb).2.1
  · intro p x h t t' hm ht
    rw [hm.longTime.1]
    exact ht

end Endpoint

end Overlay
