import Overlay.Proofs.Isolation.Station

/-!
# One source of randomness

An engine draws from one source of randomness, whoever a turn is for.  The randomness that the turns of a run find, each
with its peer and in order, makes a log; and a station that hands each peer what the log has for it (`handing`) goes
through the very same run (`exists_handed`).  So whatever peers do at an engine without a bound on its sessions, the
share of each is what it would be at a station without the others (`share_run_alone`).
-/

namespace Overlay

namespace Operation

variable {S : Suite} {now : Nat} {w : Endpoint} {q : PublicKey} {op : Operation}

/-- An operation does not look at the events that were handed out before. -/
theorem engine_perform (S : Suite) (now : Nat) (w : Endpoint) (op : Operation) :
    (op.perform S now w).engine = (op.perform S now { engine := w.engine, entropy := w.entropy }).engine := by
  cases op <;> rfl

theorem handedOut_perform (hpeer : op.peer? = some q) : (op.perform S now w).handedOut = w.handedOut := by
  cases op <;> cases hpeer <;> rfl

end Operation

namespace Station

variable {S : Suite} {now : Nat} {q : PublicKey} {op : Operation} {w : Endpoint} {v : Station}
  {before : List (PublicKey × Entropy)}

/-- The randomness that a log has for a peer's next turn. -/
def handing (spare : Entropy) (log : List (PublicKey × Entropy)) (p : PublicKey) (n : Nat) : Entropy :=
  (log.filter fun h => h.1 = p)[n]?.elim spare (·.2)

theorem handing_next (spare : Entropy) (before later : List (PublicKey × Entropy)) (q : PublicKey) (r : Entropy) :
    handing spare (before ++ (q, r) :: later) q (before.filter fun h => h.1 = q).length = r := by
  simp [handing, List.filter_append]

/-- A station is where an endpoint is, after the turns of some log. -/
structure Mirrors (w : Endpoint) (before : List (PublicKey × Entropy)) (v : Station) : Prop where
  engine : v.engine = w.engine
  turns : ∀ p, v.turns p = (before.filter fun h => h.1 = p).length
  told : v.told = w.handedOut

/-- With the log of a course from one endpoint to another, a station goes along. -/
def Follows (w w' : Endpoint) (log : List (PublicKey × Entropy))
    (course : (PublicKey → Nat → Entropy) → Station → Station) : Prop :=
  ∀ spare before later v, Mirrors w before v →
    Mirrors w' (before ++ log) (course (handing spare (before ++ (log ++ later))) v)

theorem follows_turn (S : Suite) (now : Nat) (w : Endpoint) (hpeer : op.peer? = some q) :
    Follows w (op.perform S now w) [(q, w.entropy)] fun handed v => v.turn S handed now q op := by
  intro spare before later v h
  refine ⟨?_, ?_, h.told.trans (Operation.handedOut_perform hpeer).symm⟩
  · have hnext : handing spare (before ++ ([(q, w.entropy)] ++ later)) q (v.turns q) = w.entropy := by
      rw [h.turns q]
      exact handing_next spare before later q w.entropy
    show (op.perform S now { engine := v.engine, entropy := _ }).engine = _
    rw [hnext, h.engine, ← Operation.engine_perform]
  · intro p
    show Function.update v.turns q (v.turns q + 1) p = _
    rw [List.filter_append, List.length_append, ← h.turns p]
    by_cases hp : p = q
    · subst hp
      simp
    · simp [Function.update_of_ne hp, Ne.symm hp]

theorem Follows.trans {w w' w'' : Endpoint} {log log' : List (PublicKey × Entropy)}
    {f g : (PublicKey → Nat → Entropy) → Station → Station} (hf : Follows w w' log f) (hg : Follows w' w'' log' g) :
    Follows w w'' (log ++ log') fun handed v => g handed (f handed v) := by
  intro spare before later v h
  have hfirst := hf spare before (log' ++ later) v h
  have hsecond := hg spare (before ++ log) later _ hfirst
  simp only [List.append_assoc] at hfirst hsecond ⊢
  exact hsecond

theorem exists_follows_work (S : Suite) (now : Nat) (w : Endpoint) (jobs : List (PublicKey × Deferred)) :
    ∃ log, Follows w (w.run S (jobs.map fun job => (now, job.2.operation job.1))) log
      fun handed v => v.work S handed now jobs := by
  induction jobs generalizing w with
  | nil =>
    refine ⟨[], fun spare before later v h => ?_⟩
    rw [List.append_nil]
    exact h
  | cons job jobs ih =>
    obtain ⟨log, hrest⟩ := ih ((job.2.operation job.1).perform S now w)
    exact ⟨_, (follows_turn S now w (Operation.peer?_job job.1 job.2)).trans hrest⟩

theorem exists_follows_act (S : Suite) (now : Nat) (w : Endpoint) (op : Operation) :
    ∃ log, Follows w (op.perform S now w) log fun handed v => v.act S handed now op := by
  cases hpeer : op.peer? with
  | some q =>
    refine ⟨[(q, w.entropy)], fun spare before later v h => ?_⟩
    have hturn := follows_turn S now w hpeer spare before later v h
    simp only [act_peer hpeer]
    exact ⟨hturn.engine, hturn.turns, hturn.told⟩
  | none =>
    cases op with
    | runDeferred =>
      obtain ⟨log, hwork⟩ := exists_follows_work S now w.cleared w.engine.deferred
      refine ⟨log, fun spare before later v h => ?_⟩
      have hcleared : Mirrors w.cleared before v.cleared := by
        refine ⟨?_, h.turns, h.told⟩
        show ({ v.engine with deferred := [] } : Engine) = { w.engine with deferred := [] }
        rw [h.engine]
      have hdone := hwork spare before later v.cleared hcleared
      rw [← Endpoint.afterJobs_run] at hdone
      rw [Operation.perform_runDeferred]
      show Mirrors _ _ (v.cleared.work S _ now v.engine.deferred)
      rw [h.engine]
      exact hdone
    | evictIdleSessions =>
      refine ⟨[], fun spare before later v h => ?_⟩
      rw [List.append_nil]
      exact ⟨congrArg (fun e => (e.evictIdleSessions now).2) h.engine, h.turns, h.told⟩
    | drainOutbox =>
      refine ⟨[], fun spare before later v h => ?_⟩
      rw [List.append_nil]
      exact ⟨congrArg (fun e => e.drainOutbox.2) h.engine, h.turns, h.told⟩
    | drainEvents =>
      refine ⟨[], fun spare before later v h => ?_⟩
      rw [List.append_nil]
      refine ⟨congrArg (fun e => e.drainEvents.2) h.engine, h.turns, ?_⟩
      show v.told ++ v.engine.events = w.handedOut ++ w.engine.events
      rw [h.told, h.engine]
    | _ => cases hpeer

theorem exists_follows_run (S : Suite) (w : Endpoint) (ops : List (Nat × Operation)) :
    ∃ log, Follows w (w.run S ops) log fun handed v => v.run S handed ops := by
  induction ops generalizing w with
  | nil =>
    refine ⟨[], fun spare before later v h => ?_⟩
    rw [List.append_nil]
    exact h
  | cons o ops ih =>
    obtain ⟨log, hhere⟩ := exists_follows_act S o.1 w o.2
    obtain ⟨log', hrest⟩ := ih (o.2.perform S o.1 w)
    exact ⟨_, hhere.trans hrest⟩

/-- **Every run of an engine is the run of a station** that hands out what the engine draws. -/
theorem exists_handed (S : Suite) (identity : KeyPair) (config : ArmConfig) (entropy : Entropy)
    (ops : List (Nat × Operation)) : ∃ handed,
      ((start identity config).run S handed ops).engine =
          ((Endpoint.start identity config entropy).run S ops).engine ∧
        ((start identity config).run S handed ops).told =
          ((Endpoint.start identity config entropy).run S ops).handedOut := by
  obtain ⟨log, hrun⟩ := exists_follows_run S (.start identity config entropy) ops
  have hstart : Mirrors (.start identity config entropy) [] (start identity config) := ⟨rfl, fun _ => rfl, rfl⟩
  have hmirrors := hrun entropy [] [] (start identity config) hstart
  exact ⟨_, hmirrors.engine, hmirrors.told⟩

/-- **A peer's share in a run of an engine is what it is without the other peers**, where the sessions are not bounded
in number and the peer's turns are handed the same randomness. -/
theorem share_run_alone (S : Suite) (identity : KeyPair) (config : ArmConfig) (hmax : config.maxSessions = 0)
    (entropy : Entropy) (ops : List (Nat × Operation)) : ∃ handed, ∀ p,
      ((Endpoint.start identity config entropy).run S ops).engine.share p =
        ((start identity config).run S handed (ops.filter fun o => o.2.Concerns p)).engine.share p := by
  obtain ⟨handed, hengine, -⟩ := exists_handed S identity config entropy ops
  have hsound : (start identity config).engine.sessions.Sound := Cache.sound_empty _ _ _
  have hroom : (start identity config).Roomy S handed ops := roomy_unbounded hsound hmax ops
  refine ⟨handed, fun p => ?_⟩
  have hrecord := record_run hsound hsound hroom (fun _ _ => ⟨rfl, rfl⟩ : (start identity config).engine.Solo p) rfl
  rw [← hengine]
  exact congrArg Record.share hrecord

end Station

end Overlay
