import Overlay.Proofs.Engine.Operation
import Overlay.Proofs.Handshake.Turn

/-!
# Engines in a handshake

An engine at one end of a handshake holds the session with the other end and nothing else, at the stage of its
half in the outline (`Party.Runs`).  Each of its operations does what the outline says: `Runs.armOutbound`,
`Runs.disarmInbound`, `Runs.runDeferred`, `Runs.drainOutbox`.
-/

namespace Overlay

namespace Party

open Engine

variable (S : Suite) (P : Party)

/-- An endpoint whose engine is at one end of a handshake, as the outline says. -/
structure Runs (h : Half) (w : Endpoint) : Prop where
  identity : w.engine.identity = P.own
  config : w.engine.config = P.config
  sound : w.engine.sessions.Sound
  bounds : w.engine.sessions.bounds =
    (.afterAccess, P.config.sessionExpireAfter.bound?, P.config.maxSessions)
  only : ∀ q i, w.engine.sessions.stored q = some i → q = P.peer
  session : ∀ i, w.engine.sessions.stored P.peer = some i → P.At h.stage i.value ∧ P.start ≤ i.touchedAt
  absent : w.engine.sessions.stored P.peer = none → h.stage = .fresh
  key : h.stage = .fresh → S.keyPair w.entropy.drawSecret.1 = P.key
  deferred : w.engine.deferred = h.jobs.map (P.peer, ·)
  outbox : List.Forall₂ (P.Carries S) h.outbox (w.engine.outbox.map (·.armed))
  events : w.engine.events = P.told .fresh h.stage

variable {S P} {now : Nat} {h : Half} {w : Endpoint} {s s' : Stage} {x : Session}

def fresh (P : Party) : Session where
  longTimeId := P.longTime.id
  longTimePair := P.longTime.pair
  initialized := .empty .afterWrite P.config.retention.bound? P.config.maxAgreements
  active := none
  inactive := none
  lastKeyExchangeAt := none
  lastRenewAttemptAt := none
  state := .longTime

theorem at_fresh (P : Party) : P.At .fresh P.fresh :=
  ⟨⟨rfl, rfl, Cache.sound_empty _ _ _, rfl⟩, rfl, rfl, rfl, fun _ => rfl, rfl⟩

theorem At.busy (hs : s ≠ .fresh) (hx : P.At s x) : x.inactive ≠ none ∨ x.active ≠ none := by
  cases s with
  | fresh => exact absurd rfl hs
  | offered => exact Or.inl (by rw [hx.inactive]; exact nofun)
  | bonded => exact Or.inl (by rw [hx.inactive]; exact nofun)
  | promoted =>
    obtain ⟨g, -, -, hg, -⟩ := hx.active
    exact Or.inr (by rw [hg]; exact nofun)

theorem told_trans (P : Party) (hs : s = .promoted → s' = .promoted) :
    P.told .fresh s ++ P.told s s' = P.told .fresh s' := by
  unfold told
  by_cases h : s = .promoted
  · simp [h, hs h]
  · simp [h]

namespace Runs

theorem start (S : Suite) (P : Party) (entropy : Entropy) (hkey : S.keyPair entropy.drawSecret.1 = P.key) :
    P.Runs S .start (.start P.own P.config entropy) where
  identity := rfl
  config := rfl
  sound := Endpoint.sound_start _ _ _
  bounds := rfl
  only _ _ h := by cases h
  session _ h := by cases h
  absent _ := rfl
  key _ := hkey
  deferred := rfl
  outbox := .nil
  events := rfl

theorem context (hw : P.Runs S h w) (now : Nat) : w.engine.context S now P.peer = P.context S now := by
  rw [Engine.context, hw.identity, hw.config]
  rfl

theorem overdue (hw : P.Runs S h w) (hP : P.Ready S) (hnow : P.Within now) {i : Item PublicKey Session}
    (hi : P.start ≤ i.touchedAt) : w.engine.sessions.overdue i now = false := by
  have hb : w.engine.sessions.ttl = P.config.sessionExpireAfter.bound? := congrArg (·.2.1) hw.bounds
  rw [Cache.overdue_eq, hb]
  cases hr : P.config.sessionExpireAfter.bound? with
  | none => rfl
  | some ttl =>
    have := hP.spans.idle ttl hr
    have := hnow.1
    have := hnow.2
    simp only [Option.any_some, decide_eq_false_iff_not]
    omega

theorem withSessions (hw : P.Runs S h w) {c : Cache PublicKey Session} (hc : c.Sound)
    (hb : c.bounds = w.engine.sessions.bounds) (honly : ∀ q i, c.stored q = some i → q = P.peer)
    (hsession : ∀ i, c.stored P.peer = some i → P.At h.stage i.value ∧ P.start ≤ i.touchedAt)
    (habsent : c.stored P.peer = none → h.stage = .fresh) :
    P.Runs S h (w.withEngine (w.engine.withSessions c)) :=
  ⟨hw.identity, hw.config, hc, hb.trans hw.bounds, honly, hsession, habsent, hw.key, hw.deferred, hw.outbox,
    hw.events⟩

theorem get (hw : P.Runs S h w) (hP : P.Ready S) (hnow : P.Within now) {i : Item PublicKey Session}
    (hi : w.engine.sessions.stored P.peer = some i) :
    ∃ c j, w.engine.sessions.get P.peer now = (some i.value, c) ∧ c.stored P.peer = some j ∧
      j.value = i.value ∧ P.Runs S h (w.withEngine (w.engine.withSessions c)) := by
  obtain ⟨hAt, htouched⟩ := hw.session i hi
  have hkept := hw.overdue hP hnow htouched
  have hfst : (w.engine.sessions.get P.peer now).1 = some i.value := by
    rw [Cache.get_fst hw.sound, Cache.peek_stored hw.sound, hi, Option.bind_some, hkept]
    rfl
  have hstored : ∀ q, (w.engine.sessions.get P.peer now).2.stored q =
      if q = P.peer then some (w.engine.sessions.recency.used i now) else w.engine.sessions.stored q := by
    intro q
    rw [Cache.stored_get hw.sound, hi, Option.bind_some, hkept, if_neg Bool.false_ne_true]
  have hused : P.start ≤ (w.engine.sessions.recency.used i now).touchedAt := by
    unfold Recency.used
    split
    · exact hnow.1
    · exact htouched
  have hself := hstored P.peer
  rw [if_pos rfl] at hself
  refine ⟨_, _, Prod.ext hfst rfl, hself, Recency.used_value _ i now, hw.withSessions (hw.sound.get _ now)
    (Cache.bounds_get hw.sound _ now) ?_ ?_ ?_⟩
  · intro q j hj
    rw [hstored] at hj
    split at hj
    · assumption
    · exact hw.only q j hj
  · intro j hj
    rw [hself] at hj
    cases hj
    rw [Recency.used_value]
    exact ⟨hAt, hused⟩
  · intro hnone
    rw [hself] at hnone
    cases hnone

theorem freshSession (hw : P.Runs S h w) (hP : P.Ready S) (c : Cache PublicKey Session) :
    (w.engine.withSessions c).freshSession S P.peer = .ok P.fresh := by
  rw [freshSession_eq]
  simp only [hw.identity, hw.config, hP.grounded]
  rfl

theorem insert (hw : P.Runs S h w) (hnow : P.Within now) (hfresh : h.stage = .fresh)
    {c : Cache PublicKey Session} (hc : c.Sound) (hb : c.bounds = w.engine.sessions.bounds)
    (hempty : ∀ q, c.stored q = none) :
    (c.insert P.peer P.fresh now).evicted = none ∧
      (c.insert P.peer P.fresh now).cache.stored P.peer = some ⟨P.peer, P.fresh, now⟩ ∧
      P.Runs S h (w.withEngine (w.engine.withSessions (c.insert P.peer P.fresh now).cache)) := by
  rcases Cache.stored_insert hc P.peer P.fresh now with ⟨he, hs⟩ | ⟨i, -, hi, -, -⟩
  · have hself := hs P.peer
    rw [if_pos rfl] at hself
    refine ⟨he, hself, hw.withSessions (hc.insert _ _ _) ((Cache.bounds_insert hc _ _ _).trans hb)
      ?_ ?_ fun _ => hfresh⟩
    · intro q j hj
      rw [hs, hempty] at hj
      split at hj
      · assumption
      · cases hj
    · intro j hj
      rw [hself] at hj
      cases hj
      rw [hfresh]
      exact ⟨P.at_fresh, hnow.1⟩
  · rw [hempty] at hi
    cases hi

theorem ensureSession (hw : P.Runs S h w) (hP : P.Ready S) (hnow : P.Within now)
    (hnone : w.engine.sessions.stored P.peer = none) :
    ∃ c i, w.engine.ensureSession S now P.peer = (.ok (), w.engine.withSessions c) ∧
      c.stored P.peer = some i ∧ P.Runs S h (w.withEngine (w.engine.withSessions c)) := by
  have hcontains : ¬ w.engine.sessions.contains P.peer now = true := by
    rw [Cache.contains_stored hw.sound, hnone]
    exact Bool.false_ne_true
  have hempty : ∀ q, (w.engine.sessions.remove P.peer).2.stored q = none := by
    intro q
    rw [Cache.stored_remove hw.sound]
    split
    · rfl
    · cases hq : w.engine.sessions.stored q with
      | none => rfl
      | some i => exact absurd (hw.only q i hq) ‹_›
  -- nothing leaves, and nothing is told
  have hvacate : w.engine.vacate P.peer = w.engine.withSessions (w.engine.sessions.remove P.peer).2 := by
    rw [vacate, Cache.remove_fst hw.sound, hnone]
    simp only [Option.map_none, Option.getD_none, announce, List.append_nil]
  obtain ⟨hevicted, hself, hruns⟩ := hw.insert hnow (hw.absent hnone) (hw.sound.remove P.peer)
    (Cache.bounds_remove hw.sound P.peer) hempty
  rw [ensureSession_absent hcontains, hw.freshSession hP, hvacate]
  simp only [Option.map_none, Option.getD_none, announce, List.append_nil, hevicted]
  exact ⟨_, _, rfl, hself, hruns⟩

theorem resolve (hw : P.Runs S h w) (hP : P.Ready S) (hnow : P.Within now) :
    ∃ c i, w.engine.resolve S now P.peer = (.ok i.value, w.engine.withSessions c) ∧
      c.stored P.peer = some i ∧ P.Runs S h (w.withEngine (w.engine.withSessions c)) := by
  obtain ⟨c, i, hensure, hi, hc⟩ : ∃ c i, w.engine.ensureSession S now P.peer =
      (.ok (), w.engine.withSessions c) ∧ c.stored P.peer = some i ∧
      P.Runs S h (w.withEngine (w.engine.withSessions c)) := by
    cases hi : w.engine.sessions.stored P.peer with
    | none => exact hw.ensureSession hP hnow hi
    | some i =>
      have hcontains : w.engine.sessions.contains P.peer now = true := by
        rw [Cache.contains_stored hw.sound, hi, Option.any_some, hw.overdue hP hnow (hw.session i hi).2]
        rfl
      refine ⟨w.engine.sessions, i, ?_, hi, hw⟩
      rw [Engine.ensureSession, if_pos hcontains]
  obtain ⟨c', j, hget, hj, hv, hc'⟩ := hc.get hP hnow hi
  refine ⟨c', j, ?_, hj, hc'⟩
  have hget' : c.get P.peer now = (some i.value, c') := hget
  unfold Engine.resolve
  rw [hensure, hv]
  simp only [hget']

theorem stands (hw : P.Runs S h w) {i : Item PublicKey Session}
    (hi : w.engine.sessions.stored P.peer = some i) :
    P.Stands S (P.At h.stage) [] [] [] { session := i.value, entropy := w.entropy } := by
  have hAt := (hw.session i hi).1
  refine ⟨hAt, fun hinactive hactive => hw.key ?_, rfl, .nil, rfl⟩
  by_contra hs
  rcases At.busy hs hAt with hbusy | hbusy
  · exact hbusy hinactive
  · exact hbusy hactive

theorem absorb (hw : P.Runs S h w) {i : Item PublicKey Session} {t : Turn} {jobs : List Deferred}
    {posted : List Parcel} {events : List Event} (hi : w.engine.sessions.stored P.peer = some i)
    (ht : P.Stands S (P.At s) jobs posted events t)
    (hevents : P.told .fresh h.stage ++ events = P.told .fresh s) :
    P.Runs S { h with stage := s, jobs := h.jobs ++ jobs, outbox := h.outbox ++ posted }
      (w.after (w.engine.absorb P.peer t, t.entropy)) := by
  have hstored := fun q => Cache.stored_modify hw.sound P.peer q fun _ => t.session
  have hself := hstored P.peer
  rw [if_pos rfl, hi, Option.map_some] at hself
  refine ⟨hw.identity, hw.config, hw.sound.modify P.peer fun _ => t.session,
    (Cache.bounds_modify hw.sound P.peer fun _ => t.session).trans hw.bounds, ?_,
    ?_, ?_, ?_, ?_, ?_, ?_⟩
  · intro q j hj
    have hj' : (w.engine.sessions.modify P.peer fun _ => t.session).stored q = some j := hj
    rw [hstored] at hj'
    split at hj'
    · assumption
    · exact hw.only q j hj'
  · intro j hj
    have hj' : (w.engine.sessions.modify P.peer fun _ => t.session).stored P.peer = some j := hj
    rw [hself] at hj'
    cases hj'
    exact ⟨ht.session, (hw.session i hi).2⟩
  · intro hnone
    have hnone' : (w.engine.sessions.modify P.peer fun _ => t.session).stored P.peer = none := hnone
    rw [hself] at hnone'
    cases hnone'
  · intro hfresh
    have hfresh' : s = .fresh := hfresh
    subst hfresh'
    exact ht.key ht.session.inactive ht.session.active
  · show w.engine.deferred ++ t.deferred.map (P.peer, ·) = (h.jobs ++ jobs).map (P.peer, ·)
    rw [hw.deferred, ht.deferred, List.map_append]
  · show List.Forall₂ (P.Carries S) (h.outbox ++ posted)
      ((w.engine.outbox ++ t.outbox.map (Outgoing.mk P.peer)).map Outgoing.armed)
    rw [List.map_append, List.map_map]
    apply List.rel_append hw.outbox
    have hsame : t.outbox.map (Outgoing.armed ∘ Outgoing.mk P.peer) = t.outbox := List.map_id t.outbox
    rw [hsame]
    exact ht.outbox
  · show w.engine.events ++ t.events = P.told .fresh s
    rw [hw.events, ht.events]
    exact hevents

theorem converse {α : Type} {events : List Event} (hw : P.Runs S h w) (hP : P.Ready S) (hnow : P.Within now)
    (s : Stage) (jobs : List Deferred) (posted : List Parcel)
    (work : Context → Turn → Except ArmError α × Turn) (answer : Except ArmError α → Prop)
    (hevents : P.told .fresh h.stage ++ events = P.told .fresh s)
    (hwork : ∀ t, P.Stands S (P.At h.stage) [] [] [] t →
      P.Stands S (P.At s) jobs posted events (work (P.context S now) t).2 ∧
        answer (work (P.context S now) t).1) :
    P.Runs S { h with stage := s, jobs := h.jobs ++ jobs, outbox := h.outbox ++ posted }
        (w.after (w.engine.converse S now P.peer work w.entropy).2) ∧
      answer (w.engine.converse S now P.peer work w.entropy).1 := by
  obtain ⟨c, i, hresolve, hi, hc⟩ := hw.resolve hP hnow
  obtain ⟨hturn, hanswer⟩ := hwork _ (hc.stands hi)
  have hcontext : (w.engine.withSessions c).context S now P.peer = P.context S now := hc.context now
  unfold Engine.converse
  rw [hresolve]
  simp only [hcontext]
  exact ⟨hc.absorb hi hturn hevents, hanswer⟩

/-! ### Operations -/

/-- Of a half only the stage, the jobs and what was posted matter to its engine. -/
theorem same (hw : P.Runs S h w) (h' : Half) (hs : h'.stage = h.stage) (hj : h'.jobs = h.jobs)
    (ho : h'.outbox = h.outbox) : P.Runs S h' w := by
  obtain ⟨hid, hconfig, hsound, hbounds, honly, hsession, habsent, hkey, hdeferred, houtbox, hevents⟩ := hw
  rw [← hs] at hsession habsent hkey hevents
  rw [← hj] at hdeferred
  rw [← ho] at houtbox
  exact ⟨hid, hconfig, hsound, hbounds, honly, hsession, habsent, hkey, hdeferred, houtbox, hevents⟩

/-- **Sending a payload** does what the outline says. -/
theorem armOutbound (hw : P.Runs S h w) (hP : P.Ready S) (hnow : P.Within now) (payload : Bytes)
    (sent : Option Bytes) :
    P.Runs S (h.arm sent) ((Operation.armOutbound P.peer payload).perform S now w) ∧
      ∀ m, (w.engine.armOutbound S now P.peer payload w.entropy).1 = .ok m →
        P.Carries S (h.stage.wrap payload) m := by
  obtain ⟨hruns, hanswer⟩ := hw.converse hP hnow h.stage h.stage.armJobs []
    (fun x t => t.armOutbound x payload)
    (fun r => ∀ m, r = .ok m → P.Carries S (h.stage.wrap payload) m) (List.append_nil _)
    fun t ht => ht.armOutbound hP hnow payload
  exact ⟨hruns.same (h.arm sent) rfl rfl (List.append_nil _).symm, hanswer⟩

/-- **Hearing what can be understood** does what the outline says. -/
theorem disarmInbound {Q : Party} {i : Parcel} {m : ArmedMessage} {reply : List Parcel}
    (hw : P.Runs S h w) (hP : P.Ready S) (hnow : P.Within now) (hQ : P.Faces Q) (hS : S.Opens)
    (hs : h.stage.hear i = some (s, reply)) (hm : Q.Carries S i m) :
    P.Runs S (h.heed s reply) ((Operation.disarmInbound P.peer m).perform S now w) ∧
      ∀ payload, i.payload = some payload →
        (w.engine.disarmInbound S now P.peer m w.entropy).1 = .ok (.application payload) :=
  hw.converse hP hnow s [.checkRenewal] reply (fun x t => t.disarmInbound x m)
    (fun r => ∀ payload, i.payload = some payload → r = .ok (.application payload))
    (told_trans P (Handshake.script_hear hs).2.2.1) fun _ ht => ht.disarmInbound hP hnow hQ hS hs hm

theorem checkForRenew (hw : P.Runs S h w) (hP : P.Ready S) (hnow : P.Within now) :
    P.Runs S h (w.after (w.engine.checkForRenew S now P.peer w.entropy).2) := by
  have hforward : w.engine.config.forwardSecrecy = true := by
    rw [hw.config]
    exact hP.forwardSecrecy hnow
  unfold Engine.checkForRenew
  rw [if_pos hforward]
  cases hi : w.engine.sessions.stored P.peer with
  | none =>
    have hfst : (w.engine.sessions.get P.peer now).1 = none := by
      rw [Cache.get_fst hw.sound, Cache.peek_stored hw.sound, hi, Option.bind_none]
    have hstored : ∀ q, (w.engine.sessions.get P.peer now).2.stored q = w.engine.sessions.stored q := by
      intro q
      rw [Cache.stored_get hw.sound, hi, Option.bind_none]
      split
      · rename_i hq
        rw [hq, hi]
      · rfl
    have hc := hw.withSessions (hw.sound.get P.peer now) (Cache.bounds_get hw.sound P.peer now)
      (fun q i hq => hw.only q i ((hstored q).symm.trans hq))
      (fun i hq => hw.session i ((hstored P.peer).symm.trans hq)) fun _ => hw.absent hi
    cases hr : w.engine.sessions.get P.peer now with
    | mk found c =>
      rw [hr] at hfst hc
      simp only at hfst
      subst hfst
      exact hc
  | some i =>
    obtain ⟨c, j, hget, hj, hv, hc⟩ := hw.get hP hnow hi
    have hturn := hc.stands hj
    rw [hv] at hturn
    have hsame := hturn.checkForRenew hP hnow
    have hcontext : (w.engine.withSessions c).context S now P.peer = P.context S now := hc.context now
    have hdone := (hc.absorb hj hturn (List.append_nil _)).same h rfl (List.append_nil _).symm
      (List.append_nil _).symm
    rw [hget]
    show P.Runs S h (w.after ((w.engine.withSessions c).absorb P.peer
      (Turn.checkForRenew ((w.engine.withSessions c).context S now P.peer)
        { session := i.value, entropy := w.entropy }).2, _))
    rw [hcontext, hsame]
    exact hdone

theorem doKeyExchange (hw : P.Runs S h w) (hP : P.Ready S) (hnow : P.Within now) :
    P.Runs S (h.perform .keyExchange) (w.after (w.engine.doKeyExchange S now P.peer w.entropy).2) := by
  have hforward : w.engine.config.forwardSecrecy = true := by
    rw [hw.config]
    exact hP.forwardSecrecy hnow
  unfold Engine.doKeyExchange
  rw [if_pos hforward]
  have hevents : P.told .fresh h.stage ++ [] = P.told .fresh (h.stage.perform .keyExchange).1 := by
    cases h.stage <;> rfl
  have hruns := (hw.converse hP hnow _ [] (h.stage.perform .keyExchange).2 (fun x t => t.doKeyExchange x)
    (fun _ => True) hevents fun t ht => ⟨ht.doKeyExchange hP hnow, trivial⟩).1
  exact hruns.same _ rfl (List.append_nil _).symm rfl

/-- **Doing the jobs** does what the outline says. -/
theorem runDeferred (hw : P.Runs S h w) (hP : P.Ready S) (hnow : P.Within now) :
    P.Runs S h.runDeferred (Operation.runDeferred.perform S now w) := by
  have hjobs : ∀ jobs : List Deferred, P.Runs S (jobs.foldl Half.perform { h with jobs := [] })
      (w.afterJobs S now (jobs.map (P.peer, ·))) := by
    intro jobs
    induction jobs using List.reverseRecOn with
    | nil =>
      exact ⟨hw.identity, hw.config, hw.sound, hw.bounds, hw.only, hw.session, hw.absent, hw.key, rfl,
        hw.outbox, hw.events⟩
    | append_singleton jobs work ih =>
      rw [List.map_append, List.foldl_append, List.map_singleton, Endpoint.afterJobs_concat]
      cases work with
      | checkRenewal =>
        have hnone : ∀ s : Stage, s.perform .checkRenewal = (s, []) := fun s => by cases s <;> rfl
        generalize jobs.foldl Half.perform { h with jobs := [] } = h' at ih
        refine (ih.checkForRenew hP hnow).same _ ?_ rfl ?_
        · exact congrArg Prod.fst (hnone h'.stage)
        · show h'.outbox ++ (h'.stage.perform .checkRenewal).2 = h'.outbox
          rw [hnone, List.append_nil]
      | keyExchange => exact ih.doKeyExchange hP hnow
  rw [Operation.perform_runDeferred, hw.deferred]
  exact hjobs h.jobs

theorem drainOutbox (now : Nat) (hw : P.Runs S h w) : P.Runs S h.collect (Operation.drainOutbox.perform S now w) :=
  ⟨hw.identity, hw.config, hw.sound, hw.bounds, hw.only, hw.session, hw.absent, hw.key, hw.deferred, .nil,
    hw.events⟩

end Runs

end Party

end Overlay
