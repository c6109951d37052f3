import Overlay.Proofs.Engine.Live
import Overlay.Proofs.Renewal.Turn

/-!
# Engines in a renewal

An engine at one end of a renewal holds a live session with the other end, at the stage of its half in the outline
(`Renewal.Party.Runs`); what sessions it has with others does not matter.  Each of its operations does what the
outline says: `Runs.runDeferred`, `Runs.drainOutbox`, `Runs.hear`, and before the renewal begins `Runs.armOutbound`
and `Runs.disarmPayload`.  An end that has sent or heard something was active just now.
-/

namespace Overlay

namespace Renewal

namespace Party

open Engine

variable (S : Suite) (P : Party)

/-- An endpoint whose engine is at one end of a renewal, as the outline says.  The session was last looked up at some
moment or later, and the application was told some events. -/
structure Runs (seen : Nat) (told : List Event) (h : Half) (w : Endpoint) : Prop where
  identity : w.engine.identity = P.own
  config : w.engine.config = P.config
  sound : w.engine.sessions.Sound
  policy : w.engine.sessions.policy = .afterAccess
  ttl : w.engine.sessions.ttl = P.config.sessionExpireAfter.bound?
  session : ∃ i, w.engine.sessions.stored P.peer = some i ∧ w.engine.sessions.overdue i P.now = false ∧
    seen ≤ i.touchedAt ∧ P.StandsAt S h.stage 0 [] { session := i.value, entropy := w.entropy }
  deferred : w.engine.deferred = List.replicate h.checks (P.peer, .checkRenewal)
  outbox : List.Forall₂ (P.Carries S) h.outbox (w.engine.outbox.map (·.armed))
  events : w.engine.events = told

variable {S P} {h : Half} {w : Endpoint} {s : Stage} {checks seen : Nat} {posted : List Item} {t : Turn}
  {told : List Event}

/-- What a turn leaves behind aside, its session and its randomness are where they are. -/
theorem StandsAt.rest (ht : P.StandsAt S s checks posted t) :
    P.StandsAt S s 0 [] { session := t.session, entropy := t.entropy } := by
  obtain ⟨slot, hslot, hstands⟩ := ht
  exact ⟨slot, hslot, hstands.session, hstands.key, rfl, .nil, rfl⟩

namespace Runs

theorem context (hw : P.Runs S seen told h w) : w.engine.context S P.now P.peer = P.context S := by
  rw [Engine.context, hw.identity, hw.config]
  rfl

theorem live {i : Overlay.Item PublicKey Session} (hw : P.Runs S seen told h w)
    (hi : w.engine.sessions.stored P.peer = some i) (ho : w.engine.sessions.overdue i P.now = false) :
    w.engine.session P.peer P.now = some i.value := by
  rw [Engine.session, Cache.peek_stored hw.sound, hi, Option.bind_some, ho]
  rfl

/-- Of a half only the stage, the checks and what was posted matter to its engine. -/
theorem same (hw : P.Runs S seen told h w) (h' : Half) (hs : h'.stage = h.stage) (hc : h'.checks = h.checks)
    (ho : h'.outbox = h.outbox) : P.Runs S seen told h' w := by
  obtain ⟨hidentity, hconfig, hsound, hpolicy, httl, hsession, hdeferred, houtbox, hevents⟩ := hw
  rw [← hs] at hsession
  rw [← hc] at hdeferred
  rw [← ho] at houtbox
  exact ⟨hidentity, hconfig, hsound, hpolicy, httl, hsession, hdeferred, houtbox, hevents⟩

theorem absorb {i : Overlay.Item PublicKey Session} (hw : P.Runs S seen told h w)
    (hi : w.engine.sessions.stored P.peer = some i) (ho : w.engine.sessions.overdue i P.now = false)
    (ht : P.StandsAt S s checks posted t) :
    P.Runs S P.now told { h with stage := s, checks := h.checks + checks, outbox := h.outbox ++ posted }
      (w.after ((w.engine.withSessions (w.engine.sessions.get P.peer P.now).2).absorb P.peer t, t.entropy)) := by
  have hget := hw.sound.get P.peer P.now
  have hbounds := (Cache.bounds_modify hget P.peer fun _ => t.session).trans
    (Cache.bounds_get hw.sound P.peer P.now)
  have hused : w.engine.sessions.recency.used i P.now = { i with touchedAt := P.now } := if_pos hw.policy
  have hstored : ((w.engine.sessions.get P.peer P.now).2.modify P.peer fun _ => t.session).stored P.peer =
      some { i with touchedAt := P.now, value := t.session } := by
    rw [Cache.stored_modify hget, if_pos rfl, Cache.stored_get hw.sound, if_pos rfl, hi, Option.bind_some, ho,
      if_neg Bool.false_ne_true, hused]
    rfl
  have hlive : ((w.engine.sessions.get P.peer P.now).2.modify P.peer fun _ => t.session).overdue
      { i with touchedAt := P.now, value := t.session } P.now = false := by
    have httl : ((w.engine.sessions.get P.peer P.now).2.modify P.peer fun _ => t.session).ttl =
        w.engine.sessions.ttl := congrArg (·.2.1) hbounds
    rw [Cache.overdue_eq] at ho ⊢
    rw [httl]
    cases hb : w.engine.sessions.ttl with
    | none => rfl
    | some ttl =>
      rw [hb] at ho
      simp only [Option.any_some, decide_eq_false_iff_not] at ho ⊢
      omega
  obtain ⟨slot, -, hstands⟩ := id ht
  refine ⟨hw.identity, hw.config, hget.modify P.peer fun _ => t.session, (congrArg (·.1) hbounds).trans hw.policy,
    (congrArg (·.2.1) hbounds).trans hw.ttl, ⟨_, hstored, hlive, Nat.le_refl _, ht.rest⟩, ?_, ?_, ?_⟩
  · show w.engine.deferred ++ t.deferred.map (P.peer, ·) = List.replicate (h.checks + checks) (P.peer, .checkRenewal)
    rw [hw.deferred, hstands.deferred, List.map_replicate, List.replicate_add]
  · show List.Forall₂ (P.Carries S) (h.outbox ++ posted)
      ((w.engine.outbox ++ t.outbox.map (Outgoing.mk P.peer)).map Outgoing.armed)
    rw [List.map_append, List.map_map]
    apply List.rel_append hw.outbox
    have hsame : t.outbox.map (Outgoing.armed ∘ Outgoing.mk P.peer) = t.outbox := List.map_id t.outbox
    rw [hsame]
    exact hstands.outbox
  · show w.engine.events ++ t.events = told
    rw [hw.events, hstands.events, List.append_nil]

theorem converse {α : Type} (hw : P.Runs S seen told h w)
    (work : Context → Turn → Except ArmError α × Turn) :
    ∃ t, P.StandsAt S h.stage 0 [] t ∧ (w.engine.converse S P.now P.peer work w.entropy).1 =
        (work (P.context S) t).1 ∧
      ∀ s checks posted, P.StandsAt S s checks posted (work (P.context S) t).2 →
        P.Runs S P.now told { h with stage := s, checks := h.checks + checks, outbox := h.outbox ++ posted }
          (w.after (w.engine.converse S P.now P.peer work w.entropy).2) := by
  obtain ⟨i, hi, ho, -, ht⟩ := hw.session
  refine ⟨_, ht, ?_, ?_⟩
  · rw [converse_live hw.sound (hw.live hi ho), hw.context]
  · intro s checks posted hturn
    rw [converse_live hw.sound (hw.live hi ho), hw.context]
    exact hw.absorb hi ho hturn

/-! ### Before the renewal -/

/-- **A payload is sealed** with the agreement in use, if it can be encrypted. -/
theorem armOutbound (hw : P.Runs S seen told h w) (hP : P.Ready S) (hidle : h.stage = .idle) (payload : Bytes)
    (hencrypt : ∀ k n d, ∃ c, S.encrypt k n d (ArmMessage.application payload).encode = some c) :
    P.Runs S P.now told { h with checks := h.checks + 1 }
        ((Operation.armOutbound P.peer payload).perform S P.now w) ∧
      ∃ m, (w.engine.armOutbound S P.now P.peer payload w.entropy).1 = .ok m ∧
        Sealed (P.context S) P.current.id P.current.pair (.application payload) m := by
  obtain ⟨t, ⟨slot, hslot, hstands⟩, hanswer, habsorb⟩ := hw.converse fun x t => t.armOutbound x payload
  rw [hidle] at hslot hstands
  obtain ⟨hturn, hsealed⟩ := hstands.armOutbound hP rfl payload
  refine ⟨(habsorb .idle 1 [] ⟨slot, hslot, hturn⟩).same _ hidle rfl (List.append_nil _).symm, ?_⟩
  obtain ⟨c, hc⟩ := hencrypt P.current.pair.tx t.entropy.drawNonce.1
    (associatedData P.own.publicKey P.peer P.current.id)
  have hm : ((t.defer .checkRenewal).sealMessage (P.context S) P.current.id P.current.pair
      (.application payload)).1 = .ok ⟨P.current.id, t.entropy.drawNonce.1, c⟩ := by
    have hc' : (P.context S).suite.encrypt P.current.pair.tx (t.defer .checkRenewal).entropy.drawNonce.1
        (associatedData (P.context S).own.publicKey (P.context S).peer P.current.id)
        (ArmMessage.application payload).encode = some c := hc
    rw [Turn.sealMessage_fst, hc']
    rfl
  exact ⟨_, (hanswer.trans hsealed).trans hm, Turn.sealMessage_ok hm⟩

/-- **The payload is opened.** -/
theorem disarmPayload {Q : Party} {m : ArmedMessage} {payload : Bytes} (hw : P.Runs S seen told h w) (hP : P.Ready S)
    (hQ : P.Faces Q) (hS : S.Opens) (hidle : h.stage = .idle)
    (hm : Sealed (Q.context S) Q.current.id Q.current.pair (.application payload) m) :
    P.Runs S P.now told { h with checks := h.checks + 1 }
        ((Operation.disarmInbound P.peer m).perform S P.now w) ∧
      (w.engine.disarmInbound S P.now P.peer m w.entropy).1 = .ok (.application payload) := by
  obtain ⟨t, ⟨slot, hslot, hstands⟩, hanswer, habsorb⟩ := hw.converse fun x t => t.disarmInbound x m
  rw [hidle] at hslot hstands
  obtain ⟨hopened, hturn⟩ := hstands.disarmPayload hP hQ hS rfl hm
  exact ⟨(habsorb .idle 1 [] ⟨slot, hslot, hturn⟩).same _ hidle rfl (List.append_nil _).symm,
    hanswer.trans hopened⟩

/-! ### The renewal -/

/-- **Hearing what can be understood** does what the outline says. -/
theorem hear {Q : Party} {m : ArmedMessage} {i : Item} (hw : P.Runs S seen told h w) (hP : P.Ready S)
    (hQ : P.Faces Q) (hS : S.Opens) (hdue : P.due = true) (hs : h.stage.hear i ≠ []) (hm : Q.Carries S i m) :
    ∃ s ∈ h.stage.hear i,
      P.Runs S P.now told (h.heed s) ((Operation.disarmInbound P.peer m).perform S P.now w) := by
  obtain ⟨t, ht, -, habsorb⟩ := hw.converse fun x t => t.disarmInbound x m
  obtain ⟨s, hs, hturn⟩ := ht.hear hP hQ hS hdue hs hm
  rw [Nat.zero_add, List.nil_append] at hturn
  exact ⟨s, hs, habsorb s 1 _ hturn⟩

theorem checkForRenew (hw : P.Runs S seen told h w) (hP : P.Ready S) (hs : P.due = false → h.stage = .idle) :
    P.Runs S P.now told (h.check P.due) (w.after (w.engine.checkForRenew S P.now P.peer w.entropy).2) := by
  obtain ⟨i, hi, ho, -, ht⟩ := hw.session
  have hforward : w.engine.config.forwardSecrecy = true := by
    rw [hw.config]
    exact hP.forward
  have hfst : (w.engine.sessions.get P.peer P.now).1 = some i.value :=
    (Cache.get_fst hw.sound P.peer P.now).trans (hw.live hi ho)
  have hget : w.engine.sessions.get P.peer P.now = (some i.value, (w.engine.sessions.get P.peer P.now).2) :=
    Prod.ext hfst rfl
  have hturn := hw.absorb hi ho (ht.checkForRenew hP hs)
  have hhalf : h.check P.due = { h with
      stage := if P.due then h.stage.check else h.stage
      checks := h.checks + 0
      outbox := h.outbox ++ ([] ++ if P.due then h.stage.news h.stage.check else []) } := by
    unfold Half.check
    cases P.due with
    | true => rfl
    | false =>
      simp only [Bool.false_eq_true, if_false, List.append_nil]
      rfl
  rw [hhalf]
  unfold Engine.checkForRenew
  rw [if_pos hforward, hget]
  have hcontext : (w.engine.withSessions (w.engine.sessions.get P.peer P.now).2).context S P.now P.peer =
      P.context S := hw.context
  show P.Runs S P.now told _ (w.after ((w.engine.withSessions (w.engine.sessions.get P.peer P.now).2).absorb P.peer
    (Turn.checkForRenew ((w.engine.withSessions (w.engine.sessions.get P.peer P.now).2).context S P.now P.peer)
      { session := i.value, entropy := w.entropy }).2, _))
  rw [hcontext]
  exact hturn

/-- **Doing the jobs** does what the outline says. -/
theorem runDeferred (hw : P.Runs S P.now told h w) (hP : P.Ready S) (hs : P.due = false → h.stage = .idle) :
    P.Runs S P.now told (h.runDeferred P.due) (Operation.runDeferred.perform S P.now w) := by
  have hchecks : ∀ n, P.Runs S P.now told ((Half.check P.due)^[n] { h with checks := 0 })
        (w.afterJobs S P.now (List.replicate n (P.peer, .checkRenewal))) ∧
      (P.due = false → ((Half.check P.due)^[n] { h with checks := 0 }).stage = .idle) := by
    intro n
    induction n with
    | zero =>
      exact ⟨⟨hw.identity, hw.config, hw.sound, hw.policy, hw.ttl, hw.session, rfl, hw.outbox, hw.events⟩, hs⟩
    | succ n ih =>
      rw [List.replicate_succ', Endpoint.afterJobs_concat, Function.iterate_succ_apply']
      refine ⟨ih.1.checkForRenew hP ih.2, fun hd => ?_⟩
      rw [Half.check, hd, if_neg Bool.false_ne_true, ← hd]
      exact ih.2 hd
  rw [Operation.perform_runDeferred, hw.deferred]
  exact (hchecks h.checks).1

theorem drainOutbox (hw : P.Runs S seen told h w) :
    P.Runs S seen told h.collect (Operation.drainOutbox.perform S P.now w) :=
  ⟨hw.identity, hw.config, hw.sound, hw.policy, hw.ttl, hw.session, hw.deferred, .nil, hw.events⟩

end Runs

end Party

end Renewal

end Overlay
