import Overlay.Proofs.Session.Opening

/-!
# Plain sessions

A session is plain if nothing but the long-time agreement has ever come of it: it has no other agreement, and what is
under negotiation has no name yet.  Whoever has heard no key and no name keeps a plain session plain, and has nothing
to tell (`Turn.Move.plain`).  A message does too if it opens to a payload under the long-time agreement
(`Turn.disarmInbound_payload`); and where short-lived agreements are disabled, any message at all
(`Turn.plain_disarmInbound`).
-/

namespace Overlay

/-- A session with the long-time agreement alone. -/
structure Session.Plain (s : Session) : Prop where
  state : s.state = .longTime
  active : s.active = none
  nameless : s.inactiveId = none
  kept : ∀ id, s.initialized.stored id = none
  sound : s.initialized.Sound

namespace Turn

variable {x : Context} {t t' : Turn} {m : ArmedMessage} {payload : Bytes}

theorem stored_get_empty {c : Cache AgreementId Agreement} (hc : c.Sound) (h : ∀ id, c.stored id = none)
    (now : Nat) (id id' : AgreementId) : (c.get id now).2.stored id' = none := by
  rw [Cache.stored_get hc, h id]
  split
  · rfl
  · exact h id'

theorem plain_resumeLongTime (h : t.session.Plain) : t.resumeLongTime x = t := by
  unfold resumeLongTime
  rw [if_neg]
  rw [h.state]
  exact fun hboth => by cases hboth.1

/-- Without a key or a name from the peer, a plain session stays plain, and nothing is told. -/
theorem Move.plain (hm : Move x .silence t t') (h : t.session.Plain) :
    t'.session.Plain ∧ t'.events = t.events := by
  cases hm with
  | defer work => exact ⟨h, rfl⟩
  | nonce => exact ⟨h, rfl⟩
  | offer hn => exact ⟨⟨h.state, h.active, rfl, h.kept, h.sound⟩, rfl⟩
  | post a m ha hm => exact ⟨h, rfl⟩
  | note exchange renewal => exact ⟨⟨h.state, h.active, h.nameless, h.kept, h.sound⟩, rfl⟩
  | bond a key b hk ha hb => exact hk.elim
  | promote a id hid ha hi => exact hid.elim
  | consult id =>
    exact ⟨⟨h.state, h.active, h.nameless, stored_get_empty h.sound h.kept x.now id, h.sound.get id x.now⟩, rfl⟩
  | evict id =>
    have hplain : ({ t.session with
        initialized := (t.session.initialized.remove id).2
        active := t.session.active.filter fun a => a.id ≠ some id } : Session).Plain := by
      refine ⟨h.state, ?_, h.nameless, ?_, h.sound.remove id⟩
      · show t.session.active.filter _ = none
        rw [h.active]
        rfl
      · intro id'
        show (t.session.initialized.remove id).2.stored id' = none
        rw [Cache.stored_remove h.sound, h.kept, ite_self]
    rw [evictAgreement, plain_resumeLongTime (t := t.withSession _) hplain]
    exact ⟨hplain, rfl⟩
  | retire id =>
    have hplain : ({ t.session with
        active := none
        initialized := discard t.session.initialized id } : Session).Plain := by
      refine ⟨h.state, rfl, h.nameless, ?_, sound_discard h.sound id⟩
      intro id'
      show (discard t.session.initialized id).stored id' = none
      cases hs : (discard t.session.initialized id).stored id' with
      | none => rfl
      | some i =>
        have hstored := stored_discard h.sound hs
        rw [h.kept] at hstored
        cases hstored
    rw [plain_resumeLongTime (t := t.withSession _) hplain]
    exact ⟨hplain, rfl⟩

theorem Moves.plain (hm : Moves x .silence t t') (h : t.session.Plain) :
    t'.session.Plain ∧ t'.events = t.events := by
  induction hm with
  | refl => exact ⟨h, rfl⟩
  | tail _ hm ih =>
    obtain ⟨hplain, hevents⟩ := hm.plain ih.1
    exact ⟨hplain, hevents.trans ih.2⟩

/-! ### Payloads -/

theorem armOutbound_sealed (h : t.session.active = none) (hm : (t.armOutbound x payload).1 = .ok m) :
    Sealed x t.session.longTimeId t.session.longTimePair (.application payload) m := by
  have hbond : activeBond x t.session = none := by
    rw [activeBond, h]
    rfl
  simp only [armOutbound, session_deferIf, hbond, sealLongTime] at hm
  exact sealMessage_ok hm

/-- Where short-lived agreements are disabled, encrypting a payload leaves nothing behind. -/
theorem armOutbound_passive (hfs : x.config.forwardSecrecy = false) (t : Turn) (payload : Bytes) :
    (t.armOutbound x payload).2.outbox = t.outbox ∧ (t.armOutbound x payload).2.deferred = t.deferred := by
  simp only [armOutbound, hfs, Bool.false_eq_true, if_false]
  split <;> exact ⟨rfl, rfl⟩

theorem disarmInbound_payload (hid : m.agreementId = t.session.longTimeId)
    (ho : openMessage x t.session.longTimePair m = .ok (.application payload)) :
    t.disarmInbound x m = (.ok (.application payload),
      if x.config.forwardSecrecy then t.defer .checkRenewal else t) := by
  have hopen : ∀ t' : Turn, t'.session = t.session →
      t'.openInbound x m = (.ok (.application payload, true), t') := by
    intro t' hs
    simp only [openInbound, hs]
    rw [if_pos hid, ho]
    rfl
  simp only [disarmInbound, hopen _ (session_deferIf _ _ t), handle]

/-- Where short-lived agreements are disabled, a message changes nothing of a plain session. -/
theorem plain_disarmInbound (hfs : x.config.forwardSecrecy = false) (h : t.session.Plain) (m : ArmedMessage) :
    (t.disarmInbound x m).2.session.Plain ∧ (t.disarmInbound x m).2.events = t.events ∧
      (t.disarmInbound x m).2.outbox = t.outbox ∧ (t.disarmInbound x m).2.deferred = t.deferred := by
  have hpeek : ∀ id, t.session.initialized.peek id x.now = none := by
    intro id
    rw [Cache.peek_stored h.sound, h.kept]
    rfl
  have hopen : (t.openInbound x m).2.session.Plain ∧ (t.openInbound x m).2.events = t.events ∧
      (t.openInbound x m).2.outbox = t.outbox ∧ (t.openInbound x m).2.deferred = t.deferred := by
    have ho := opening_openInbound h.sound x m
    generalize (t.openInbound x m).1 = r, (t.openInbound x m).2 = t' at ho
    have hconsult : (t.session.consult m.agreementId x.now).Plain :=
      ⟨h.state, h.active, h.nameless, stored_get_empty h.sound h.kept x.now _, h.sound.get _ _⟩
    cases ho with
    | longTime hid => exact ⟨h, rfl, rfl, rfl⟩
    | kept a pair hid ha hp hs =>
      rw [hpeek] at ha
      cases ha
    | last a pair content hid ha hp hs ho =>
      rw [hpeek] at ha
      cases ha
    | blank a hid ha hp =>
      rw [hpeek] at ha
      cases ha
    | promoted g s hid ha hg hi hs =>
      have hname : t.session.inactiveId = some m.agreementId := by rw [Session.inactiveId, hg]; exact hi
      rw [h.nameless] at hname
      cases hname
    | unknown hid ha hi =>
      rw [hfs]
      exact ⟨hconsult, rfl, rfl, rfl⟩
  have hhandle : ∀ content longTime, (handle x content longTime (t.openInbound x m).2).2 =
      (t.openInbound x m).2 := by
    intro content longTime
    cases content with
    | application payload => rfl
    | keyExchange key => simp [handle, hfs]
    | acknowledgement id => simp [handle, hfs]
  simp only [disarmInbound, hfs, Bool.false_eq_true, if_false]
  cases hr : t.openInbound x m with
  | mk result t₂ =>
    rw [hr] at hopen hhandle
    cases result with
    | error e => exact hopen
    | ok opened =>
      simp only
      rw [hhandle opened.1 opened.2]
      exact hopen

end Turn

end Overlay
