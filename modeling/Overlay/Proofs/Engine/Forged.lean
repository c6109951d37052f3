import Overlay.Proofs.Engine.Live
import Overlay.Proofs.Session.Opener

/-!
# Forged messages

A message that cannot be decrypted should leave no trace.  It leaves none (`Session.Unmoved`) where the
agreement that it names is the long-time one or one kept for decryption: the message is opened before
anything is done about it.  The agreement under negotiation, however, is promoted before the message under its
name is opened, so anyone who knows that name can have it promoted.  `unmoved_iff` says that this is the one
exception.

Only the cipher refuses a message in this way: the work on the content of a message that was opened fails
for other reasons (`handle_ne_decryptionFailed`).
-/

namespace Overlay

/-! ### What a session shows -/

/-- A session looks the same as another one, from a moment on. -/
structure Session.Unmoved (now : Nat) (s s' : Session) : Prop where
  active : s'.active = s.active
  inactive : s'.inactive = s.inactive
  state : s'.state = s.state
  lastRenewAttemptAt : s'.lastRenewAttemptAt = s.lastRenewAttemptAt
  live : ∀ id moment, now ≤ moment → s'.initialized.peek id moment = s.initialized.peek id moment

/-- An agreement has gone from negotiation to use. -/
structure Session.Promotes (x : Context) (id : AgreementId) (g : Agreement) (s s' : Session) : Prop where
  was : s.inactive = some g
  inactive : s'.inactive = none
  active : s'.active = some (x.dated g)
  state : s'.state = .forwardSecrecy
  lastRenewAttemptAt : s'.lastRenewAttemptAt = some x.now
  kept : s'.initialized.peek id x.now = some (x.dated g)

theorem Session.Promotes.not_unmoved {x : Context} {id : AgreementId} {g : Agreement} {s s' : Session}
    {now : Nat} (h : Session.Promotes x id g s s') : ¬ s.Unmoved now s' := by
  intro hu
  have := hu.inactive
  rw [h.was, h.inactive] at this
  cases this

theorem Session.Unmoved.refl (now : Nat) (s : Session) : s.Unmoved now s :=
  ⟨rfl, rfl, rfl, rfl, fun _ _ _ => rfl⟩

theorem Session.Furnished.unmoved_consult {c : ArmConfig} {s : Session} (hs : s.Furnished c)
    (id : AgreementId) (now : Nat) : s.Unmoved now (s.consult id now) :=
  ⟨rfl, rfl, rfl, rfl, fun _ _ hle => Cache.peek_get hs.sound hs.policy hle _ _⟩

namespace Turn

variable {x : Context} {t : Turn} {m : ArmedMessage} {e : ArmError}

/-! ### Why operations fail -/

theorem sealLongTime_error {content : ArmMessage} (h : (t.sealLongTime x content).1 = .error e) :
    e = .crypto .encryptionFailed := by
  rw [sealLongTime, sealMessage_fst] at h
  cases hc : x.suite.encrypt t.session.longTimePair.tx t.entropy.drawNonce.1
      (associatedData x.own.publicKey x.peer t.session.longTimeId) content.encode with
  | none =>
    rw [hc] at h
    cases h
    rfl
  | some ciphertext =>
    rw [hc] at h
    cases h

theorem sendKeyExchange_error {key : PublicKey} (h : (t.sendKeyExchange x key).1 = .error e) :
    e = .crypto .encryptionFailed := by
  unfold sendKeyExchange at h
  cases hr : t.sealLongTime x (.keyExchange key) with
  | mk result t' =>
    rw [hr] at h
    cases result with
    | ok m => cases h
    | error e' =>
      cases h
      exact sealLongTime_error (congrArg Prod.fst hr)

theorem doKeyExchange_error (h : (t.doKeyExchange x).1 = .error e) : e = .crypto .encryptionFailed := by
  unfold doKeyExchange at h
  simp only at h
  split at h
  · exact sendKeyExchange_error h
  · cases h

theorem sendAck_error (h : (t.sendAck x).1 = .error e) :
    e = .noInactiveAgreement ∨ e = .crypto .encryptionFailed := by
  unfold sendAck at h
  cases hid : t.session.inactiveId with
  | none =>
    rw [hid] at h
    cases h
    exact Or.inl rfl
  | some id =>
    rw [hid] at h
    simp only at h
    cases hr : t.sealLongTime x (.acknowledgement id) with
    | mk result t' =>
      rw [hr] at h
      cases result with
      | ok m => cases h
      | error e' =>
        cases h
        exact Or.inr (sealLongTime_error (congrArg Prod.fst hr))

theorem bondWith_error {S : Suite} {own : KeyPair} {key : PublicKey}
    (h : Agreement.bondWith S own key = .error e) : e ≠ .crypto .decryptionFailed := by
  unfold Agreement.bondWith Suite.agreementId at h
  by_cases hk : own.publicKey = key
  · rw [if_pos hk] at h
    cases h
    exact nofun
  · rw [if_neg hk, Suite.deriveSessionPair, if_neg hk] at h
    simp only at h
    split at h
    · rename_i hd
      split at hd
      · cases hd
        cases h
        exact nofun
      · split at hd <;> cases hd
    · cases h

theorem bondInactive_error {key : PublicKey} (h : (t.bondInactive x key).1 = .error e) :
    e ≠ .crypto .decryptionFailed := by
  rcases bondInactive_cases x key t with ⟨-, hr⟩ | ⟨a, err, -, hb, hr⟩ | ⟨a, b, -, -, hr⟩
  · rw [hr] at h
    cases h
  · rw [hr] at h
    cases h
    exact bondWith_error hb
  · rw [hr] at h
    cases h

theorem receivedKeyExchange_error {key : PublicKey} (h : (t.receivedKeyExchange x key).1 = .error e) :
    e ≠ .crypto .decryptionFailed := by
  unfold receivedKeyExchange at h
  split at h
  · cases h
    exact nofun
  have hack : ∀ t : Turn, (t.sendAck x).1 = .error e → e ≠ .crypto .decryptionFailed := by
    intro t ht
    rcases sendAck_error ht with rfl | rfl <;> exact nofun
  simp only at h
  cases hr : (t.ensureInactive x).2.bondInactive x key with
  | mk result t' =>
    rw [hr] at h
    cases result with
    | error e' =>
      cases h
      exact bondInactive_error (congrArg Prod.fst hr)
    | ok u =>
      simp only at h
      split at h
      · cases hd : t'.doKeyExchange x with
        | mk result t'' =>
          rw [hd] at h
          cases result with
          | error e' =>
            cases h
            rw [doKeyExchange_error (congrArg Prod.fst hd)]
            exact nofun
          | ok u => exact hack t'' h
      · exact hack t' h

theorem handle_ne_decryptionFailed (x : Context) (content : ArmMessage) (longTime : Bool) (t : Turn) :
    (t.handle x content longTime).1 ≠ .error (.crypto .decryptionFailed) := by
  intro h
  cases content with
  | application payload => cases h
  | keyExchange key =>
    simp only [handle] at h
    split at h
    · cases hr : (t.receivedKeyExchange x key).1 with
      | ok u =>
        rw [hr] at h
        cases h
      | error e =>
        rw [hr] at h
        cases h
        exact receivedKeyExchange_error hr rfl
    · cases h
  | acknowledgement id =>
    simp only [handle] at h
    split at h <;> cases h

/-! ### A message that cannot be decrypted -/

theorem opening_of_forged (hs : t.session.initialized.Sound)
    (h : (t.disarmInbound x m).1 = .error (.crypto .decryptionFailed)) :
    Opening x m (if x.config.forwardSecrecy then t.defer .checkRenewal else t)
      (.error (.crypto .decryptionFailed)) (t.disarmInbound x m).2 := by
  have hsession := session_deferIf x.config.forwardSecrecy .checkRenewal t
  unfold disarmInbound at h ⊢
  generalize (if x.config.forwardSecrecy then t.defer .checkRenewal else t) = t₁ at h hsession ⊢
  have hopening := opening_openInbound (t := t₁) (by rw [hsession]; exact hs) x m
  simp only at h ⊢
  cases hr : t₁.openInbound x m with
  | mk result t' =>
    rw [hr] at h hopening
    cases result with
    | error e =>
      cases h
      exact hopening
    | ok opened => exact absurd h (handle_ne_decryptionFailed x opened.1 opened.2 t')

theorem promotes_consult {c : ArmConfig} {s : Session} {id : AgreementId} {g a : Agreement}
    (hs : s.Furnished c) (hg : s.inactive = some g)
    (ha : ((s.consult id x.now).promote id (x.dated g) x.now).initialized.peek id x.now = some a) :
    Session.Promotes x id g s
      (((s.consult id x.now).promote id (x.dated g) x.now).consult id x.now) := by
  have hpromoted := (hs.consult id x.now).promote id (x.dated g) x.now
  refine ⟨hg, rfl, rfl, rfl, rfl, ?_⟩
  rw [(hpromoted.unmoved_consult id x.now).live id x.now (Nat.le_refl _), ha]
  -- What is found is what was put there.
  rw [Cache.peek_stored hpromoted.sound, (hs.consult id x.now).stored_promote, Option.bind_some] at ha
  split at ha
  · cases ha
  · exact ha.symm

/-- A message that cannot be decrypted leaves the session as it looked, unless its name calls for the
agreement under negotiation, which then is promoted. -/
theorem forged_disarmInbound {c : ArmConfig} (hs : t.session.Furnished c)
    (h : (t.disarmInbound x m).1 = .error (.crypto .decryptionFailed)) :
    (t.disarmInbound x m).2.outbox = t.outbox ∧
      ((¬ t.session.Awaits m.agreementId x.now ∧
          t.session.Unmoved x.now (t.disarmInbound x m).2.session ∧
          (t.disarmInbound x m).2.events = t.events) ∨
        (t.session.Awaits m.agreementId x.now ∧
          ∃ g, Session.Promotes x m.agreementId g t.session (t.disarmInbound x m).2.session ∧
          (t.disarmInbound x m).2.events =
            t.events ++ changed x.peer t.session.state .forwardSecrecy)) := by
  have hopening := opening_of_forged hs.sound h
  generalize (t.disarmInbound x m).2 = t' at hopening ⊢
  generalize ht : (if x.config.forwardSecrecy then t.defer .checkRenewal else t) = t₁ at hopening
  have hsession : t₁.session = t.session := ht ▸ session_deferIf _ _ t
  have hqueues : t₁.outbox = t.outbox ∧ t₁.events = t.events := by
    rw [← ht]
    split <;> exact ⟨rfl, rfl⟩
  rw [← hsession, ← hqueues.1, ← hqueues.2]
  rw [← hsession] at hs
  generalize hr : (.error (.crypto .decryptionFailed) : Except ArmError (ArmMessage × Bool)) = result at hopening
  cases hopening with
  | longTime hid => exact ⟨rfl, Or.inl ⟨fun ha => ha.2.1 hid, .refl _ _, rfl⟩⟩
  | kept a pair hid ha hp hstale =>
    refine ⟨rfl, Or.inl ⟨?_, hs.unmoved_consult m.agreementId x.now, rfl⟩⟩
    intro hawaits
    rw [hawaits.2.2] at ha
    cases ha
  | last a pair content hid ha hp hstale ho => cases hr
  | blank a hid ha hp => cases hr
  | promoted g s hid ha hg hi hs' =>
    subst hs'
    have hawaits : t₁.session.Awaits m.agreementId x.now :=
      ⟨by rw [Session.inactiveId, hg]; exact hi, hid, ha⟩
    refine ⟨rfl, Or.inr ⟨hawaits, g, ?_, rfl⟩⟩
    cases hk : ((t₁.session.consult m.agreementId x.now).promote m.agreementId (x.dated g)
        x.now).initialized.peek m.agreementId x.now with
    | none =>
      rw [hk] at hr
      cases hr
    | some a => exact promotes_consult hs hg hk
  | unknown hid ha hi => cases hr

end Turn

/-! ### An engine -/

namespace Endpoint

/-- **A forged message leaves no trace, with one exception.**  In every state of a run, a message from a
peer with a live session that cannot be decrypted adds nothing to the outbox; and it leaves the session as it
looked and announces nothing exactly if its name does not call for the agreement under negotiation.  If it does,
that agreement is promoted. -/
theorem unmoved_iff (S : Suite) (identity : KeyPair) (config : ArmConfig) (entropy : Entropy)
    (ops : List (Nat × Operation)) (now : Nat) (p : PublicKey) (m : ArmedMessage) (s : Session)
    (hs : ((start identity config entropy).run S ops).engine.session p now = some s)
    (hforged : (((start identity config entropy).run S ops).engine.disarmInbound S now p m
      ((start identity config entropy).run S ops).entropy).1 = .error (.crypto .decryptionFailed)) :
    let w := (start identity config entropy).run S ops
    let w' := (Operation.disarmInbound p m).perform S now w
    w'.engine.outbox = w.engine.outbox ∧ ∃ s', w'.engine.session p now = some s' ∧
      ((s.Unmoved now s' ∧ w'.engine.events = w.engine.events) ↔ ¬ s.Awaits m.agreementId now) ∧
      (s.Awaits m.agreementId now → ∃ g,
        Session.Promotes (w.engine.context S now p) m.agreementId g s s' ∧
        w'.engine.events = w.engine.events ++ changed p s.state .forwardSecrecy) := by
  have hw := sound_run (S := S) (sound_start identity config entropy) ops
  have hfurnished := furnished_run S identity config entropy ops
  generalize (start identity config entropy).run S ops = w at hs hforged hw hfurnished ⊢
  have hs' := hfurnished p s (Engine.held_live hw hs)
  rw [Engine.disarmInbound, Engine.converse_live hw hs] at hforged
  obtain ⟨hout, hcases⟩ := Turn.forged_disarmInbound (t := { session := s, entropy := w.entropy }) hs' hforged
  have hperform : (Operation.disarmInbound p m).perform S now w =
      w.after (w.engine.disarmInbound S now p m w.entropy).2 := rfl
  have hsession := Engine.session_absorb hw hs
    (Turn.disarmInbound (w.engine.context S now p) m { session := s, entropy := w.entropy }).2
  intro w₀ w'
  have hw' : w' = w.after (w.engine.disarmInbound S now p m w.entropy).2 := rfl
  rw [Engine.disarmInbound, Engine.converse_live hw hs] at hw'
  generalize Turn.disarmInbound (w.engine.context S now p) m { session := s, entropy := w.entropy } = r
    at hout hcases hsession hw'
  obtain ⟨result, t⟩ := r
  rw [hw']
  refine ⟨?_, t.session, hsession, ?_⟩
  · show w.engine.outbox ++ t.outbox.map _ = w.engine.outbox
    rw [hout]
    exact List.append_nil _
  rcases hcases with ⟨hawaits, hunmoved, ht⟩ | ⟨hawaits, g, hpromotes, ht⟩
  · refine ⟨⟨fun _ => hawaits, fun _ => ⟨hunmoved, ?_⟩⟩, fun ha => absurd ha hawaits⟩
    show w.engine.events ++ t.events = w.engine.events
    rw [ht]
    exact List.append_nil _
  · refine ⟨⟨fun h => absurd h.1 hpromotes.not_unmoved, fun h => absurd hawaits h⟩,
      fun _ => ⟨g, hpromotes, ?_⟩⟩
    show w.engine.events ++ t.events = _
    rw [ht]
    rfl

def offer : List (Nat × Operation) :=
  [(1, .receivedKeyExchange partner (Textbook.suite.publicOf ⟨Textbook.remainder 13⟩))]

/-- A message that nobody sealed, under the name of that agreement. -/
def impostor : ArmedMessage where
  agreementId := (Textbook.suite.agreementId (Textbook.suite.publicOf ⟨Textbook.remainder 11⟩)
    (Textbook.suite.publicOf ⟨Textbook.remainder 13⟩)).toOption.getD default
  nonce := .filled 24 0
  ciphertext := []

/-- The impostor's message is refused, and has the agreement promoted. -/
theorem unmoved_iff_impostor : ∃ s s',
    (newcomer.run Textbook.suite offer).engine.session partner 2 = some s ∧
      ((newcomer.run Textbook.suite offer).engine.disarmInbound Textbook.suite 2 partner impostor
        (newcomer.run Textbook.suite offer).entropy).1 = .error (.crypto .decryptionFailed) ∧
      s.Awaits impostor.agreementId 2 ∧
      ((Operation.disarmInbound partner impostor).perform Textbook.suite 2
        (newcomer.run Textbook.suite offer)).engine.session partner 2 = some s' ∧ ¬ s.Unmoved 2 s' := by
  have hsome : ((newcomer.run Textbook.suite offer).engine.session partner 2).any
      fun s => s.Awaits impostor.agreementId 2 := by decide +kernel
  have hforged : ((newcomer.run Textbook.suite offer).engine.disarmInbound Textbook.suite 2 partner impostor
      (newcomer.run Textbook.suite offer).entropy).1 = .error (.crypto .decryptionFailed) := by
    decide +kernel
  obtain ⟨s, hs, hawaits⟩ := (Option.any_eq_true _ _).1 hsome
  obtain ⟨-, s', hs', -, hpromotes⟩ := unmoved_iff Textbook.suite _ {} _ offer 2 partner impostor s hs hforged
  obtain ⟨g, hg, -⟩ := hpromotes (of_decide_eq_true hawaits)
  exact ⟨s, s', hs, hforged, of_decide_eq_true hawaits, hs', hg.not_unmoved⟩

end Endpoint

end Overlay
