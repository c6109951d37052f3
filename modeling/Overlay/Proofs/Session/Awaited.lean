import Overlay.Proofs.Session.Retained

/-!
# Agreements that are awaited

An agreement that is under negotiation waits for a sign that the other end has it too.  Nothing is promoted but
what was awaited (`unpromoted_disarmInbound`); and a message under an agreement that is awaited promotes it, and is
opened (`awaited_opens`).
-/

namespace Overlay

namespace Session

variable {s s' : Session} {id name : AgreementId} {g a : Agreement} {now : Nat}

def Unpromoted (s : Session) (id : AgreementId) : Prop := ∀ g, ¬ s.Promoted id g

theorem Within.unpromoted (h : s'.Within s) (hs : s.Unpromoted id) : s'.Unpromoted id :=
  fun g hg => hs g (h.promoted id g hg)

theorem Negotiated.unpromoted (h : s.Negotiated s') (hs : s.Unpromoted id) : s'.Unpromoted id := by
  intro g hg
  rw [Promoted, h.active, h.initialized] at hg
  exact hs g hg

theorem Unpromoted.promote (hs : s.Unpromoted id) (hsound : s.initialized.Sound) (hne : name ≠ id)
    (hg : g.id = some name) (now : Nat) : (s.promote name g now).Unpromoted id := by
  rintro a (⟨ha, hid⟩ | ⟨i, hi, hv⟩)
  · cases ha
    exact hne (Option.some.inj (hg.symm.trans hid))
  · exact hs a (Or.inr ⟨i, Cache.stored_of_insert hsound (Ne.symm hne) hi, hv⟩)

theorem Unpromoted.consult (hs : s.Unpromoted id) (hsound : s.initialized.Sound) (name : AgreementId)
    (now : Nat) : (s.consult name now).Unpromoted id := (Turn.within_consult hsound name now).unpromoted hs

theorem Unpromoted.drop (hs : s.Unpromoted id) (hsound : s.initialized.Sound) {active : AgreementSlot}
    (hactive : ∀ g, active = some g → s.active = some g) (o : Option AgreementId) :
    (s.drop active o).Unpromoted id := by
  rintro a (⟨ha, hid⟩ | ⟨i, hi, hv⟩)
  · exact hs a (Or.inl ⟨hactive a ha, hid⟩)
  · exact hs a (Or.inr ⟨i, Turn.stored_discard hsound hi, hv⟩)

theorem Unpromoted.peek (hs : s.Unpromoted id) (hsound : s.initialized.Sound) (now : Nat) :
    s.initialized.peek id now = none := by
  rw [Cache.peek_stored hsound]
  cases hi : s.initialized.stored id with
  | none => rfl
  | some i => exact absurd (Or.inr ⟨i, hi, rfl⟩) (hs i.value)

/-- A session in which no agreement of a name is promoted, and what is under negotiation has no name yet. -/
structure Untold (s : Session) (id : AgreementId) : Prop where
  sound : s.initialized.Sound
  inactive : s.inactiveId = none
  unpromoted : s.Unpromoted id

end Session

namespace Turn

open Session

variable {x : Context} {t t' : Turn} {m : ArmedMessage} {c : ArmConfig} {id name : AgreementId}
  {g : Agreement}

/-! ### What is promoted was awaited -/

theorem unpromoted_promote (hs : t.session.Unpromoted id) (hsound : t.session.initialized.Sound)
    (h : t.session.inactiveId = some id → (t.promote x name).2.session.inactive ≠ none) :
    (t.promote x name).2.session.Unpromoted id := by
  rcases promote_cases x name t with ⟨-, ht⟩ | ⟨g, hg, hi, ht⟩
  · rw [ht]
    exact hs
  · have hne : name ≠ id := by
      rintro rfl
      refine h (by rw [inactiveId, hg]; exact hi) ?_
      rw [ht]
      rfl
    rw [ht]
    exact hs.promote (g := x.dated g) hsound hne hi x.now

theorem unpromoted_checkForRenew (hs : t.session.Unpromoted id) (hsound : t.session.initialized.Sound) :
    (t.checkForRenew x).2.session.Unpromoted id := by
  rcases session_checkForRenew x t with hn | ⟨a, -, -, ht⟩
  · exact hn.unpromoted hs
  · rw [ht]
    exact hs.drop hsound (fun _ h => by cases h) a.id

theorem unpromoted_opening {r : Except ArmError (ArmMessage × Bool)} (ho : Opening x m t r t')
    (hs : t.session.Unpromoted id) (hsound : t.session.initialized.Sound)
    (h : t.session.inactiveId = some id → t'.session.inactive ≠ none) : t'.session.Unpromoted id := by
  have hconsult := hs.consult hsound m.agreementId x.now
  have hafter := hsound.get m.agreementId x.now
  rcases session_opening ho with hsame | hsame | ⟨a, -, -, -, hsame⟩ | ⟨g, hg, hi, hsame⟩ <;> rw [hsame]
  · exact hs
  · exact hconsult
  · exact hconsult.drop hafter (fun _ hb => (Option.filter_eq_some_iff.1 hb).1) _
  · have hne : m.agreementId ≠ id := fun he => h (by rw [inactiveId, hg, ← he]; exact hi) (by rw [hsame]; rfl)
    exact (hconsult.promote (g := x.dated g) hafter hne hi x.now).consult (hafter.insert _ _ _) _ _

/-- **Nothing is promoted but what was awaited.**  A received message promotes an agreement of a name only by
moving it out of negotiation. -/
theorem unpromoted_disarmInbound (hs : t.session.Unpromoted id) (hsound : t.session.initialized.Sound)
    (h : t.session.inactiveId = some id → (t.disarmInbound x m).2.session.inactive ≠ none) :
    (t.disarmInbound x m).2.session.Unpromoted id := by
  obtain ⟨t₁, hsession, hdisarming⟩ := disarming_disarmInbound hsound x m
  rw [← hsession] at hs hsound h
  refine hdisarming.session (Q := fun s => s.Unpromoted id) ?_ ?_ ?_
  · intro r₁ t₂ ho hstill _
    exact unpromoted_opening ho hs hsound fun hid hnone => h hid (hstill hnone)
  · intro _ hn
    exact hn.unpromoted hs
  · intro r₁ t₂ name ho h₂ hafter hbefore
    refine unpromoted_promote h₂ (sound_opening ho hsound).1 ?_
    intro hid
    rw [← hafter]
    exact h (hbefore id hid)

/-- Names come from what is heard. -/
theorem Move.untold (hm : Move x .silence t t') (h : t.session.Untold id) : t'.session.Untold id := by
  have hsound := hm.sound h.sound
  cases hm with
  | offer hn => exact ⟨hsound, rfl, h.unpromoted⟩
  | bond a key b hk ha hb => exact hk.elim
  | promote a name hid ha hi => exact hid.elim
  | consult name => exact ⟨hsound, h.inactive, (within_consult h.sound name x.now).unpromoted h.unpromoted⟩
  | evict name =>
    refine ⟨hsound, ?_, (within_evict x h.sound name).unpromoted h.unpromoted⟩
    rw [session_evictAgreement]
    exact h.inactive
  | retire o =>
    refine ⟨hsound, ?_, (within_drop x h.sound (fun _ h => by cases h) o).unpromoted h.unpromoted⟩
    rw [resumeLongTime_session]
    exact h.inactive
  | _ => exact ⟨hsound, h.inactive, h.unpromoted⟩

theorem Moves.untold (hm : Moves x .silence t t') (h : t.session.Untold id) : t'.session.Untold id := by
  induction hm with
  | refl => exact h
  | tail _ hm ih => exact hm.untold ih

/-! ### What is awaited is opened -/

theorem opening_awaited {r : Except ArmError (ArmMessage × Bool)} {b : Bond} {content : ArmMessage}
    (ho : Opening x m t r t') (hs : t.session.Furnished c) (hS : x.suite.Opens)
    (hg : t.session.inactive = some g) (hb : g.bond = some b) (hfresh : t.session.Unpromoted b.id)
    (hlong : t.session.longTimeId ≠ b.id) (hlasts : c.Lasts x.now x.now)
    (hid : m.agreementId = b.id)
    (hm : x.suite.encrypt b.pair.rx m.nonce (associatedData x.peer x.own.publicKey m.agreementId)
      content.encode = some m.ciphertext) : r = .ok (content, false) := by
  have hne : m.agreementId ≠ t.session.longTimeId := fun he => hlong (he.symm.trans hid)
  have hmissing : t.session.initialized.peek m.agreementId x.now = none := hid ▸ hfresh.peek hs.sound x.now
  have hi : g.id = some m.agreementId := by
    rw [Agreement.id, hb, hid]
    rfl
  have hp : t.session.opener? x.now m.agreementId = some b.pair := by
    rw [opener?_awaited hne hmissing hg hi, Agreement.pair, hb]
    rfl
  rw [opening_opener ho hs hp (fun _ => hlasts.keeps) (openMessage_sealed hS hm), decide_eq_false hne]

/-- **A message under an agreement that is awaited is opened**: it promotes the agreement. -/
theorem awaited_opens {b : Bond} {content : ArmMessage} (hs : t.session.Furnished c) (hS : x.suite.Opens)
    (hg : t.session.inactive = some g) (hb : g.bond = some b) (hfresh : t.session.Unpromoted b.id)
    (hlong : t.session.longTimeId ≠ b.id) (hlasts : c.Lasts x.now x.now)
    (hid : m.agreementId = b.id)
    (hm : x.suite.encrypt b.pair.rx m.nonce (associatedData x.peer x.own.publicKey m.agreementId)
      content.encode = some m.ciphertext) : (t.disarmInbound x m).1 = .ok (disarmed content) := by
  obtain ⟨t₁, hsession, hdisarming⟩ := disarming_disarmInbound hs.sound x m
  rw [← hsession] at hs hg hfresh hlong
  refine disarmed_of_opening hdisarming (fun he => hlong (he.symm.trans hid)) ?_
  exact fun r t' ho => opening_awaited ho hs hS hg hb hfresh hlong hlasts hid hm

end Turn

end Overlay
