import Overlay.Proofs.Session.Retained

/-!
# Agreements that end

A session `Limits` an agreement that was promoted at some moment at the latest: where it is active it has a
deadline, which is at most its lifetime later, and where it is kept for decryption it was put there by then.  A
turn keeps this unless it promotes the agreement once more, after that moment (`limits_disarmInbound`,
`limits_promote`, `limits_checkForRenew`).  In such a session nothing is encrypted under the agreement when its
lifetime is over (`armed_limited`), and nothing is opened under it when its retention is (`disarmed_limited`).
-/

namespace Overlay

theorem ArmConfig.bound_retention {c : ArmConfig} (h : c.forwardSecrecy = true) :
    c.retention.bound? = some c.retention.millis := by
  rw [ArmConfig.forwardSecrecy, Bool.and_eq_true, Bool.not_eq_true'] at h
  have hzero : c.retention.isZero = false := by
    rw [ArmConfig.retention, if_neg (by simp [h.2]), Duration.add, Duration.ofNanos]
    have hlife := h.2
    simp only [Duration.isZero, decide_eq_false_iff_not] at hlife ⊢
    split
    · simp only
      omega
    · simp [Duration.longest]
  rw [Duration.bound?, hzero]
  rfl

theorem ArmConfig.lasts_iff {c : ArmConfig} (h : c.forwardSecrecy = true) {start now : Nat} :
    c.Lasts start now ↔ now - start < c.retention.millis := by
  refine ⟨fun hlasts => hlasts _ (ArmConfig.bound_retention h), fun hlt ttl hb => ?_⟩
  rw [ArmConfig.bound_retention h, Option.some.injEq] at hb
  exact hb ▸ hlt

namespace Session

/-- An agreement of a given name was promoted at `start` at the latest, if at all. -/
structure Limits (c : ArmConfig) (id : AgreementId) (start : Nat) (s : Session) : Prop where
  furnished : s.Furnished c
  active : ∀ g, s.active = some g → g.id = some id →
    ∃ deadline ≤ start + c.expireAfter.millis, g.staleAt = some deadline
  kept : ∀ i, s.initialized.stored id = some i → i.touchedAt ≤ start

namespace Limits

variable {c : ArmConfig} {id name : AgreementId} {start now : Nat} {s s' : Session} {g : Agreement}

/-! ### Changes of a session -/

theorem negotiated (h : s.Limits c id start) (hn : s.Negotiated s') : s'.Limits c id start where
  furnished := ⟨hn.initialized ▸ h.furnished.sound, hn.initialized ▸ h.furnished.bounds⟩
  active := hn.active ▸ h.active
  kept := hn.initialized ▸ h.kept

theorem consult (h : s.Limits c id start) (name : AgreementId) (now : Nat) :
    (s.consult name now).Limits c id start := by
  refine ⟨h.furnished.consult name now, h.active, ?_⟩
  intro i hi
  change (s.initialized.get name now).2.stored id = some i at hi
  rw [Cache.stored_get h.furnished.sound] at hi
  split at hi
  · rename_i hid
    subst hid
    obtain ⟨j, hj, hv⟩ := Option.bind_eq_some_iff.1 hi
    -- A look-up does not count as a use that prolongs the age.
    rw [Cache.used_of_afterWrite h.furnished.policy] at hv
    split at hv
    · cases hv
    · cases hv
      exact h.kept _ hj
  · exact h.kept i hi

theorem promote {x : Context} (h : s.Limits c id start) (hx : x.config = c) (hg : g.id = some name)
    (hstart : name = id → x.now ≤ start) : (s.promote name (x.dated g) x.now).Limits c id start := by
  refine ⟨h.furnished.promote name _ x.now, ?_, ?_⟩
  · intro a ha hid
    cases ha
    have hnow := hstart (Option.some.inj (hg.symm.trans hid))
    refine ⟨after x.now c.expireAfter.millis, ?_, by rw [← hx]; rfl⟩
    rw [after]
    omega
  · intro i hi
    by_cases hid : id = name
    · subst hid
      rw [h.furnished.stored_promote] at hi
      cases hi
      exact hstart rfl
    · exact h.kept i (Cache.stored_of_insert h.furnished.sound hid hi)

theorem drop (h : s.Limits c id start) {active : AgreementSlot} (ha : ∀ a, active = some a → s.active = some a)
    (o : Option AgreementId) : (s.drop active o).Limits c id start where
  furnished := h.furnished.drop active o
  active g hg := h.active g (ha g hg)
  kept i hi := h.kept i (Turn.stored_discard h.furnished.sound hi)

/-! ### What a limited agreement is good for -/

theorem found (h : s.Limits c id start) {ttl : Nat} (hb : c.retention.bound? = some ttl)
    (hfound : s.initialized.peek id now = some g) : now < start + ttl := by
  rw [Cache.peek_stored h.furnished.sound] at hfound
  obtain ⟨i, hi, hv⟩ := Option.bind_eq_some_iff.1 hfound
  have htouched := h.kept i hi
  split at hv
  · cases hv
  · rename_i hover
    rw [Cache.overdue_eq, h.furnished.ttl, hb, Option.any_some, decide_eq_true_eq] at hover
    omega

end Limits

end Session

namespace Turn

open Session

variable {x : Context} {t t' : Turn} {m : ArmedMessage} {c : ArmConfig} {id name : AgreementId} {start : Nat}

/-! ### Operations -/

theorem limits_promote (h : t.session.Limits c id start) (hx : x.config = c) (name : AgreementId)
    (hstart : t.session.inactiveId = some id → (t.promote x name).2.session.inactive = none →
      x.now ≤ start) : (t.promote x name).2.session.Limits c id start := by
  rcases promote_cases x name t with ⟨-, ht⟩ | ⟨g, hg, hi, ht⟩
  · rw [ht]
    exact h
  · rw [ht] at hstart ⊢
    refine h.promote hx hi ?_
    rintro rfl
    exact hstart (by rw [inactiveId, hg]; exact hi) rfl

theorem limits_checkForRenew (h : t.session.Limits c id start) :
    (t.checkForRenew x).2.session.Limits c id start := by
  rcases session_checkForRenew x t with hn | ⟨a, -, -, ht⟩
  · exact h.negotiated hn
  · rw [ht]
    refine h.drop ?_ a.id
    intro b hb
    cases hb

theorem limits_opening {r : Except ArmError (ArmMessage × Bool)} (ho : Opening x m t r t')
    (h : t.session.Limits c id start) (hx : x.config = c)
    (hstart : t.session.inactiveId = some id → t'.session.inactive = none → x.now ≤ start) :
    t'.session.Limits c id start := by
  have hconsult := h.consult m.agreementId x.now
  rcases session_opening ho with hs | hs | ⟨a, -, -, -, hs⟩ | ⟨g, hg, hi, hs⟩ <;> rw [hs]
  · exact h
  · exact hconsult
  · exact hconsult.drop (fun b hb => (Option.filter_eq_some_iff.1 hb).1) _
  · refine (hconsult.promote hx hi ?_).consult m.agreementId x.now
    intro hname
    exact hstart (by rw [inactiveId, hg, ← hname]; exact hi) (by rw [hs]; rfl)

theorem limits_disarmInbound (h : t.session.Limits c id start) (hx : x.config = c)
    (hstart : t.session.inactiveId = some id → (t.disarmInbound x m).2.session.inactive = none →
      x.now ≤ start) : (t.disarmInbound x m).2.session.Limits c id start := by
  obtain ⟨t₁, hsession, hdisarming⟩ := disarming_disarmInbound h.furnished.sound x m
  rw [← hsession] at h hstart
  refine hdisarming.session ?_ ?_ ?_
  · intro r₁ t₂ ho hstill _
    exact limits_opening ho h hx fun hid hnone => hstart hid (hstill hnone)
  · intro _ hn
    exact h.negotiated hn
  · intro r₁ t₂ name _ h₂ hafter hbefore
    exact limits_promote h₂ hx name fun hid hnone => hstart (hbefore id hid) (by rw [hafter]; exact hnone)

/-! ### Messages -/

/-- Nothing is encrypted under an agreement when its lifetime is over. -/
theorem armed_limited {payload : Bytes} (h : t.session.Limits c id start) (hlong : t.session.longTimeId ≠ id)
    (hm : (t.armOutbound x payload).1 = .ok m) (hid : m.agreementId = id) :
    x.now < start + c.expireAfter.millis := by
  simp only [armOutbound, session_deferIf] at hm
  cases hb : activeBond x t.session with
  | some bond =>
    simp only [hb] at hm
    obtain ⟨g, hg, hgb⟩ := Option.bind_eq_some_iff.1 hb
    obtain ⟨hactive, hfresh⟩ := Option.filter_eq_some_iff.1 hg
    have hname : g.id = some id := by
      rw [Agreement.id, hgb, Option.map_some, ← (sealMessage_ok hm).name, hid]
    obtain ⟨deadline, hle, hstale⟩ := h.active g hactive hname
    rw [Agreement.isStale, hstale] at hfresh
    simp only [Option.any_some, Bool.not_eq_true', decide_eq_false_iff_not] at hfresh
    omega
  | none =>
    simp only [hb, sealLongTime, session_deferIf] at hm
    exact absurd ((sealMessage_ok hm).name.symm.trans hid) hlong

/-- Nothing is opened under an agreement when its retention is over. -/
theorem opened_limited {content : ArmMessage × Bool} {ttl : Nat} (h : t.session.Limits c id start)
    (hlong : t.session.longTimeId ≠ id) (hfresh : t.session.inactiveId ≠ some id)
    (hb : c.retention.bound? = some ttl) (hid : m.agreementId = id) (ho : Opening x m t (.ok content) t') :
    x.now < start + ttl := by
  subst hid
  generalize hr : (.ok content : Except ArmError (ArmMessage × Bool)) = r at ho
  cases ho with
  | longTime hid => exact absurd hid.symm hlong
  | kept a pair hid ha hp hs => exact h.found hb ha
  | last a pair content hid ha hp hs ho => exact h.found hb ha
  | blank a hid ha hp => cases hr
  | promoted g s hid ha hg hi hs => exact absurd (by rw [inactiveId, hg]; exact hi) hfresh
  | unknown hid ha hi => cases hr

theorem disarmed_limited {d : Disarmed} {ttl : Nat} (h : t.session.Limits c id start)
    (hlong : t.session.longTimeId ≠ id) (hfresh : t.session.inactiveId ≠ some id)
    (hb : c.retention.bound? = some ttl) (hid : m.agreementId = id)
    (hd : (t.disarmInbound x m).1 = .ok d) : x.now < start + ttl := by
  obtain ⟨t₁, hsession, hdisarming⟩ := disarming_disarmInbound h.furnished.sound x m
  rw [← hsession] at h hlong hfresh
  rw [hd] at hdisarming
  generalize hr : (.ok d : Except ArmError Disarmed) = r at hdisarming
  generalize (t.disarmInbound x m).2 = t' at hdisarming
  cases hdisarming with
  | failed e _ ho => cases hr
  | negotiated _ _ hlong' hn => exact absurd (hlong'.symm.trans hid) hlong
  | plain content longTime _ ho => exact opened_limited h hlong hfresh hb hid ho
  | promoted content longTime t₂ name ho => exact opened_limited h hlong hfresh hb hid ho

end Turn

end Overlay
