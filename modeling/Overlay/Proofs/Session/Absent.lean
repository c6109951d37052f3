import Overlay.Proofs.Session.Retained

/-!
# Agreements that are gone

Where a session keeps nothing under a name, only a promotion of that name changes this (`Session.Lacks`).  Of what it
keeps, a look-up takes away what is past its retention, and what is stale if a message was opened under it or a check for
renewal found it active (`Turn.taken_disarmInbound`, `Turn.taken_checkForRenew`).  Nothing else looks at the age of an
agreement.
-/

namespace Overlay

namespace Session

/-- A session keeps no agreement of a name, expired or not. -/
structure Lacks (c : ArmConfig) (id : AgreementId) (s : Session) : Prop where
  furnished : s.Furnished c
  stored : s.initialized.stored id = none

namespace Lacks

variable {c : ArmConfig} {id other : AgreementId} {s s' : Session} {now : Nat} {g : Agreement}

theorem negotiated (h : s.Lacks c id) (hn : s.Negotiated s') : s'.Lacks c id where
  furnished := ⟨hn.initialized ▸ h.furnished.sound, hn.initialized ▸ h.furnished.bounds⟩
  stored := hn.initialized ▸ h.stored

theorem consult (h : s.Lacks c id) (other : AgreementId) (now : Nat) : (s.consult other now).Lacks c id := by
  refine ⟨h.furnished.consult other now, ?_⟩
  show (s.initialized.get other now).2.stored id = none
  rw [Cache.stored_get h.furnished.sound]
  by_cases hid : id = other
  · rw [if_pos hid, ← hid, h.stored]
    rfl
  · rw [if_neg hid, h.stored]

theorem promote (h : s.Lacks c id) (hne : other ≠ id) (g : Agreement) (now : Nat) :
    (s.promote other g now).Lacks c id := by
  refine ⟨h.furnished.promote other g now, Option.eq_none_iff_forall_ne_some.2 fun i hi => ?_⟩
  have hbefore := Cache.stored_of_insert h.furnished.sound (Ne.symm hne) hi
  rw [h.stored] at hbefore
  cases hbefore

theorem drop (h : s.Lacks c id) (active : AgreementSlot) (o : Option AgreementId) : (s.drop active o).Lacks c id := by
  refine ⟨h.furnished.drop active o, Option.eq_none_iff_forall_ne_some.2 fun i hi => ?_⟩
  have hbefore := Turn.stored_discard h.furnished.sound hi
  rw [h.stored] at hbefore
  cases hbefore

end Lacks

variable {c : ArmConfig} {id : AgreementId} {s : Session} {now : Nat} {i : Item AgreementId Agreement}
  {few : List AgreementId}

theorem Furnished.lacks_drop (h : s.Furnished c) (active : AgreementSlot) (id : AgreementId) :
    (s.drop active (some id)).Lacks c id := by
  refine ⟨h.drop active (some id), ?_⟩
  show (s.initialized.remove id).2.stored id = none
  rw [Cache.stored_remove h.sound, if_pos rfl]

theorem Retains.peek_late (h : s.Retains c i few) (hlate : ¬ c.Lasts i.touchedAt now) :
    s.initialized.peek i.key now = none := by
  have hover : s.initialized.overdue i now = true := by
    obtain ⟨ttl, hlate⟩ := Classical.not_forall.1 hlate
    obtain ⟨hb, hlate⟩ := Classical.not_imp.1 hlate
    rw [Cache.overdue_eq, h.furnished.ttl, hb]
    exact decide_eq_true (Nat.le_of_not_lt hlate)
  rw [Cache.peek_stored h.sound, h.kept, Option.bind_some, hover]
  rfl

theorem Retains.lacks_consult (h : s.Retains c i few) (hlate : ¬ c.Lasts i.touchedAt now) :
    (s.consult i.key now).Lacks c i.key := by
  refine ⟨h.furnished.consult i.key now, ?_⟩
  have hpeek := h.peek_late hlate
  rw [Cache.peek_stored h.sound, h.kept, Option.bind_some] at hpeek
  show (s.initialized.get i.key now).2.stored i.key = none
  rw [Cache.stored_get h.sound, if_pos rfl, h.kept, Option.bind_some]
  split at hpeek
  · rename_i hover
    rw [if_pos hover]
  · cases hpeek

end Session

namespace Turn

open Session

variable {x : Context} {t t' : Turn} {m : ArmedMessage} {c : ArmConfig} {id : AgreementId}
  {i : Item AgreementId Agreement} {few : List AgreementId}

/-! ### What stays away -/

theorem lacks_promote (h : t.session.Lacks c id) (other : AgreementId)
    (hother : t.session.inactiveId = some other → (t.promote x other).2.session.inactive = none → other ≠ id) :
    (t.promote x other).2.session.Lacks c id := by
  rcases promote_cases x other t with ⟨-, ht⟩ | ⟨g, hg, hi, ht⟩
  · rw [ht]
    exact h
  · have hne := hother (by rw [inactiveId, hg]; exact hi) (by rw [ht]; rfl)
    rw [ht]
    exact h.promote hne (x.dated g) x.now

theorem lacks_checkForRenew (h : t.session.Lacks c id) : (t.checkForRenew x).2.session.Lacks c id := by
  rcases session_checkForRenew x t with hn | ⟨a, -, -, ht⟩
  · exact h.negotiated hn
  · rw [ht]
    exact h.drop none a.id

theorem lacks_opening {r : Except ArmError (ArmMessage × Bool)} (ho : Opening x m t r t') (h : t.session.Lacks c id)
    (hother : t.session.inactiveId = some m.agreementId → t'.session.inactive = none → m.agreementId ≠ id) :
    t'.session.Lacks c id := by
  have hconsult := h.consult m.agreementId x.now
  rcases session_opening ho with hs | hs | ⟨a, -, -, -, hs⟩ | ⟨g, hg, hi, hs⟩ <;> rw [hs]
  · exact h
  · exact hconsult
  · exact hconsult.drop _ _
  · have hne := hother (by rw [inactiveId, hg]; exact hi) (by rw [hs]; rfl)
    exact (hconsult.promote hne (x.dated g) x.now).consult m.agreementId x.now

/-- How a message is disarmed after it was opened does not bring an agreement back, unless it promotes one of that
name. -/
theorem lacks_disarming {r : Except ArmError Disarmed} (hd : Disarming x m t r t')
    (hopened : ∀ {r₁ t₁}, Opening x m t r₁ t₁ → (t₁.session.inactive = none → t'.session.inactive = none) →
      r₁.isOk = r.isOk → t₁.session.Lacks c id)
    (hnegotiated : m.agreementId = t.session.longTimeId → t.session.Lacks c id)
    (hother : ∀ other, t.session.inactiveId = some other → t'.session.inactive = none → other ≠ id) :
    t'.session.Lacks c id := by
  refine hd.session hopened (fun hid hn => (hnegotiated hid).negotiated hn) ?_
  intro r₁ t₁ other _ h₁ hafter hbefore
  exact lacks_promote h₁ other fun hid hnone => hother other (hbefore other hid) (by rw [hafter]; exact hnone)

theorem lacks_disarmInbound (h : t.session.Lacks c id)
    (hother : ∀ other, t.session.inactiveId = some other →
      (t.disarmInbound x m).2.session.inactive = none → other ≠ id) :
    (t.disarmInbound x m).2.session.Lacks c id := by
  obtain ⟨t₁, hsession, hdisarming⟩ := disarming_disarmInbound h.furnished.sound x m
  rw [← hsession] at h hother
  refine lacks_disarming hdisarming (fun ho hstill _ => ?_) (fun _ => h) hother
  exact lacks_opening ho h fun hid hnone => hother m.agreementId hid (hstill hnone)

/-! ### What goes -/

/-- A message takes away the agreement it is under, if that is past its retention, or if it is stale and the message is
opened. -/
theorem taken_disarmInbound (h : t.session.Retains c i few) (hid : m.agreementId = i.key)
    (hwhy : ¬ c.Lasts i.touchedAt x.now ∨ i.value.isStale x.now = true ∧ (t.disarmInbound x m).1.isOk = true)
    (hother : ∀ other, t.session.inactiveId = some other →
      (t.disarmInbound x m).2.session.inactive = none → other ≠ i.key) :
    (t.disarmInbound x m).2.session.Lacks c i.key := by
  obtain ⟨t₁, hsession, hdisarming⟩ := disarming_disarmInbound h.sound x m
  rw [← hsession] at h hother
  have hlong : m.agreementId ≠ t₁.session.longTimeId := fun heq => h.apart (heq.symm.trans hid)
  refine lacks_disarming hdisarming (fun {r₁ t₂} ho hstill hok => ?_) (fun heq => absurd heq hlong) hother
  -- What is found in time is the agreement itself, which is stale then.
  have hfound : ∀ a, t₁.session.initialized.peek m.agreementId x.now = some a →
      a.isStale x.now = true ∧ r₁.isOk = true := by
    intro a ha
    rw [hid] at ha
    rcases hwhy with hlate | ⟨hstale, hopened⟩
    · rw [h.peek_late hlate] at ha
      cases ha
    · by_cases hlasts : c.Lasts i.touchedAt x.now
      · rw [h.peek hlasts, Option.some.injEq] at ha
        exact ⟨ha ▸ hstale, hok.trans hopened⟩
      · rw [h.peek_late hlasts] at ha
        cases ha
  cases ho with
  | longTime heq => exact absurd heq hlong
  | kept a pair _ ha hp hs =>
    obtain ⟨hstale, hopened⟩ := hfound a ha
    rcases hs with hfresh | hfails
    · rw [hfresh] at hstale
      cases hstale
    · cases hopen : openMessage x pair m with
      | error e =>
        rw [hopen] at hopened
        cases hopened
      | ok content => exact absurd hopen (hfails content)
  | blank a _ ha hp => cases (hfound a ha).2
  | last a pair content _ ha hp hs ho =>
    rw [session_evictAgreement, hid]
    exact (h.furnished.consult i.key x.now).lacks_drop _ i.key
  | promoted g s _ ha hg hi hs =>
    subst hs
    exact absurd hid (hother m.agreementId (by rw [inactiveId, hg]; exact hi) (hstill rfl))
  | unknown _ ha hi =>
    rw [session_deferIf, withSession, hid]
    rw [hid] at ha
    refine h.lacks_consult fun hlasts => ?_
    rw [h.peek hlasts] at ha
    cases ha

/-- A check for renewal takes away the active agreement, if that is stale or past its retention. -/
theorem taken_checkForRenew (h : t.session.Retains c i few) (hid : t.session.active.bind (·.id) = some i.key)
    (hwhy : ¬ c.Lasts i.touchedAt x.now ∨ i.value.isStale x.now = true) :
    (t.checkForRenew x).2.session.Lacks c i.key := by
  obtain ⟨a, ha, hid⟩ := Option.bind_eq_some_iff.1 hid
  have hretired : (a.isStale x.now || !(a.id.any fun id => t.session.initialized.contains id x.now)) = true := by
    rcases hwhy with hlate | hstale
    · rw [hid, Option.any_some, Cache.contains, h.peek_late hlate]
      exact Bool.or_true _
    · rw [h.active a ha hid, hstale]
      rfl
  have hdropped : (t.checkForRenew x).2.session = t.session.drop none (some i.key) := by
    simp only [checkForRenew, ha]
    rw [if_pos hretired, resumeLongTime_session, hid]
    rfl
  rw [hdropped]
  exact h.furnished.lacks_drop none i.key

end Turn

end Overlay
