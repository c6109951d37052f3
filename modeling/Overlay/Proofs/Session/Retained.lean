import Overlay.Proofs.Cache.Ahead
import Overlay.Proofs.Session.Opener

/-!
# Agreements that are kept

An agreement that was promoted is kept for decryption until it is overdue, but four things can take it away
before: other agreements that fill the cache, another agreement of the same name, a message opened under it
once it is stale, and a check for renewal that finds it active and stale.  A session that `Retains` an
agreement keeps it through a promotion, a check for renewal and a received message that do none of these
(`retains_promote`, `retains_checkForRenew`, `retains_disarmInbound`).  An agreement that a message moves out of
negotiation is retained (`retains_of_vacated`), and whatever was sealed under a retained agreement is opened
(`retained_opens`).
-/

namespace Overlay

/-- The retention of what was put away at some moment is not over yet. -/
def ArmConfig.Lasts (c : ArmConfig) (start now : Nat) : Prop :=
  ∀ ttl, c.retention.bound? = some ttl → now - start < ttl

theorem ArmConfig.Lasts.keeps {c : ArmConfig} {now : Nat} (h : c.Lasts now now) : c.Keeps := by
  intro hb
  exact absurd (h 0 hb) (Nat.not_lt_zero _)

theorem ArmConfig.lasts_of_lt {c : ArmConfig} {start t : Nat} (ht : t < start + c.retention.millis)
    (hle : start ≤ t) {time : Nat} (htime : time ≤ t) : c.Lasts start time := by
  intro ttl hb
  unfold Duration.bound? at hb
  split at hb
  · cases hb
  · cases hb
    omega

namespace Session

/-- A session keeps an agreement for decryption, as it was put there; it goes by that name for nothing else;
and only a few others were used since. -/
structure Retains (c : ArmConfig) (i : Item AgreementId Agreement) (few : List AgreementId)
    (s : Session) : Prop where
  furnished : s.Furnished c
  kept : s.initialized.stored i.key = some i
  active : ∀ a, s.active = some a → a.id = some i.key → a = i.value
  apart : s.longTimeId ≠ i.key
  ahead : s.initialized.ahead i.key ⊆ few

namespace Retains

variable {c : ArmConfig} {i : Item AgreementId Agreement} {few : List AgreementId} {s s' : Session}
  {now : Nat} {id : AgreementId} {g : Agreement}

theorem sound (h : s.Retains c i few) : s.initialized.Sound := h.furnished.sound

theorem overdue (h : s.Retains c i few) (hlasts : c.Lasts i.touchedAt now) :
    s.initialized.overdue i now = false := by
  rw [Cache.overdue_eq, h.furnished.ttl]
  cases hb : c.retention.bound? with
  | none => rfl
  | some ttl =>
    have := hlasts ttl hb
    simp only [Option.any_some, decide_eq_false_iff_not]
    omega

theorem peek (h : s.Retains c i few) (hlasts : c.Lasts i.touchedAt now) :
    s.initialized.peek i.key now = some i.value := by
  rw [Cache.peek_stored h.sound, h.kept, Option.bind_some, h.overdue hlasts]
  rfl

/-! ### Changes of a session -/

theorem negotiated (h : s.Retains c i few) (hn : s.Negotiated s') : s'.Retains c i few where
  furnished := ⟨hn.initialized ▸ h.furnished.sound, hn.initialized ▸ h.furnished.bounds⟩
  kept := hn.initialized ▸ h.kept
  active := hn.active ▸ h.active
  apart := hn.longTimeId ▸ h.apart
  ahead := hn.initialized ▸ h.ahead

theorem consult (h : s.Retains c i few) (hlasts : id = i.key → c.Lasts i.touchedAt now)
    (hid : (s.initialized.peek id now).isSome → id = i.key ∨ id ∈ few) :
    (s.consult id now).Retains c i few := by
  refine ⟨h.furnished.consult id now, ?_, h.active, h.apart, ?_⟩
  · show (s.initialized.get id now).2.stored i.key = some i
    rw [Cache.stored_get h.sound]
    by_cases hi : i.key = id
    · rw [if_pos hi, ← hi, h.kept, Option.bind_some, h.overdue (hlasts hi.symm),
        Cache.used_of_afterWrite h.furnished.policy]
      rfl
    · rw [if_neg hi, h.kept]
  · show (s.initialized.get id now).2.ahead i.key ⊆ few
    by_cases hi : id = i.key
    · subst hi
      rw [Cache.ahead_get_self h.sound (h.peek (hlasts rfl))]
      exact List.nil_subset _
    · intro y hy
      rcases Cache.ahead_get h.sound hi now y hy with ⟨rfl, hy⟩ | hy
      · exact (hid hy).resolve_left hi
      · exact h.ahead hy

theorem promote (h : s.Retains c i few) (hfew : 0 < c.maxAgreements → few.length < c.maxAgreements)
    (hne : id ≠ i.key) (hid : id ∈ few) (hg : g.id = some id) (now : Nat) :
    (s.promote id g now).Retains c i few := by
  have hmax : 0 < s.initialized.maxSize → few.length < s.initialized.maxSize := by
    rw [h.furnished.maxSize]
    exact hfew
  refine ⟨h.furnished.promote id g now,
    Cache.stored_insert_of_few h.sound h.kept hne hid h.ahead hmax g now, ?_, h.apart, ?_⟩
  · intro a ha hai
    cases ha
    exact absurd (Option.some.inj (hg.symm.trans hai)) hne
  · intro y hy
    rcases List.mem_cons.1 (Cache.ahead_insert h.sound hne g now hy) with rfl | hy
    · exact hid
    · exact h.ahead hy

theorem drop (h : s.Retains c i few) {active : AgreementSlot} {o : Option AgreementId}
    (ha : ∀ a, active = some a → s.active = some a) (ho : o ≠ some i.key) :
    (s.drop active o).Retains c i few := by
  refine ⟨h.furnished.drop active o, ?_, fun a hact => h.active a (ha a hact), h.apart, ?_⟩
  · show (Turn.discard s.initialized o).stored i.key = some i
    cases o with
    | none => exact h.kept
    | some id =>
      have hid : i.key ≠ id := fun he => ho (congrArg some he.symm)
      rw [Turn.discard, Cache.stored_remove h.sound, if_neg hid, h.kept]
  · show (Turn.discard s.initialized o).ahead i.key ⊆ few
    cases o with
    | none => exact h.ahead
    | some id =>
      have hid : id ≠ i.key := fun he => ho (congrArg some he)
      exact List.Subset.trans (Cache.ahead_remove h.sound hid) h.ahead

end Retains

theorem Furnished.retains_promote {c : ArmConfig} {s : Session} (hs : s.Furnished c) {id : AgreementId}
    (hlong : s.longTimeId ≠ id) (g : Agreement) (now : Nat) (few : List AgreementId) :
    (s.promote id g now).Retains c ⟨id, g, now⟩ few where
  furnished := hs.promote id g now
  kept := hs.stored_promote id g now
  active a ha _ := (Option.some.inj ha).symm
  apart := hlong
  ahead := by
    show (s.initialized.insert id g now).cache.ahead id ⊆ few
    rw [Cache.ahead_insert_self hs.sound]
    exact List.nil_subset few

end Session

namespace Turn

open Session

variable {x : Context} {t t' : Turn} {m : ArmedMessage} {c : ArmConfig}
  {i : Item AgreementId Agreement} {few : List AgreementId}

/-! ### Operations -/

theorem retains_promote (h : t.session.Retains c i few)
    (hfew : 0 < c.maxAgreements → few.length < c.maxAgreements) (id : AgreementId)
    (hid : t.session.inactiveId = some id → (t.promote x id).2.session.inactive = none →
      id ≠ i.key ∧ id ∈ few) : (t.promote x id).2.session.Retains c i few := by
  rcases promote_cases x id t with ⟨-, ht⟩ | ⟨g, hg, hi, ht⟩
  · rw [ht]
    exact h
  · obtain ⟨hne, hmem⟩ := hid (by rw [inactiveId, hg]; exact hi) (by rw [ht]; rfl)
    rw [ht]
    exact h.promote (g := x.dated g) hfew hne hmem hi x.now

theorem retains_checkForRenew (h : t.session.Retains c i few)
    (hlasts : ∀ a, t.session.active = some a → a.id = some i.key → c.Lasts i.touchedAt x.now)
    (hretire : i.value.isStale x.now = true → ∀ a, t.session.active = some a → a.id ≠ some i.key) :
    (t.checkForRenew x).2.session.Retains c i few := by
  rcases session_checkForRenew x t with hn | ⟨a, ha, hwhy, ht⟩
  · exact h.negotiated hn
  · rw [ht]
    refine h.drop nofun ?_
    intro hid
    have hai := h.active a ha hid
    rcases hwhy with hstale | huntracked
    · exact hretire (hai ▸ hstale) a ha hid
    · have hcontains := huntracked i.key hid
      rw [Cache.contains, h.peek (hlasts a ha hid)] at hcontains
      cases hcontains

theorem retains_opening {r : Except ArmError (ArmMessage × Bool)} (ho : Opening x m t r t')
    (h : t.session.Retains c i few)
    (hfew : 0 < c.maxAgreements → few.length < c.maxAgreements)
    (hlasts : m.agreementId = i.key → c.Lasts i.touchedAt x.now)
    (hlook : t.session.initialized.contains m.agreementId x.now →
      m.agreementId = i.key ∨ m.agreementId ∈ few)
    (hpromote : t.session.inactiveId = some m.agreementId → t'.session.inactive = none →
      m.agreementId ≠ i.key ∧ m.agreementId ∈ few)
    (hretire : i.value.isStale x.now = true → m.agreementId = i.key → r.isOk = false) :
    t'.session.Retains c i few := by
  have hconsult : (t.session.consult m.agreementId x.now).Retains c i few := h.consult hlasts hlook
  rcases session_opening ho with hs | hs | ⟨a, ha, hstale, hok, hs⟩ | ⟨g, hg, hi, hs⟩ <;> rw [hs]
  · exact h
  · exact hconsult
  · refine hconsult.drop (fun b hb => (Option.filter_eq_some_iff.1 hb).1) ?_
    intro hi
    have hi : m.agreementId = i.key := Option.some.inj hi
    have hai : a = i.value := by
      rw [hi, h.peek (hlasts hi)] at ha
      exact (Option.some.inj ha).symm
    have hfails := hretire (hai ▸ hstale) hi
    rw [hok] at hfails
    cases hfails
  · obtain ⟨hne, hmem⟩ := hpromote (by rw [inactiveId, hg]; exact hi) (by rw [hs]; rfl)
    exact (hconsult.promote (g := x.dated g) hfew hne hmem hi x.now).consult hlasts fun _ => Or.inr hmem

/-- A received message leaves a retained agreement where it is, if the other agreements that it uses are
among the few, and it is not opened under that one when it is stale. -/
theorem retains_disarmInbound (h : t.session.Retains c i few)
    (hfew : 0 < c.maxAgreements → few.length < c.maxAgreements)
    (hlasts : m.agreementId = i.key → c.Lasts i.touchedAt x.now)
    (hlook : t.session.initialized.contains m.agreementId x.now →
      m.agreementId = i.key ∨ m.agreementId ∈ few)
    (hpromote : ∀ id, t.session.inactiveId = some id →
      (t.disarmInbound x m).2.session.inactive = none → id ≠ i.key ∧ id ∈ few)
    (hretire : i.value.isStale x.now = true → m.agreementId = i.key →
      ∀ d, (t.disarmInbound x m).1 ≠ .ok d) :
    (t.disarmInbound x m).2.session.Retains c i few := by
  obtain ⟨t₁, hsession, hdisarming⟩ := disarming_disarmInbound h.sound x m
  rw [← hsession] at h hlook hpromote
  refine hdisarming.session ?_ ?_ ?_
  · intro r₁ t₂ ho hstill hok
    refine retains_opening ho h hfew hlasts hlook (fun hid hnone => hpromote _ hid (hstill hnone)) ?_
    intro hstale hid
    rw [hok]
    cases hr : (t.disarmInbound x m).1 with
    | error e => rfl
    | ok d => exact absurd hr (hretire hstale hid d)
  · intro _ hn
    exact h.negotiated hn
  · intro r₁ t₂ id _ h₂ hafter hbefore
    exact retains_promote h₂ hfew id fun hid hnone => hpromote id (hbefore id hid) (by rw [hafter]; exact hnone)

/-- Only the agreement that a message names can leave negotiation while the message is opened; it is promoted
then, and looked up. -/
theorem opening_vacates {r : Except ArmError (ArmMessage × Bool)} {g : Agreement}
    (ho : Opening x m t r t') (hg : t.session.inactive = some g) (hgone : t'.session.inactive = none) :
    g.id = some m.agreementId ∧
      t'.session = ((t.session.consult m.agreementId x.now).promote m.agreementId (x.dated g)
        x.now).consult m.agreementId x.now := by
  have hstays : t'.session.inactive ≠ t.session.inactive := by
    rw [hgone, hg]
    exact nofun
  rcases session_opening ho with hs | hs | ⟨a, -, -, -, hs⟩ | ⟨g', hg', hi, hs⟩
  · exact absurd (by rw [hs]) hstays
  · exact absurd (by rw [hs]; rfl) hstays
  · exact absurd (by rw [hs]; rfl) hstays
  · rw [hg, Option.some.injEq] at hg'
    subst hg'
    exact ⟨hi, hs⟩

/-- An agreement that a received message moves out of negotiation is retained. -/
theorem retains_of_vacated (hs : t.session.Furnished c) {g : Agreement} {id : AgreementId}
    (hg : t.session.inactive = some g) (hi : g.id = some id) (hlong : t.session.longTimeId ≠ id)
    (hlasts : c.Lasts x.now x.now) (few : List AgreementId)
    (hgone : (t.disarmInbound x m).2.session.inactive = none) :
    (t.disarmInbound x m).2.session.Retains c ⟨id, x.dated g, x.now⟩ few := by
  obtain ⟨t₁, hsession, hdisarming⟩ := disarming_disarmInbound hs.sound x m
  rw [← hsession] at hs hg hlong
  refine hdisarming.session (Q := fun s => s.inactive = none → s.Retains c ⟨id, x.dated g, x.now⟩ few) ?_ ?_ ?_ hgone
  · -- Where opening the message has promoted it, it has been looked up since.
    intro r₁ t₂ ho _ _ hnone
    obtain ⟨hid, hsame⟩ := opening_vacates ho hg hnone
    have hid : m.agreementId = id := Option.some.inj (hid.symm.trans hi)
    rw [hsame, hid]
    have hretains := (hs.consult id x.now).retains_promote hlong (x.dated g) x.now few
    exact hretains.consult (fun _ => hlasts) fun _ => Or.inl rfl
  · intro _ hn hnone
    exact absurd hnone (hn.inactive (by rw [hg]; exact nofun))
  · intro r₁ t₂ id' ho h₂ _ _ hnone
    rcases promote_cases x id' t₂ with ⟨-, hsame⟩ | ⟨g', hg', hi', hnew⟩
    · rw [hsame] at hnone ⊢
      exact h₂ hnone
    · rcases inactive_opening ho with hsame | hvacant
      · rw [hsame, hg, Option.some.injEq] at hg'
        subst hg'
        have hid : id' = id := Option.some.inj (hi'.symm.trans hi)
        subst hid
        rw [hnew]
        exact (furnished_opening ho hs).retains_promote ((longTimeId_opening ho).symm ▸ hlong) (x.dated g) x.now few
      · rw [hvacant] at hg'
        cases hg'

theorem opening_retained {r : Except ArmError (ArmMessage × Bool)} (ho : Opening x m t r t')
    (h : t.session.Retains c i few) (hS : x.suite.Opens)
    (hlasts : c.Lasts i.touchedAt x.now) {pair : SessionPair}
    {content : ArmMessage} (hp : i.value.pair = some pair) (hid : m.agreementId = i.key)
    (hm : x.suite.encrypt pair.rx m.nonce (associatedData x.peer x.own.publicKey m.agreementId)
      content.encode = some m.ciphertext) : r = .ok (content, false) := by
  have hne : m.agreementId ≠ t.session.longTimeId := fun hlong => h.apart (hlong.symm.trans hid)
  have hpeek : t.session.initialized.peek m.agreementId x.now = some i.value := hid ▸ h.peek hlasts
  have hmissing : ¬ t.session.Awaits m.agreementId x.now := by
    rintro ⟨-, -, hmissing⟩
    rw [hmissing] at hpeek
    cases hpeek
  have hopened := opening_opener ho h.furnished ((opener?_kept hne hpeek).trans hp)
    (fun hawaits => absurd hawaits hmissing) (openMessage_sealed hS hm)
  rw [hopened, decide_eq_false hne]

/-- **Whatever was sealed under a retained agreement is opened**, stale or not. -/
theorem retained_opens (h : t.session.Retains c i few) (hS : x.suite.Opens)
    (hlasts : c.Lasts i.touchedAt x.now) {pair : SessionPair}
    {content : ArmMessage} (hp : i.value.pair = some pair) (hid : m.agreementId = i.key)
    (hm : x.suite.encrypt pair.rx m.nonce (associatedData x.peer x.own.publicKey m.agreementId)
      content.encode = some m.ciphertext) : (t.disarmInbound x m).1 = .ok (disarmed content) := by
  obtain ⟨t₁, hsession, hdisarming⟩ := disarming_disarmInbound h.sound x m
  rw [← hsession] at h
  refine disarmed_of_opening hdisarming (fun hlong => h.apart (hlong.symm.trans hid)) ?_
  exact fun r t' ho => opening_retained ho h hS hlasts hp hid hm

end Turn

end Overlay
