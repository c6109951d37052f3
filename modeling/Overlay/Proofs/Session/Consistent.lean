import Overlay.Proofs.Agreement.Basic
import Overlay.Proofs.Cache.Stored
import Overlay.Proofs.Session.Notice

/-!
# Consistent sessions

The parts of a session agree at a moment (`Session.Consistent`): the state says whether an agreement is
active; an active agreement that is not stale is kept for decryption, the very same one; what is kept stands
under its own name and expires a lifetime after it was put there; the agreement under negotiation has no
deadline; and a bond is always the one that the two keys determine.

A consistent session passes its own check (`Consistent.check`).  It stays consistent as time goes by
(`Consistent.later`), because what is kept for decryption is kept at least as long as it encrypts
(`expireAfter_le_retention`), and through every move of a turn (`Consistent.moves`).
-/

namespace Overlay

/-- The parts of a session agree at a moment. -/
structure Session.Consistent (S : Suite) (c : ArmConfig) (now : Nat) (s : Session) : Prop where
  sound : s.initialized.Sound
  bounds : s.initialized.bounds = (.afterWrite, c.retention.bound?, c.maxAgreements)
  state : s.state = .forwardSecrecy ↔ s.active ≠ none
  active : ∀ a, s.active = some a → ∃ id deadline, a.id = some id ∧ a.staleAt = some deadline ∧
    (now < deadline → ∃ i, s.initialized.stored id = some i ∧
      s.initialized.overdue i now = false ∧ i.value = a)
  entries : ∀ id i, s.initialized.stored id = some i →
    i.value.id = some id ∧ i.value.staleAt = some (i.touchedAt + c.expireAfter.millis) ∧
      i.touchedAt ≤ now
  inactive : ∀ a, s.inactive = some a → a.staleAt = none
  bonds : (∀ a, s.active = some a → a.WellBonded S) ∧ (∀ a, s.inactive = some a → a.WellBonded S) ∧
    ∀ id i, s.initialized.stored id = some i → i.value.WellBonded S

/-! ### Lifetimes -/

/-- The lifetime of an agreement and the retry interval together can be told in milliseconds. -/
def ArmConfig.Fits (c : ArmConfig) : Prop :=
  c.expireAfter.nanos + c.retryInterval.nanos < 2 ^ 64 * 1000000

/-- An agreement is kept for decryption at least as long as it encrypts. -/
theorem expireAfter_le_retention {c : ArmConfig} (hc : c.Fits) {ttl : Nat}
    (h : c.retention.bound? = some ttl) : c.expireAfter.millis ≤ ttl := by
  unfold ArmConfig.Fits at hc
  unfold ArmConfig.retention at h
  split at h
  · rw [Duration.bound?, if_pos (by decide)] at h
    cases h
  · have hnanos : (c.expireAfter.add c.retryInterval).nanos =
        c.expireAfter.nanos + c.retryInterval.nanos := by
      rw [Duration.add, Duration.ofNanos, dif_pos (by omega)]
    rw [Duration.bound?] at h
    split at h
    · cases h
    · cases h
      rw [Duration.millis, Duration.millis, hnanos]
      have hsmall : (c.expireAfter.nanos + c.retryInterval.nanos) / 1000000 < 2 ^ 64 := by omega
      have hle : c.expireAfter.nanos / 1000000 ≤
          (c.expireAfter.nanos + c.retryInterval.nanos) / 1000000 :=
        Nat.div_le_div_right (Nat.le_add_right _ _)
      rw [Nat.mod_eq_of_lt hsmall, Nat.mod_eq_of_lt (by omega)]
      exact hle

theorem forwardSecrecy_of_pos {c : ArmConfig} (h : c.enabled = true) (hpos : 0 < c.expireAfter.millis) :
    c.forwardSecrecy = true := by
  have hzero : c.expireAfter.isZero = false := by
    by_contra hz
    have hnanos : c.expireAfter.nanos = 0 := by simpa [Duration.isZero] using hz
    simp [Duration.millis, hnanos] at hpos
  rw [ArmConfig.forwardSecrecy, h, hzero]
  rfl

namespace Session.Consistent

variable {S : Suite} {c : ArmConfig} {now : Nat} {s : Session}

theorem overdue_eq (hs : s.Consistent S c now) (i : Item AgreementId Agreement) (t : Nat) :
    s.initialized.overdue i t = c.retention.bound?.any fun ttl => ttl ≤ t - i.touchedAt := by
  have hb : s.initialized.ttl = c.retention.bound? := congrArg (·.2.1) hs.bounds
  rw [Cache.overdue_eq, hb]

theorem fresh (S : Suite) (c : ArmConfig) (now : Nat) (id : AgreementId) (pair : SessionPair) :
    Session.Consistent S c now
      { longTimeId := id, longTimePair := pair,
        initialized := .empty .afterWrite c.retention.bound? c.maxAgreements,
        active := none, inactive := none, lastKeyExchangeAt := none, lastRenewAttemptAt := none,
        state := .longTime } where
  sound := Cache.sound_empty _ _ _
  bounds := rfl
  state := by simp
  active _ h := by cases h
  entries _ _ h := by cases h
  inactive _ h := by cases h
  bonds := ⟨fun _ h => (by cases h), fun _ h => (by cases h), fun _ _ h => (by cases h)⟩

theorem check (hs : s.Consistent S c now) : s.check now = .ok () := by
  unfold Session.check
  cases ha : s.active with
  | none =>
    have hstate : s.state ≠ .forwardSecrecy := fun h => hs.state.1 h ha
    simp [hstate]
  | some a =>
    obtain ⟨id, deadline, hid, hstale, hlive⟩ := hs.active a ha
    simp only [hid]
    by_cases hnow : now < deadline
    · obtain ⟨i, hi, ho, -⟩ := hlive hnow
      have hc : s.initialized.contains id now = true := by
        rw [Cache.contains_stored hs.sound, hi, Option.any_some, ho]
        rfl
      simp [hc]
    · have hstale' : a.isStale now = true := by
        rw [Agreement.isStale, hstale]
        simpa using hnow
      simp [hstale']

theorem later (hs : s.Consistent S c now) (hc : c.Fits) {moment : Nat} (hle : now ≤ moment) :
    s.Consistent S c moment := by
  refine ⟨hs.sound, hs.bounds, hs.state, ?_, ?_, hs.inactive, hs.bonds⟩
  · intro a ha
    obtain ⟨id, deadline, hid, hstale, hlive⟩ := hs.active a ha
    refine ⟨id, deadline, hid, hstale, ?_⟩
    intro hlt
    obtain ⟨i, hi, -, hv⟩ := hlive (Nat.lt_of_le_of_lt hle hlt)
    refine ⟨i, hi, ?_, hv⟩
    obtain ⟨-, hdeadline, htouched⟩ := hs.entries id i hi
    rw [hv, hstale, Option.some.injEq] at hdeadline
    rw [hs.overdue_eq]
    cases hb : c.retention.bound? with
    | none => rfl
    | some ttl =>
      have := expireAfter_le_retention hc hb
      simp only [Option.any_some, decide_eq_false_iff_not]
      omega
  · intro id i hi
    obtain ⟨hid, hstale, htouched⟩ := hs.entries id i hi
    exact ⟨hid, hstale, Nat.le_trans htouched hle⟩

/-! ### Moves -/

/-- Dropping what is kept under some names, and the active agreement if it has one of them. -/
theorem drop (hs : s.Consistent S c now) (kept : Cache AgreementId Agreement) (active : Option Agreement)
    (hsound : kept.Sound) (hbounds : kept.bounds = s.initialized.bounds)
    (hkept : ∀ id i, kept.stored id = some i → s.initialized.stored id = some i)
    (hactive : ∀ a, active = some a → s.active = some a ∧
      ∀ id, a.id = some id → kept.stored id = s.initialized.stored id) :
    Session.Consistent S c now { s with
      initialized := kept
      active := active
      state := if s.state = .forwardSecrecy ∧ active = none then .longTime else s.state } := by
  refine ⟨hsound, hbounds.trans hs.bounds, ?_, ?_, ?_, hs.inactive,
    ?_, hs.bonds.2.1, ?_⟩
  · show (if s.state = .forwardSecrecy ∧ active = none then EncryptionState.longTime else s.state) =
      .forwardSecrecy ↔ active ≠ none
    cases active with
    | none =>
      by_cases hstate : s.state = .forwardSecrecy <;> simp [hstate]
    | some a =>
      have hsome : s.state = .forwardSecrecy := hs.state.2 (by rw [(hactive a rfl).1]; simp)
      simp [hsome]
  · intro a ha
    obtain ⟨ha', hsame⟩ := hactive a ha
    obtain ⟨id, deadline, hid, hstale, hlive⟩ := hs.active a ha'
    refine ⟨id, deadline, hid, hstale, ?_⟩
    intro hlt
    obtain ⟨i, hi, ho, hv⟩ := hlive hlt
    refine ⟨i, (hsame id hid).trans hi, ?_, hv⟩
    have httl : kept.ttl = s.initialized.ttl := congrArg (·.2.1) hbounds
    show kept.overdue i now = false
    rw [Cache.overdue_eq, httl, ← Cache.overdue_eq]
    exact ho
  · intro id i hi
    exact hs.entries id i (hkept id i hi)
  · intro a ha
    exact hs.bonds.1 a (hactive a ha).1
  · intro id i hi
    exact hs.bonds.2.2 id i (hkept id i hi)

theorem consult (hs : s.Consistent S c now) (id : AgreementId) :
    Session.Consistent S c now { s with initialized := (s.initialized.get id now).2 } := by
  have hpolicy : s.initialized.policy = .afterWrite := congrArg (·.1) hs.bounds
  have hget : ∀ id' i, ((s.initialized.get id now).2.stored id' = some i ↔
      s.initialized.stored id' = some i ∧ (id' = id → s.initialized.overdue i now = false)) := by
    intro id' i
    rw [Cache.stored_get hs.sound]
    by_cases hid : id' = id
    · subst hid
      rw [if_pos rfl, Option.bind_eq_some_iff]
      constructor
      · rintro ⟨j, hj, hji⟩
        cases ho : s.initialized.overdue j now with
        | true =>
          rw [ho] at hji
          cases hji
        | false =>
          rw [ho, Cache.used_of_afterWrite hpolicy] at hji
          cases hji
          exact ⟨hj, fun _ => ho⟩
      · rintro ⟨hi, ho⟩
        refine ⟨i, hi, ?_⟩
        rw [ho rfl, Cache.used_of_afterWrite hpolicy]
        rfl
    · rw [if_neg hid]
      exact ⟨fun hi => ⟨hi, fun h => absurd h hid⟩, fun hi => hi.1⟩
  refine ⟨hs.sound.get id now, (Cache.bounds_get hs.sound id now).trans hs.bounds, hs.state,
    ?_, ?_, hs.inactive, hs.bonds.1, hs.bonds.2.1, ?_⟩
  · intro a ha
    obtain ⟨id', deadline, hid, hstale, hlive⟩ := hs.active a ha
    refine ⟨id', deadline, hid, hstale, ?_⟩
    intro hlt
    obtain ⟨i, hi, ho, hv⟩ := hlive hlt
    refine ⟨i, (hget id' i).2 ⟨hi, fun _ => ho⟩, ?_, hv⟩
    have httl : (s.initialized.get id now).2.ttl = s.initialized.ttl :=
      congrArg (·.2.1) (Cache.bounds_get hs.sound id now)
    show (s.initialized.get id now).2.overdue i now = false
    rw [Cache.overdue_eq, httl, ← Cache.overdue_eq]
    exact ho
  · intro id' i hi
    exact hs.entries id' i ((hget id' i).1 hi).1
  · intro id' i hi
    exact hs.bonds.2.2 id' i ((hget id' i).1 hi).1

/-- A bonded agreement becomes the active one, with its deadline. -/
theorem promote (hs : s.Consistent S c now) (hc : c.Fits) {a : Agreement} {id : AgreementId}
    (ha : s.inactive = some a) (hid : a.id = some id) (renewal : Option Nat) :
    Session.Consistent S c now { s with
      inactive := none
      initialized :=
        (s.initialized.insert id (a.withStaleAt (now + c.expireAfter.millis)) now).cache
      active := some (a.withStaleAt (now + c.expireAfter.millis))
      lastRenewAttemptAt := renewal
      state := .forwardSecrecy } := by
  have hnew := Cache.stored_insert_self hs.sound id (a.withStaleAt (now + c.expireAfter.millis)) now
  have hbond : (a.withStaleAt (now + c.expireAfter.millis)).WellBonded S := hs.bonds.2.1 a ha
  have hbounds := (Cache.bounds_insert hs.sound id (a.withStaleAt (now + c.expireAfter.millis)) now).trans
    hs.bounds
  refine ⟨hs.sound.insert _ _ _, hbounds, ?_, ?_, ?_, ?_,
    ?_, ?_, ?_⟩
  · simp
  · intro b hb
    cases hb
    refine ⟨id, now + c.expireAfter.millis, hid, rfl, fun hlt => ⟨_, hnew, ?_, rfl⟩⟩
    have httl := congrArg (·.2.1) hbounds
    simp only [Cache.bounds] at httl
    rw [Cache.overdue_eq, httl]
    cases hb : c.retention.bound? with
    | none => rfl
    | some ttl =>
      have := expireAfter_le_retention hc hb
      simp only [Option.any_some, decide_eq_false_iff_not]
      omega
  · intro id' i hi
    by_cases hx : id' = id
    · subst hx
      rw [hnew, Option.some.injEq] at hi
      subst hi
      exact ⟨hid, rfl, Nat.le_refl now⟩
    · exact hs.entries id' i (Cache.stored_of_insert hs.sound hx hi)
  · intro b hb
    cases hb
  · intro b hb
    cases hb
    exact hbond
  · intro b hb
    cases hb
  · intro id' i hi
    by_cases hx : id' = id
    · subst hx
      rw [hnew, Option.some.injEq] at hi
      subst hi
      exact hbond
    · exact hs.bonds.2.2 id' i (Cache.stored_of_insert hs.sound hx hi)

end Session.Consistent

namespace Turn

variable {x : Context} {h : Hearing} {t t' : Turn}

theorem Move.consistent (hm : Move x h t t') (hc : x.config.Fits)
    (hroom : x.now + x.config.expireAfter.millis < 2 ^ 64)
    (hs : t.session.Consistent x.suite x.config x.now) :
    t'.session.Consistent x.suite x.config x.now := by
  cases hm with
  | defer work => exact hs
  | nonce => exact hs
  | offer hn =>
    refine ⟨hs.sound, hs.bounds, hs.state, hs.active, hs.entries, ?_, hs.bonds.1,
      ?_, hs.bonds.2.2⟩
    · intro a ha
      cases ha
      rfl
    · intro a ha
      cases ha
      exact wellBonded_ofKeyPair _ _
  | post a m ha hm => exact hs
  | note exchange renewal =>
    exact ⟨hs.sound, hs.bounds, hs.state, hs.active, hs.entries, hs.inactive, hs.bonds⟩
  | bond a key b hk ha hb =>
    refine ⟨hs.sound, hs.bounds, hs.state, hs.active, hs.entries, ?_, hs.bonds.1,
      ?_, hs.bonds.2.2⟩
    · intro a' ha'
      cases ha'
      exact hs.inactive a ha
    · intro a' ha'
      cases ha'
      exact wellBonded_bond hb
  | promote a id hid ha hi =>
    have hafter : after x.now x.config.expireAfter.millis = x.now + x.config.expireAfter.millis := by
      rw [after, lastMoment]
      omega
    rw [promote_of_id ha hi, hafter]
    exact hs.promote hc ha hi (some x.now)
  | consult id => exact hs.consult id
  | evict id =>
    rw [evictAgreement, resumeLongTime_session]
    refine hs.drop (discard t.session.initialized (some id))
      (t.session.active.filter fun a => a.id ≠ some id) (sound_discard hs.sound _)
      (bounds_discard hs.sound _) (fun _ _ hi => stored_discard hs.sound hi) ?_
    intro a ha
    obtain ⟨ha, hne⟩ := Option.filter_eq_some_iff.1 ha
    refine ⟨ha, ?_⟩
    intro id' hid'
    rw [discard, Cache.stored_remove hs.sound, if_neg]
    rintro rfl
    exact of_decide_eq_true hne hid'
  | retire id =>
    rw [resumeLongTime_session]
    refine hs.drop (discard t.session.initialized id) none (sound_discard hs.sound _)
      (bounds_discard hs.sound _) (fun _ _ hi => stored_discard hs.sound hi) ?_
    intro a ha
    cases ha

theorem Moves.consistent (hm : Moves x h t t') (hc : x.config.Fits)
    (hroom : x.now + x.config.expireAfter.millis < 2 ^ 64)
    (hs : t.session.Consistent x.suite x.config x.now) :
    t'.session.Consistent x.suite x.config x.now := by
  induction hm with
  | refl => exact hs
  | tail _ hm ih => exact hm.consistent hc hroom ih

end Turn

end Overlay
