import Overlay.Proofs.Session.Known

/-!
# What becomes of a session

For each operation of a conversation, what it does to the session, with the guard of each branch.  The
operations that negotiate touch the inactive slot alone (`Negotiated`).  A received message is opened with
the one agreement that it names (`Opening`): each constructor says under which condition that agreement is
chosen, what the answer is, and what is left of the turn.  Its content is then handled (`Disarming`).  A check
for renewal retires the active agreement, negotiates, or does nothing (`session_checkForRenew`).

For the session alone less is enough: `session_opening` tells what opening a message leaves of it, and what survives
each part of disarming survives the whole (`Disarming.session`).

A turn is looked at move by move in `Move`, where the guards are forgotten; here they are kept.
-/

namespace Overlay

/-! ### Changes of a session -/

namespace Session

def consult (s : Session) (id : AgreementId) (now : Nat) : Session :=
  { s with initialized := (s.initialized.get id now).2 }

def promote (s : Session) (id : AgreementId) (g : Agreement) (now : Nat) : Session :=
  { s with
    inactive := none
    initialized := (s.initialized.insert id g now).cache
    active := some g
    lastRenewAttemptAt := some now
    state := .forwardSecrecy }

/-- With another active agreement or none, and without what is kept under a name. -/
def drop (s : Session) (active : AgreementSlot) (o : Option AgreementId) : Session :=
  { s with
    initialized := Turn.discard s.initialized o
    active := active
    state := if s.state = .forwardSecrecy ∧ active = none then .longTime else s.state }

/-- A session that differs from another one by negotiation alone: in the agreement under negotiation, which
does not vanish, and in the times of the last attempts. -/
structure Negotiated (s s' : Session) : Prop where
  longTimeId : s'.longTimeId = s.longTimeId
  initialized : s'.initialized = s.initialized
  active : s'.active = s.active
  inactive : s.inactive ≠ none → s'.inactive ≠ none

namespace Negotiated

theorem refl (s : Session) : s.Negotiated s := ⟨rfl, rfl, rfl, id⟩

theorem trans {s s' s'' : Session} (h : s.Negotiated s') (g : s'.Negotiated s'') : s.Negotiated s'' :=
  ⟨g.longTimeId.trans h.longTimeId, g.initialized.trans h.initialized, g.active.trans h.active,
    fun hi => g.inactive (h.inactive hi)⟩

end Negotiated

/-- The agreements for decryption are in a sound cache with the bounds that the settings give. -/
structure Furnished (c : ArmConfig) (s : Session) : Prop where
  sound : s.initialized.Sound
  bounds : s.initialized.bounds = (.afterWrite, c.retention.bound?, c.maxAgreements)

namespace Furnished

variable {c : ArmConfig} {s : Session}

theorem policy (hs : s.Furnished c) : s.initialized.policy = .afterWrite := congrArg (·.1) hs.bounds

theorem ttl (hs : s.Furnished c) : s.initialized.ttl = c.retention.bound? := congrArg (·.2.1) hs.bounds

theorem maxSize (hs : s.Furnished c) : s.initialized.maxSize = c.maxAgreements :=
  congrArg (·.2.2) hs.bounds

theorem consult (hs : s.Furnished c) (id : AgreementId) (now : Nat) : (s.consult id now).Furnished c :=
  ⟨hs.sound.get id now, (Cache.bounds_get hs.sound id now).trans hs.bounds⟩

theorem promote (hs : s.Furnished c) (id : AgreementId) (g : Agreement) (now : Nat) :
    (s.promote id g now).Furnished c :=
  ⟨hs.sound.insert id g now, (Cache.bounds_insert hs.sound id g now).trans hs.bounds⟩

theorem drop (hs : s.Furnished c) (active : AgreementSlot) (o : Option AgreementId) :
    (s.drop active o).Furnished c :=
  ⟨Turn.sound_discard hs.sound o, (Turn.bounds_discard hs.sound o).trans hs.bounds⟩

theorem stored_promote (hs : s.Furnished c) (id : AgreementId) (g : Agreement) (now : Nat) :
    (s.promote id g now).initialized.stored id = some ⟨id, g, now⟩ :=
  Cache.stored_insert_self hs.sound id g now

end Furnished

end Session

def Context.dated (x : Context) (g : Agreement) : Agreement :=
  g.withStaleAt (after x.now x.config.expireAfter.millis)

@[simp] theorem Context.dated_pair (x : Context) (g : Agreement) : (x.dated g).pair = g.pair := rfl

namespace Turn

variable {x : Context} {t : Turn} {m : ArmedMessage}

theorem Move.bounds {h : Hearing} {t' : Turn} (hm : Move x h t t') (hs : t.session.initialized.Sound) :
    t'.session.initialized.bounds = t.session.initialized.bounds := by
  cases hm with
  | promote a id hid ha hi =>
    rw [promote_of_id ha hi]
    exact Cache.bounds_insert hs id _ _
  | consult id => exact Cache.bounds_get hs id x.now
  | evict id =>
    rw [evictAgreement, resumeLongTime_session]
    exact Cache.bounds_remove hs id
  | retire id =>
    rw [resumeLongTime_session]
    exact bounds_discard hs id
  | _ => rfl

theorem Moves.furnished {h : Hearing} {t' : Turn} {c : ArmConfig} (hm : Moves x h t t')
    (hs : t.session.Furnished c) : t'.session.Furnished c := by
  induction hm with
  | refl => exact hs
  | tail _ hm ih => exact ⟨hm.sound ih.sound, (hm.bounds ih.sound).trans ih.bounds⟩

/-! ### Negotiation -/

theorem negotiated_ensureInactive (x : Context) (t : Turn) :
    t.session.Negotiated (t.ensureInactive x).2.session := by
  unfold ensureInactive
  cases ha : t.session.inactive with
  | some a => exact .refl _
  | none => exact ⟨rfl, rfl, rfl, fun _ => nofun⟩

theorem session_sealLongTime (x : Context) (content : ArmMessage) (t : Turn) :
    (t.sealLongTime x content).2.session = t.session := rfl

theorem negotiated_sendKeyExchange (x : Context) (key : PublicKey) (t : Turn) :
    t.session.Negotiated (t.sendKeyExchange x key).2.session := by
  unfold sendKeyExchange
  cases hr : t.sealLongTime x (.keyExchange key) with
  | mk result t' =>
    have hs : t'.session = t.session := by
      have := session_sealLongTime x (.keyExchange key) t
      rwa [hr] at this
    cases result with
    | error e => exact hs ▸ .refl _
    | ok m =>
      show t.session.Negotiated { t'.session with lastKeyExchangeAt := some x.now }
      rw [hs]
      exact ⟨rfl, rfl, rfl, id⟩

theorem negotiated_doKeyExchange (x : Context) (t : Turn) :
    t.session.Negotiated (t.doKeyExchange x).2.session := by
  have hoffer := negotiated_ensureInactive x t
  unfold doKeyExchange
  cases hr : t.ensureInactive x with
  | mk key t' =>
    rw [hr] at hoffer
    simp only
    split
    · exact hoffer.trans (negotiated_sendKeyExchange x key t')
    · exact hoffer

theorem session_sendAck (x : Context) (t : Turn) : (t.sendAck x).2.session = t.session := by
  unfold sendAck
  cases t.session.inactiveId with
  | none => rfl
  | some id =>
    simp only
    cases hr : t.sealLongTime x (.acknowledgement id) with
    | mk result t' =>
      have hs : t'.session = t.session := by
        have := session_sealLongTime x (.acknowledgement id) t
        rwa [hr] at this
      cases result <;> exact hs

theorem negotiated_bondInactive (x : Context) (key : PublicKey) (t : Turn) :
    t.session.Negotiated (t.bondInactive x key).2.session := by
  rcases bondInactive_cases x key t with ⟨-, hr⟩ | ⟨a, err, -, -, hr⟩ | ⟨a, b, -, -, hr⟩
  · rw [hr]
    exact .refl _
  · rw [hr]
    exact .refl _
  · rw [hr]
    exact ⟨rfl, rfl, rfl, fun _ => nofun⟩

theorem negotiated_receivedKeyExchange (x : Context) (key : PublicKey) (t : Turn) :
    t.session.Negotiated (t.receivedKeyExchange x key).2.session := by
  unfold receivedKeyExchange
  split
  · exact .refl _
  · have hbond := (negotiated_ensureInactive x t).trans
      (negotiated_bondInactive x key (t.ensureInactive x).2)
    simp only
    cases hr : (t.ensureInactive x).2.bondInactive x key with
    | mk result t' =>
      rw [hr] at hbond
      cases result with
      | error e => exact hbond
      | ok u =>
        simp only
        split
        · have hsend := hbond.trans (negotiated_doKeyExchange x t')
          cases hd : t'.doKeyExchange x with
          | mk result t'' =>
            rw [hd] at hsend
            cases result with
            | error e => exact hsend
            | ok u =>
              simp only [session_sendAck]
              exact hsend
        · rw [session_sendAck]
          exact hbond

theorem session_deferIf (b : Bool) (work : Deferred) (t : Turn) :
    (if b then t.defer work else t).session = t.session := by
  cases b <;> rfl

theorem session_armOutbound (x : Context) (payload : Bytes) (t : Turn) :
    (t.armOutbound x payload).2.session = t.session := by
  simp only [armOutbound, session_deferIf]
  split
  · exact session_deferIf _ _ t
  · exact (session_deferIf _ _ _).trans (session_deferIf _ _ t)

/-! ### Promotion and renewal -/

theorem turn_promote {g : Agreement} {id : AgreementId} (hg : t.session.inactive = some g)
    (hi : g.id = some id) :
    (t.promote x id).2 = { t with
      session := t.session.promote id (x.dated g) x.now
      events := t.events ++ changed x.peer t.session.state .forwardSecrecy } := promote_of_id hg hi

/-- The agreement under negotiation is promoted if it has the name, and nothing happens otherwise. -/
theorem promote_cases (x : Context) (id : AgreementId) (t : Turn) :
    (t.session.inactiveId ≠ some id ∧ t.promote x id = (false, t)) ∨
      ∃ g, t.session.inactive = some g ∧ g.id = some id ∧
        (t.promote x id).2.session = t.session.promote id (x.dated g) x.now := by
  by_cases hid : t.session.inactiveId = some id
  · obtain ⟨g, hg, hi⟩ := Option.bind_eq_some_iff.1 hid
    exact Or.inr ⟨g, hg, hi, by rw [turn_promote hg hi]⟩
  · refine Or.inl ⟨hid, ?_⟩
    unfold promote
    cases hg : t.session.inactive with
    | none => rfl
    | some g =>
      have hi : g.id ≠ some id := by
        intro hi
        exact hid (by rw [Session.inactiveId, hg]; exact hi)
      exact if_neg hi

theorem promote_vacant (x : Context) (id : AgreementId) (h : t.session.inactive = none) :
    (t.promote x id).2 = t := by
  rcases promote_cases x id t with ⟨-, ht⟩ | ⟨g, hg, -⟩
  · rw [ht]
  · rw [h] at hg
    cases hg

/-- A check for renewal retires an active agreement that is stale or no longer kept, negotiates, or leaves
the session alone. -/
theorem session_checkForRenew (x : Context) (t : Turn) :
    t.session.Negotiated (t.checkForRenew x).2.session ∨
      ∃ a, t.session.active = some a ∧
        (a.isStale x.now ∨ ∀ id, a.id = some id → t.session.initialized.contains id x.now = false) ∧
        (t.checkForRenew x).2.session = t.session.drop none a.id := by
  simp only [checkForRenew]
  cases ha : t.session.active with
  | none => exact Or.inl (.refl _)
  | some a =>
    simp only
    split
    · rename_i hstale
      refine Or.inr ⟨a, rfl, ?_, ?_⟩
      · rw [Bool.or_eq_true, Bool.not_eq_true'] at hstale
        apply hstale.imp_right
        intro htracked id hid
        simpa [hid] using htracked
      · rw [resumeLongTime_session]
        cases a.id <;> rfl
    · split
      · apply Or.inl
        generalize ht : t.withSession { t.session with lastRenewAttemptAt := some x.now } = t₁
        have hnote : t.session.Negotiated t₁.session := ht ▸ ⟨rfl, rfl, rfl, id⟩
        have hoffer := hnote.trans (negotiated_ensureInactive x t₁)
        subst ht
        simp only [ha] at hoffer ⊢
        exact hoffer.trans (negotiated_sendKeyExchange x _ _)
      · exact Or.inl (.refl _)

/-! ### Opening a message -/

theorem session_evictAgreement (x : Context) (id : AgreementId) (t : Turn) :
    (t.evictAgreement x id).session =
      t.session.drop (t.session.active.filter fun a => a.id ≠ some id) (some id) := by
  rw [evictAgreement, resumeLongTime_session]
  rfl

/-- How a message is opened: with which agreement, the answer, and what is left of the turn. -/
inductive Opening (x : Context) (m : ArmedMessage) (t : Turn) :
    Except ArmError (ArmMessage × Bool) → Turn → Prop where
  | longTime (hid : m.agreementId = t.session.longTimeId) :
      Opening x m t ((openMessage x t.session.longTimePair m).map (·, true)) t
  /-- An agreement that is kept for decryption. -/
  | kept (a : Agreement) (pair : SessionPair) (hid : m.agreementId ≠ t.session.longTimeId)
      (ha : t.session.initialized.peek m.agreementId x.now = some a) (hp : a.pair = some pair)
      (hs : a.isStale x.now = false ∨ ∀ content, openMessage x pair m ≠ .ok content) :
      Opening x m t ((openMessage x pair m).map (·, false))
        (t.withSession (t.session.consult m.agreementId x.now))
  /-- A stale one, which this was the last message of. -/
  | last (a : Agreement) (pair : SessionPair) (content : ArmMessage)
      (hid : m.agreementId ≠ t.session.longTimeId)
      (ha : t.session.initialized.peek m.agreementId x.now = some a) (hp : a.pair = some pair)
      (hs : a.isStale x.now = true) (ho : openMessage x pair m = .ok content) :
      Opening x m t (.ok (content, false))
        ((t.withSession (t.session.consult m.agreementId x.now)).evictAgreement x m.agreementId)
  /-- One without keys, which no session keeps. -/
  | blank (a : Agreement) (hid : m.agreementId ≠ t.session.longTimeId)
      (ha : t.session.initialized.peek m.agreementId x.now = some a) (hp : a.pair = none) :
      Opening x m t (.error (.unknownAgreementId m.agreementId))
        (t.withSession (t.session.consult m.agreementId x.now))
  /-- The agreement under negotiation, which is promoted before the message is opened. -/
  | promoted (g : Agreement) (s : Session) (hid : m.agreementId ≠ t.session.longTimeId)
      (ha : t.session.initialized.peek m.agreementId x.now = none)
      (hg : t.session.inactive = some g) (hi : g.id = some m.agreementId)
      (hs : s = (t.session.consult m.agreementId x.now).promote m.agreementId (x.dated g) x.now) :
      Opening x m t
        (((s.initialized.peek m.agreementId x.now).bind (·.pair)).elim
          (.error (.unknownAgreementId m.agreementId)) fun pair => (openMessage x pair m).map (·, false))
        { t with
          session := s.consult m.agreementId x.now
          events := t.events ++ changed x.peer t.session.state .forwardSecrecy }
  | unknown (hid : m.agreementId ≠ t.session.longTimeId)
      (ha : t.session.initialized.peek m.agreementId x.now = none)
      (hi : t.session.inactiveId ≠ some m.agreementId) :
      Opening x m t (.error (.unknownAgreementId m.agreementId))
        (if x.config.forwardSecrecy then
          (t.withSession (t.session.consult m.agreementId x.now)).defer .keyExchange
        else t.withSession (t.session.consult m.agreementId x.now))

theorem get_eq {c : Cache AgreementId Agreement} (hc : c.Sound) (id : AgreementId) (now : Nat) :
    c.get id now = (c.peek id now, (c.get id now).2) := Prod.ext (Cache.get_fst hc id now) rfl

/-- **Every message is opened in one of these ways.** -/
theorem opening_openInbound (hs : t.session.initialized.Sound) (x : Context) (m : ArmedMessage) :
    Opening x m t (t.openInbound x m).1 (t.openInbound x m).2 := by
  unfold openInbound
  simp only
  split
  · rename_i hid
    exact .longTime hid
  rename_i hid
  rw [get_eq hs]
  cases ha : t.session.initialized.peek m.agreementId x.now with
  | some a =>
    simp only
    cases hp : a.pair with
    | none => exact .blank a hid ha hp
    | some pair =>
      simp only
      cases ho : openMessage x pair m with
      | error e =>
        have hkept := Opening.kept a pair hid ha hp (Or.inr fun content hc => by rw [ho] at hc; cases hc)
        rw [ho] at hkept
        exact hkept
      | ok content =>
        cases hstale : a.isStale x.now with
        | true => exact .last a pair content hid ha hp hstale ho
        | false =>
          have hkept := Opening.kept a pair hid ha hp (Or.inl hstale)
          rw [ho] at hkept
          exact hkept
  | none =>
    simp only
    split
    · rename_i hid'
      obtain ⟨g, hg, hi⟩ := Option.bind_eq_some_iff.1 hid'
      generalize hw : t.withSession { t.session with
        initialized := (t.session.initialized.get m.agreementId x.now).2 } = t₁
      have hg₁ : t₁.session.inactive = some g := hw ▸ hg
      have hs₁ : (t₁.session.promote m.agreementId (x.dated g) x.now).initialized.Sound :=
        hw ▸ (hs.get _ _).insert _ _ _
      have hopening : ∀ s, s = t₁.session.promote m.agreementId (x.dated g) x.now → Opening x m t
          (((s.initialized.peek m.agreementId x.now).bind (·.pair)).elim
            (.error (.unknownAgreementId m.agreementId)) fun pair =>
              (openMessage x pair m).map (·, false))
          { t₁ with
            session := s.consult m.agreementId x.now
            events := t₁.events ++ changed x.peer t₁.session.state .forwardSecrecy } := by
        subst hw
        exact fun s hs => .promoted g s hid ha hg hi hs
      rw [turn_promote hg₁ hi]
      generalize t₁.session.promote m.agreementId (x.dated g) x.now = s at hs₁ hopening ⊢
      have hopening := hopening s rfl
      simp only
      rw [get_eq hs₁]
      cases hk : (s.initialized.peek m.agreementId x.now).bind (·.pair) with
      | none =>
        rw [hk] at hopening
        exact hopening
      | some pair =>
        rw [hk] at hopening
        exact hopening
    · exact .unknown hid ha (by assumption)

/-- **What opening a message leaves of the session.**  Nothing is looked up for the long-time agreement.  Otherwise the
agreement that the message names is looked up, and that is all; or it is dropped, stale, once the message is open; or it
is the one under negotiation, which is promoted and looked up again. -/
theorem session_opening {r : Except ArmError (ArmMessage × Bool)} {t' : Turn} (ho : Opening x m t r t') :
    t'.session = t.session ∨ t'.session = t.session.consult m.agreementId x.now ∨
    (∃ a, t.session.initialized.peek m.agreementId x.now = some a ∧ a.isStale x.now = true ∧ r.isOk = true ∧
      t'.session = (t.session.consult m.agreementId x.now).drop
        (t.session.active.filter fun a => a.id ≠ some m.agreementId) (some m.agreementId)) ∨
    ∃ g, t.session.inactive = some g ∧ g.id = some m.agreementId ∧
      t'.session = ((t.session.consult m.agreementId x.now).promote m.agreementId (x.dated g)
        x.now).consult m.agreementId x.now := by
  cases ho with
  | longTime hid => exact Or.inl rfl
  | kept a pair hid ha hp hstale => exact Or.inr (Or.inl rfl)
  | blank a hid ha hp => exact Or.inr (Or.inl rfl)
  | last a pair content hid ha hp hstale ho =>
    exact Or.inr (Or.inr (Or.inl ⟨a, ha, hstale, rfl, session_evictAgreement x _ _⟩))
  | promoted g s hid ha hg hi hs =>
    subst hs
    exact Or.inr (Or.inr (Or.inr ⟨g, hg, hi, rfl⟩))
  | unknown hid ha hi =>
    rw [session_deferIf]
    exact Or.inr (Or.inl rfl)

theorem sound_opening {r : Except ArmError (ArmMessage × Bool)} {t' : Turn} (ho : Opening x m t r t')
    (hs : t.session.initialized.Sound) : t'.session.initialized.Sound ∧
      t'.session.initialized.bounds = t.session.initialized.bounds := by
  have hsound := hs.get m.agreementId x.now
  have hbounds := Cache.bounds_get hs m.agreementId x.now
  rcases session_opening ho with hsame | hsame | ⟨a, -, -, -, hsame⟩ | ⟨g, -, -, hsame⟩ <;> rw [hsame]
  · exact ⟨hs, rfl⟩
  · exact ⟨hsound, hbounds⟩
  · exact ⟨sound_discard hsound (some m.agreementId),
      (bounds_discard hsound (some m.agreementId)).trans hbounds⟩
  · have hinsert := hsound.insert m.agreementId (x.dated g) x.now
    exact ⟨hinsert.get m.agreementId x.now, ((Cache.bounds_get hinsert m.agreementId x.now).trans
      (Cache.bounds_insert hsound m.agreementId (x.dated g) x.now)).trans hbounds⟩

theorem furnished_opening {r : Except ArmError (ArmMessage × Bool)} {t' : Turn} {c : ArmConfig}
    (ho : Opening x m t r t') (hs : t.session.Furnished c) : t'.session.Furnished c :=
  ⟨(sound_opening ho hs.sound).1, (sound_opening ho hs.sound).2.trans hs.bounds⟩

theorem longTimeId_opening {r : Except ArmError (ArmMessage × Bool)} {t' : Turn}
    (ho : Opening x m t r t') : t'.session.longTimeId = t.session.longTimeId := by
  rcases session_opening ho with hsame | hsame | ⟨a, -, -, -, hsame⟩ | ⟨g, -, -, hsame⟩ <;> rw [hsame] <;> rfl

theorem inactive_opening {r : Except ArmError (ArmMessage × Bool)} {t' : Turn} (ho : Opening x m t r t') :
    t'.session.inactive = t.session.inactive ∨ t'.session.inactive = none := by
  rcases session_opening ho with hsame | hsame | ⟨a, -, -, -, hsame⟩ | ⟨g, -, -, hsame⟩ <;> rw [hsame]
  · exact Or.inl rfl
  · exact Or.inl rfl
  · exact Or.inl rfl
  · exact Or.inr rfl

theorem inactiveId_of_opening {r : Except ArmError (ArmMessage × Bool)} {t' : Turn} {id : AgreementId}
    (ho : Opening x m t r t') (hid : t'.session.inactiveId = some id) : t.session.inactiveId = some id := by
  rcases inactive_opening ho with hsame | hvacant
  · rw [← hid, Session.inactiveId, Session.inactiveId, hsame]
  · rw [Session.inactiveId, hvacant] at hid
    cases hid

/-! ### Handling a message -/

def disarmed : ArmMessage → Disarmed
  | .application payload => .application payload
  | .keyExchange _ | .acknowledgement _ => .consumed

/-- How a message is disarmed: it cannot be opened; or its content is handled, which negotiates under the
long-time agreement, promotes an agreement, or does nothing. -/
inductive Disarming (x : Context) (m : ArmedMessage) (t : Turn) : Except ArmError Disarmed → Turn → Prop where
  | failed (e : ArmError) (t' : Turn) (ho : Opening x m t (.error e) t') : Disarming x m t (.error e) t'
  | negotiated (r : Except ArmError Disarmed) (t' : Turn) (hid : m.agreementId = t.session.longTimeId)
      (hn : t.session.Negotiated t'.session) : Disarming x m t r t'
  | promoted (content : ArmMessage) (longTime : Bool) (t' : Turn) (id : AgreementId)
      (ho : Opening x m t (.ok (content, longTime)) t') :
      Disarming x m t (.ok (disarmed content)) (t'.promote x id).2
  | plain (content : ArmMessage) (longTime : Bool) (t' : Turn)
      (ho : Opening x m t (.ok (content, longTime)) t') : Disarming x m t (.ok (disarmed content)) t'

/-- Opened under the long-time agreement, a message has not changed anything yet. -/
theorem opening_longTime {content : ArmMessage} {t' : Turn} (ho : Opening x m t (.ok (content, true)) t') :
    m.agreementId = t.session.longTimeId ∧ t' = t := by
  generalize hr : (.ok (content, true) : Except ArmError (ArmMessage × Bool)) = r at ho
  have hplain : ∀ pair, (.ok (content, true) : Except ArmError (ArmMessage × Bool)) ≠
      (openMessage x pair m).map (·, false) := by
    intro pair
    cases openMessage x pair m <;> exact nofun
  cases ho with
  | longTime hid => exact ⟨hid, rfl⟩
  | kept a pair hid ha hp hs => exact absurd hr (hplain pair)
  | last a pair content hid ha hp hs ho => cases hr
  | blank a hid ha hp => cases hr
  | promoted g s hid ha hg hi hs =>
    cases hk : (s.initialized.peek m.agreementId x.now).bind (·.pair) with
    | none =>
      rw [hk] at hr
      cases hr
    | some pair =>
      rw [hk] at hr
      exact absurd hr (hplain pair)
  | unknown hid ha hi => cases hr

/-- **Every message is disarmed in one of these ways**, in a turn of the same session. -/
theorem disarming_disarmInbound (hs : t.session.initialized.Sound) (x : Context) (m : ArmedMessage) :
    ∃ t₁ : Turn, t₁.session = t.session ∧
      Disarming x m t₁ (t.disarmInbound x m).1 (t.disarmInbound x m).2 := by
  have hsession := session_deferIf x.config.forwardSecrecy .checkRenewal t
  unfold disarmInbound
  generalize (if x.config.forwardSecrecy then t.defer .checkRenewal else t) = t₁ at hsession ⊢
  rw [← hsession] at hs
  have hopening := opening_openInbound hs x m
  refine ⟨t₁, hsession, ?_⟩
  simp only
  cases hr : t₁.openInbound x m with
  | mk result t₂ =>
    rw [hr] at hopening
    cases result with
    | error e => exact .failed e t₂ hopening
    | ok opened =>
      obtain ⟨content, longTime⟩ := opened
      simp only at hopening ⊢
      cases content with
      | application payload => exact .plain _ longTime t₂ hopening
      | keyExchange key =>
        simp only [handle]
        split
        · rename_i h
          rw [Bool.and_eq_true] at h
          obtain ⟨rfl, -⟩ := h
          obtain ⟨hid, rfl⟩ := opening_longTime hopening
          exact .negotiated _ _ hid (negotiated_receivedKeyExchange x key t₂)
        · exact .plain _ longTime t₂ hopening
      | acknowledgement id =>
        simp only [handle]
        split
        · exact .promoted _ longTime t₂ id hopening
        · exact .plain _ longTime t₂ hopening

/-- **What holds of the session after each part of disarming a message holds in the end**: after it was opened, after
its key was answered under the long-time agreement, and after an agreement was promoted that was under negotiation
before. -/
theorem Disarming.session {Q : Session → Prop} {r : Except ArmError Disarmed} {t' : Turn} (hd : Disarming x m t r t')
    (hopened : ∀ {r₁ t₁}, Opening x m t r₁ t₁ → (t₁.session.inactive = none → t'.session.inactive = none) →
      r₁.isOk = r.isOk → Q t₁.session)
    (hnegotiated : m.agreementId = t.session.longTimeId → t.session.Negotiated t'.session → Q t'.session)
    (hpromoted : ∀ {r₁ t₁} (id : AgreementId), Opening x m t r₁ t₁ → Q t₁.session → t' = (t₁.promote x id).2 →
      (∀ name, t₁.session.inactiveId = some name → t.session.inactiveId = some name) →
        Q (t₁.promote x id).2.session) : Q t'.session := by
  cases hd with
  | failed e _ ho => exact hopened ho id rfl
  | negotiated _ _ hid hn => exact hnegotiated hid hn
  | plain content longTime _ ho => exact hopened ho id rfl
  | promoted content longTime t₁ id ho =>
    have hstill : t₁.session.inactive = none → (t₁.promote x id).2.session.inactive = none := by
      intro hnone
      rw [promote_vacant x id hnone]
      exact hnone
    exact hpromoted id ho (hopened ho hstill rfl) rfl fun _ => inactiveId_of_opening ho

theorem disarmed_of_opening {r : Except ArmError Disarmed} {t' : Turn} {content : ArmMessage}
    (hd : Disarming x m t r t') (hlong : m.agreementId ≠ t.session.longTimeId)
    (h : ∀ r t', Opening x m t r t' → r = .ok (content, false)) : r = .ok (disarmed content) := by
  cases hd with
  | failed e _ ho => cases h _ _ ho
  | negotiated _ _ hid hn => exact absurd hid hlong
  | promoted content' longTime t₂ id ho =>
    cases h _ _ ho
    rfl
  | plain content' longTime _ ho =>
    cases h _ _ ho
    rfl

end Turn

end Overlay
