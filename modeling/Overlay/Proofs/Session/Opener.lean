import Overlay.Proofs.Session.Opening

/-!
# The keys that open a message

A message names an agreement, and a session answers the name with the keys of its long-time agreement, of one that it
keeps for decryption, or of the one under negotiation, in that order (`Session.opener?`).  If those keys open the
message, its content is what the message is opened to, whichever of the three they are (`opening_opener`), and a payload
is handed out (`disarmInbound_opener`).

There is one condition.  The agreement under negotiation is promoted before the message is opened, and looked up among
the agreements that are kept; so they must be kept at all (`ArmConfig.Keeps`), which takes a retention that is at least a
millisecond, or none.  Otherwise the message is refused (`disarmInbound_unkept`).
-/

namespace Overlay

/-- Agreements are kept for decryption beyond the moment of their promotion. -/
def ArmConfig.Keeps (c : ArmConfig) : Prop := c.retention.bound? ≠ some 0

instance (c : ArmConfig) : Decidable c.Keeps := inferInstanceAs (Decidable (_ ≠ _))

namespace Session

variable {s : Session} {c : ArmConfig} {now : Nat} {id : AgreementId} {g : Agreement}

/-- The keys that a message of a name is opened with. -/
def opener? (s : Session) (now : Nat) (id : AgreementId) : Option SessionPair :=
  if id = s.longTimeId then some s.longTimePair
  else
    match s.initialized.peek id now with
    | some a => a.pair
    | none => (s.inactive.filter fun a => a.id = some id).bind (·.pair)

/-- A name calls for the agreement under negotiation: it is that agreement's name, and no other agreement
of the session goes by it. -/
def Awaits (s : Session) (id : AgreementId) (now : Nat) : Prop :=
  s.inactiveId = some id ∧ id ≠ s.longTimeId ∧ s.initialized.peek id now = none

instance (s : Session) (id : AgreementId) (now : Nat) : Decidable (s.Awaits id now) :=
  inferInstanceAs (Decidable (_ ∧ _ ∧ _))

theorem opener?_longTime (s : Session) (now : Nat) : s.opener? now s.longTimeId = some s.longTimePair := if_pos rfl

theorem opener?_kept {a : Agreement} (hid : id ≠ s.longTimeId) (ha : s.initialized.peek id now = some a) :
    s.opener? now id = a.pair := by
  rw [opener?, if_neg hid, ha]

theorem opener?_missing (hid : id ≠ s.longTimeId) (ha : s.initialized.peek id now = none) :
    s.opener? now id = (s.inactive.filter fun a => a.id = some id).bind (·.pair) := by
  rw [opener?, if_neg hid, ha]

theorem opener?_awaited (hid : id ≠ s.longTimeId) (ha : s.initialized.peek id now = none)
    (hg : s.inactive = some g) (hi : g.id = some id) : s.opener? now id = g.pair := by
  rw [opener?_missing hid ha, hg, Option.filter_some, if_pos (by simpa using hi)]
  rfl

/-- What was just promoted is found if agreements are kept, and is not found otherwise. -/
theorem Furnished.peek_promote (hs : s.Furnished c) (id : AgreementId) (g : Agreement) (now : Nat) :
    (s.promote id g now).initialized.peek id now = if c.retention.bound? = some 0 then none else some g := by
  have hafter := hs.promote id g now
  have hover : (s.promote id g now).initialized.overdue ⟨id, g, now⟩ now =
      decide (c.retention.bound? = some 0) := by
    rw [Cache.overdue_eq, hafter.ttl]
    cases hb : c.retention.bound? with
    | none => rfl
    | some ttl => simp
  rw [Cache.peek_stored hafter.sound, hs.stored_promote, Option.bind_some, hover]
  simp only [decide_eq_true_eq]

end Session

namespace Turn

open Session

variable {x : Context} {t t' : Turn} {m : ArmedMessage} {c : ArmConfig} {pair : SessionPair} {content : ArmMessage}
  {payload : Bytes} {r : Except ArmError (ArmMessage × Bool)}

/-- **A message is opened with the keys that the session answers its name with.** -/
theorem opening_opener (ho : Opening x m t r t') (hs : t.session.Furnished c)
    (hp : t.session.opener? x.now m.agreementId = some pair)
    (hkeeps : t.session.Awaits m.agreementId x.now → c.Keeps) (hopen : openMessage x pair m = .ok content) :
    r = .ok (content, decide (m.agreementId = t.session.longTimeId)) := by
  cases ho with
  | longTime hid =>
    rw [hid, opener?_longTime, Option.some.injEq] at hp
    subst hp
    rw [hopen, decide_eq_true hid]
    rfl
  | kept a pair' hid ha hp' hstale =>
    rw [opener?_kept hid ha, hp', Option.some.injEq] at hp
    subst hp
    rw [hopen, decide_eq_false hid]
    rfl
  | last a pair' content' hid ha hp' hstale ho =>
    rw [opener?_kept hid ha, hp', Option.some.injEq] at hp
    subst hp
    rw [hopen] at ho
    cases ho
    rw [decide_eq_false hid]
  | blank a hid ha hp' =>
    rw [opener?_kept hid ha, hp'] at hp
    cases hp
  | promoted g s hid ha hg hi hs' =>
    subst hs'
    have hawaits : t.session.Awaits m.agreementId x.now := ⟨by rw [inactiveId, hg]; exact hi, hid, ha⟩
    rw [opener?_awaited hid ha hg hi] at hp
    rw [(hs.consult m.agreementId x.now).peek_promote, if_neg (hkeeps hawaits), Option.bind_some, Context.dated_pair,
      hp, Option.elim_some, hopen, decide_eq_false hid]
    rfl
  | unknown hid ha hi =>
    have hnone : t.session.inactive.filter (fun a => a.id = some m.agreementId) = none := by
      rw [Option.filter_eq_none_iff]
      intro g hg hname
      exact hi (by rw [inactiveId, hg]; exact of_decide_eq_true hname)
    rw [opener?_missing hid ha, hnone] at hp
    cases hp

/-- Where agreements are not kept, a message under the one that is negotiated has promoted it for nothing. -/
theorem opening_unkept (ho : Opening x m t r t') (hs : t.session.Furnished c)
    (hawaits : t.session.Awaits m.agreementId x.now) (hkeeps : ¬ c.Keeps) :
    r = .error (.unknownAgreementId m.agreementId) := by
  obtain ⟨hinactive, hlong, hmissing⟩ := hawaits
  have hbound : c.retention.bound? = some 0 := Decidable.not_not.1 hkeeps
  cases ho with
  | longTime hid => exact absurd hid hlong
  | kept a pair' hid ha hp' hstale =>
    rw [hmissing] at ha
    cases ha
  | last a pair' content' hid ha hp' hstale ho =>
    rw [hmissing] at ha
    cases ha
  | blank a hid ha hp' => rfl
  | promoted g s hid ha hg hi hs' =>
    subst hs'
    rw [(hs.consult m.agreementId x.now).peek_promote, if_pos hbound]
    rfl
  | unknown hid ha hi => rfl

/-- A payload that opens with the keys that the session answers with is handed out. -/
theorem disarmInbound_opener (hs : t.session.Furnished c)
    (hp : t.session.opener? x.now m.agreementId = some pair)
    (hkeeps : t.session.Awaits m.agreementId x.now → c.Keeps)
    (hopen : openMessage x pair m = .ok (.application payload)) :
    (t.disarmInbound x m).1 = .ok (.application payload) := by
  have hsession := session_deferIf x.config.forwardSecrecy .checkRenewal t
  unfold disarmInbound
  generalize (if x.config.forwardSecrecy then t.defer .checkRenewal else t) = t₁ at hsession ⊢
  rw [← hsession] at hs hp hkeeps
  have hopened := opening_opener (opening_openInbound hs.sound x m) hs hp hkeeps hopen
  simp only
  cases hr : t₁.openInbound x m with
  | mk result t₂ =>
    rw [hr] at hopened
    cases hopened
    rfl

theorem disarmInbound_unkept (hs : t.session.Furnished c) (hawaits : t.session.Awaits m.agreementId x.now)
    (hkeeps : ¬ c.Keeps) : (t.disarmInbound x m).1 = .error (.unknownAgreementId m.agreementId) := by
  obtain ⟨t₁, hsession, hd⟩ := disarming_disarmInbound hs.sound x m
  rw [← hsession] at hs hawaits
  generalize (t.disarmInbound x m).1 = r, (t.disarmInbound x m).2 = t' at hd
  cases hd with
  | failed e _ ho =>
    cases opening_unkept ho hs hawaits hkeeps
    rfl
  | negotiated _ _ hid hn => exact absurd hid hawaits.2.1
  | promoted content longTime t₂ id ho => cases opening_unkept ho hs hawaits hkeeps
  | plain content longTime _ ho => cases opening_unkept ho hs hawaits hkeeps

end Turn

end Overlay
