import Overlay.Proofs.Agreement.Basic
import Overlay.Proofs.Renewal.Basic
import Overlay.Proofs.Session.Consistent
import Overlay.Proofs.Session.Opening

/-!
# Turns of a renewal

One end of a renewal knows what it uses and what it will agree on (`Renewal.Party`).  Its session uses an agreement
that was promoted at some moment (`Uses`), and what matters besides are the times of the last attempts and the
agreement under negotiation (`Phase`, `Holds`).  The clock stands still.

Every operation of a turn takes the session from one stage of the outline to the next one:
`Stands.checkForRenew`, `Stands.hear` for whatever can be understood, and, before the renewal begins,
`Stands.armOutbound` and `Stands.disarmPayload`.
-/

namespace Overlay

namespace Renewal

namespace Stage

def tried : Stage → Bool
  | idle | bonded .answered => false
  | _ => true

def sent : Stage → Bool
  | idle => false
  | _ => true

end Stage

structure Party where
  config : ArmConfig
  own : KeyPair
  peer : PublicKey
  longTime : Bond
  /-- The bond of the agreement in use. -/
  current : Bond
  /-- When that was promoted. -/
  since : Nat
  /-- Our key for the next agreement. -/
  key : KeyPair
  /-- The bond of the next agreement. -/
  bond : Bond
  now : Nat

/-- What matters of a session in a renewal. -/
structure Phase where
  /-- Whether the next agreement is in use. -/
  renewed : Bool
  /-- Whether a renewal was attempted by now. -/
  tried : Bool
  /-- Whether a key was sent by now. -/
  sent : Bool
  /-- The agreement under negotiation. -/
  slot : AgreementSlot

def Stage.phase (s : Stage) (slot : AgreementSlot) : Phase := ⟨s.renewed, s.tried, s.sent, slot⟩

namespace Party

variable (S : Suite) (P : Party)

def context : Context := ⟨S, P.config, P.own, P.peer, P.now⟩

def due : Bool := P.config.retryInterval.millis < P.now - P.since

/-- The agreement in use is neither stale nor forgotten, and the next one can be made. -/
structure Ready : Prop where
  forward : P.config.forwardSecrecy = true
  began : P.since ≤ P.now
  expiry : P.now < P.since + P.config.expireAfter.millis
  renewable : P.config.expireAfter.millis ≤ P.since
  clock : P.now < lastMoment
  retention : ∀ ttl, P.config.retention.bound? = some ttl → P.config.expireAfter.millis ≤ ttl
  seals : S.Seals
  bonded : Agreement.bondWith S P.key P.bond.recipient = .ok P.bond
  offer : P.bond.recipient ≠ P.peer
  name : P.current.id ≠ P.longTime.id

/-! ### Sessions -/

/-- A session that encrypts under an agreement, which was promoted at a moment. -/
structure Uses (b : Bond) (moment : Nat) (s : Session) : Prop extends s.Furnished P.config where
  id : s.longTimeId = P.longTime.id
  pair : s.longTimePair = P.longTime.pair
  state : s.state = .forwardSecrecy
  active : ∃ g, s.active = some g ∧ g.bond = some b ∧
    g.staleAt = some (after moment P.config.expireAfter.millis) ∧
    s.initialized.stored b.id = some ⟨b.id, g, moment⟩

def used (renewed : Bool) : Bond := if renewed then P.bond else P.current

/-- The moment of the last promotion before the renewal, or the present one. -/
def mark (recent : Bool) : Nat := if recent then P.now else P.since

structure Holds (f : Phase) (s : Session) : Prop where
  uses : P.Uses (P.used f.renewed) (P.mark f.renewed) s
  renewal : s.lastRenewAttemptAt = some (P.mark f.tried)
  exchange : if f.sent then s.lastKeyExchangeAt = some P.now else ∀ t, s.lastKeyExchangeAt = some t → t ≤ P.since
  slot : s.inactive = f.slot

/-- What may be under negotiation at a stage. -/
def Slot : Stage → AgreementSlot → Prop
  | .idle, slot => ∀ g, slot = some g → g.keyPair = P.key
  | .asked, slot => ∃ g, slot = some g ∧ g.keyPair = P.key
  | .bonded _, slot => ∃ g, slot = some g ∧ g.keyPair = P.key ∧ g.bond = some P.bond
  | .promoted _, slot | .settled, slot => slot = none
  | .primed _, _ => True

/-! ### Messages -/

def Says : Item → ArmMessage → Prop
  | .key, content => content = .keyExchange P.key.publicKey
  | .ack, content => content = .acknowledgement P.bond.id
  | .spare, content => ∃ id, content = .acknowledgement id

def Carries (i : Item) (m : ArmedMessage) : Prop :=
  ∃ content, P.Says i content ∧ Sealed (P.context S) P.longTime.id P.longTime.pair content m

/-- A turn with a session in some phase, and with what it leaves behind. -/
structure Stands (f : Phase) (checks : Nat) (posted : List Item) (t : Turn) : Prop where
  session : P.Holds f t.session
  /-- The next key to be drawn is the one for the next agreement. -/
  key : f.renewed = false → f.slot = none → S.keyPair t.entropy.drawSecret.1 = P.key
  deferred : t.deferred = List.replicate checks .checkRenewal
  outbox : List.Forall₂ (P.Carries S) posted t.outbox
  events : t.events = []

def StandsAt (s : Stage) (checks : Nat) (posted : List Item) (t : Turn) : Prop :=
  ∃ slot, P.Slot s slot ∧ P.Stands S (s.phase slot) checks posted t

variable {S P} {f f' : Phase} {checks : Nat} {posted : List Item} {t : Turn} {s : Stage} {x : Session} {b : Bond}
  {moment : Nat}

/-! ### What is in use -/

theorem Ready.mark (hP : P.Ready S) (recent : Bool) :
    P.mark recent ≤ P.now ∧ P.now < P.mark recent + P.config.expireAfter.millis := by
  have := hP.began
  have := hP.expiry
  unfold Party.mark
  split <;> omega

theorem Uses.overdue (hx : P.Uses b moment x) (hP : P.Ready S)
    (hm : moment ≤ P.now ∧ P.now < moment + P.config.expireAfter.millis) {i : Overlay.Item AgreementId Agreement}
    (hi : i.touchedAt = moment) : x.initialized.overdue i P.now = false := by
  rw [Cache.overdue_eq, hx.ttl, hi]
  cases hr : P.config.retention.bound? with
  | none => rfl
  | some ttl =>
    have := hP.retention ttl hr
    simp only [Option.any_some, decide_eq_false_iff_not]
    omega

theorem Ready.isStale (hP : P.Ready S) {g : Agreement} (hg : g.staleAt = some (after moment P.config.expireAfter.millis))
    (hm : P.now < moment + P.config.expireAfter.millis) : g.isStale P.now = false := by
  have := hP.clock
  simp only [Agreement.isStale, hg, Option.any_some, decide_eq_false_iff_not, after]
  omega

/-- Of a session only these parts matter for what it uses. -/
theorem Uses.congr (hx : P.Uses b moment x) {y : Session} (hid : y.longTimeId = x.longTimeId)
    (hpair : y.longTimePair = x.longTimePair) (hstate : y.state = x.state) (hactive : y.active = x.active)
    (hinitialized : y.initialized = x.initialized) : P.Uses b moment y where
  sound := hinitialized ▸ hx.sound
  bounds := hinitialized ▸ hx.bounds
  id := hid.trans hx.id
  pair := hpair.trans hx.pair
  state := hstate.trans hx.state
  active := by
    rw [hactive, hinitialized]
    exact hx.active

theorem Uses.get (hx : P.Uses b moment x) (hP : P.Ready S)
    (hm : moment ≤ P.now ∧ P.now < moment + P.config.expireAfter.millis) :
    ∃ g c, x.initialized.get b.id P.now = (some g, c) ∧ g.pair = some b.pair ∧ g.isStale P.now = false ∧
      P.Uses b moment { x with initialized := c } := by
  obtain ⟨g, hg, hbond, hstale, hi⟩ := hx.active
  have hkept := hx.overdue hP hm (i := ⟨b.id, g, moment⟩) rfl
  have hfound : (x.initialized.get b.id P.now).1 = some g := by
    rw [Cache.get_fst hx.sound, Cache.peek_stored hx.sound, hi, Option.bind_some, hkept]
    rfl
  have hstored : (x.initialized.get b.id P.now).2.stored b.id = some ⟨b.id, g, moment⟩ := by
    rw [Cache.stored_get hx.sound, if_pos rfl, hi, Option.bind_some, hkept, if_neg Bool.false_ne_true,
      Cache.used_of_afterWrite hx.policy]
  refine ⟨g, _, Prod.ext hfound rfl, by rw [Agreement.pair, hbond]; rfl, hP.isStale hstale hm.2, ?_⟩
  exact ⟨hx.toFurnished.consult b.id P.now, hx.id, hx.pair, hx.state, g, hg, hbond, hstale, hstored⟩

/-! ### Posting -/

theorem Stands.withSession (ht : P.Stands S f checks posted t) (hx : P.Holds f' x)
    (hf : f'.renewed = true ∨ f'.slot ≠ none) : P.Stands S f' checks posted (t.withSession x) := by
  refine ⟨hx, ?_, ht.deferred, ht.outbox, ht.events⟩
  intro hr hs
  rcases hf with hf | hf
  · rw [hr] at hf
    cases hf
  · exact absurd hs hf

theorem Stands.sealLongTime (ht : P.Stands S f checks posted t) (hP : P.Ready S) {i : Item} {content : ArmMessage}
    (hi : P.Says i content) :
    ∃ m, (t.sealLongTime (P.context S) content).1 = .ok m ∧
      P.Stands S f checks (posted ++ [i]) ((t.sealLongTime (P.context S) content).2.post m) := by
  have hcontent : ∀ payload, content ≠ .application payload := by
    rintro payload rfl
    cases i with
    | key => cases hi
    | ack => cases hi
    | spare =>
      obtain ⟨id, hid⟩ := hi
      cases hid
  have hseals : (P.context S).suite.Seals := hP.seals
  obtain ⟨m, hm, hsealed⟩ := Turn.sealMessage_negotiates hseals t.session.longTimeId t.session.longTimePair
    hcontent t
  rw [ht.session.uses.id, ht.session.uses.pair] at hsealed
  exact ⟨m, hm, ht.session, ht.key, ht.deferred, List.rel_append ht.outbox (.cons ⟨content, hi, hsealed⟩ .nil),
    ht.events⟩

/-! ### Negotiation -/

/-- Making sure of a key.  It is the one for the next agreement, unless that is promoted already. -/
theorem Stands.ensureInactive (ht : P.Stands S f checks posted t) :
    ∃ g, (t.ensureInactive (P.context S)).1 = g.keyPair.publicKey ∧
      P.Stands S { f with slot := some g } checks posted (t.ensureInactive (P.context S)).2 ∧
      (∀ g', f.slot = some g' → g = g') ∧
      (f.renewed = false → (∀ g', f.slot = some g' → g'.keyPair = P.key) → g.keyPair = P.key) := by
  have hslot := ht.session.slot
  unfold Turn.ensureInactive
  cases hf : f.slot with
  | some g =>
    rw [hf] at hslot
    have hsame : ({ f with slot := some g } : Phase) = f := by rw [← hf]
    simp only [hslot]
    refine ⟨g, rfl, ?_, fun g' hg' => Option.some.inj hg', fun _ hown => hown g rfl⟩
    rw [hsame]
    exact ht
  | none =>
    rw [hf] at hslot
    simp only [hslot]
    refine ⟨.ofKeyPair (S.keyPair t.entropy.drawSecret.1), rfl, ?_, nofun, fun hr _ => ht.key hr hf⟩
    obtain ⟨huses, hrenewal, hexchange, -⟩ := ht.session
    exact ⟨⟨huses.congr rfl rfl rfl rfl rfl, hrenewal, hexchange, rfl⟩, fun _ hs => (by cases hs), ht.deferred,
      ht.outbox, ht.events⟩

theorem Stands.sendKeyExchange (ht : P.Stands S f checks posted t) (hP : P.Ready S) (hf : f.slot ≠ none) :
    (t.sendKeyExchange (P.context S) P.key.publicKey).1 = .ok () ∧
      P.Stands S { f with sent := true } checks (posted ++ [.key])
        (t.sendKeyExchange (P.context S) P.key.publicKey).2 := by
  have hsays : P.Says .key (.keyExchange P.key.publicKey) := rfl
  obtain ⟨m, hm, hposted⟩ := ht.sealLongTime hP hsays
  unfold Turn.sendKeyExchange
  cases hr : t.sealLongTime (P.context S) (.keyExchange P.key.publicKey) with
  | mk result t' =>
    rw [hr] at hm hposted
    simp only at hm hposted
    subst hm
    obtain ⟨huses, hrenewal, -, hslot⟩ := hposted.session
    exact ⟨rfl, hposted.withSession ⟨huses.congr rfl rfl rfl rfl rfl, hrenewal, rfl, hslot⟩ (Or.inr hf)⟩

theorem Stands.doKeyExchange_first (ht : P.Stands S f checks posted t) (hP : P.Ready S) (hdue : P.due = true)
    (hsent : f.sent = false) {g : Agreement} (hg : f.slot = some g) (hown : g.keyPair = P.key) :
    (t.doKeyExchange (P.context S)).1 = .ok () ∧
      P.Stands S { f with sent := true } checks (posted ++ [.key]) (t.doKeyExchange (P.context S)).2 := by
  have hexchange := ht.session.exchange
  rw [hsent, if_neg Bool.false_ne_true] at hexchange
  have helapsed : intervalElapsed t.session.lastKeyExchangeAt (P.context S).now
      (P.context S).config.retryInterval.millis = true := by
    have hinterval : P.config.retryInterval.millis < P.now - P.since := of_decide_eq_true hdue
    unfold intervalElapsed
    cases hlast : t.session.lastKeyExchangeAt with
    | none => rfl
    | some last =>
      have := hexchange last hlast
      have hlt : P.config.retryInterval.millis < P.now - last := by omega
      exact decide_eq_true hlt
  have hslot := ht.session.slot.trans hg
  unfold Turn.doKeyExchange Turn.ensureInactive
  simp only [hslot, helapsed, if_true, hown]
  exact ht.sendKeyExchange hP (by rw [hg]; exact Option.some_ne_none g)

theorem Stands.doKeyExchange_again (ht : P.Stands S f checks posted t) (hsent : f.sent = true) {g : Agreement}
    (hg : f.slot = some g) : t.doKeyExchange (P.context S) = (.ok (), t) := by
  have hexchange := ht.session.exchange
  rw [hsent, if_pos rfl] at hexchange
  have helapsed : intervalElapsed t.session.lastKeyExchangeAt (P.context S).now
      (P.context S).config.retryInterval.millis = false := by
    rw [hexchange]
    simp [intervalElapsed, context]
  have hslot := ht.session.slot.trans hg
  unfold Turn.doKeyExchange Turn.ensureInactive
  simp only [hslot, helapsed, Bool.false_eq_true, if_false]

theorem Stands.sendAck (ht : P.Stands S f checks posted t) (hP : P.Ready S) {g : Agreement} {b : Bond}
    (hg : f.slot = some g) (hb : g.bond = some b) {i : Item} (hi : P.Says i (.acknowledgement b.id)) :
    P.Stands S f checks (posted ++ [i]) (t.sendAck (P.context S)).2 := by
  have hid : t.session.inactiveId = some b.id := by
    rw [Session.inactiveId, ht.session.slot, hg, Option.bind_some, Agreement.id, hb]
    rfl
  obtain ⟨m, hm, hposted⟩ := ht.sealLongTime hP hi
  unfold Turn.sendAck
  rw [hid]
  simp only
  cases hr : t.sealLongTime (P.context S) (.acknowledgement b.id) with
  | mk result t' =>
    rw [hr] at hm hposted
    simp only at hm hposted
    subst hm
    exact hposted

theorem Stands.bondInactive (ht : P.Stands S f checks posted t) {g : Agreement} (hg : f.slot = some g)
    {key : PublicKey} {b : Bond} (hb : Agreement.bondWith S g.keyPair key = .ok b) :
    (t.bondInactive (P.context S) key).1 = .ok () ∧
      P.Stands S { f with slot := some { g with bond := some b } } checks posted
        (t.bondInactive (P.context S) key).2 := by
  have hslot := ht.session.slot.trans hg
  have hr := Turn.bondInactive_ok (x := P.context S) hslot hb
  rw [hr]
  obtain ⟨huses, hrenewal, hexchange, -⟩ := ht.session
  exact ⟨rfl, ht.withSession ⟨huses.congr rfl rfl rfl rfl rfl, hrenewal, hexchange, rfl⟩
    (Or.inr (Option.some_ne_none _))⟩

/-- The other end's key is bonded with ours and acknowledged, after our own key was sent if it was not. -/
theorem Stands.receivedKeyExchange (ht : P.Stands S f checks posted t) (hP : P.Ready S) (hdue : P.due = true)
    (hrenewed : f.renewed = false) (hown : ∀ g, f.slot = some g → g.keyPair = P.key) :
    ∃ g, g.keyPair = P.key ∧ g.bond = some P.bond ∧
      P.Stands S { f with sent := true, slot := some g } checks
        (posted ++ (if f.sent then [.ack] else [.key, .ack]))
        (t.receivedKeyExchange (P.context S) P.bond.recipient).2 := by
  obtain ⟨g, -, hensure, -, hkey⟩ := ht.ensureInactive
  have hg := hkey hrenewed hown
  have hbonded : Agreement.bondWith S g.keyPair P.bond.recipient = .ok P.bond := by
    rw [hg]
    exact hP.bonded
  obtain ⟨hok, hbond⟩ := hensure.bondInactive rfl hbonded
  have hoffer : ¬ P.bond.recipient = (P.context S).peer := hP.offer
  have hforward : (P.context S).config.forwardSecrecy = true := hP.forward
  refine ⟨{ g with bond := some P.bond }, hg, rfl, ?_⟩
  unfold Turn.receivedKeyExchange
  rw [if_neg hoffer]
  simp only
  cases hr : Turn.bondInactive (P.context S) P.bond.recipient (t.ensureInactive (P.context S)).2 with
  | mk result t₁ =>
    rw [hr] at hok hbond
    simp only at hok hbond
    subst hok
    simp only
    rw [if_pos hforward]
    cases hsent : f.sent with
    | true =>
      rw [hbond.doKeyExchange_again hsent rfl, if_pos rfl]
      have hsame : ({ f with sent := true, slot := some { g with bond := some P.bond } } : Phase) =
          { f with slot := some { g with bond := some P.bond } } := by rw [← hsent]
      rw [hsame]
      exact hbond.sendAck hP rfl rfl rfl
    | false =>
      obtain ⟨hfirst, hexchange⟩ := hbond.doKeyExchange_first hP hdue hsent rfl hg
      rw [if_neg Bool.false_ne_true]
      cases hd : t₁.doKeyExchange (P.context S) with
      | mk result t₂ =>
        rw [hd] at hfirst hexchange
        simp only at hfirst hexchange
        subst hfirst
        have happend : posted ++ [.key, .ack] = posted ++ [.key] ++ [.ack] := by simp
        rw [happend]
        exact hexchange.sendAck hP rfl rfl rfl

/-- After the promotion the other end's key is bonded with a new one of ours, and that agreement is
acknowledged, if it can be made. -/
theorem Stands.receivedKeyExchange_late (ht : P.Stands S f checks posted t) (hP : P.Ready S)
    (hsent : f.sent = true) :
    ∃ g, ∃ spare : Bool, P.Stands S { f with slot := some g } checks
      (posted ++ (if spare then [.spare] else []))
      (t.receivedKeyExchange (P.context S) P.bond.recipient).2 := by
  obtain ⟨g, -, hensure, -⟩ := ht.ensureInactive
  have hoffer : ¬ P.bond.recipient = (P.context S).peer := hP.offer
  have hforward : (P.context S).config.forwardSecrecy = true := hP.forward
  unfold Turn.receivedKeyExchange
  rw [if_neg hoffer]
  simp only
  cases hb : Agreement.bondWith S g.keyPair P.bond.recipient with
  | error e =>
    refine ⟨g, false, ?_⟩
    have hfail : Turn.bondInactive (P.context S) P.bond.recipient (t.ensureInactive (P.context S)).2 =
        (.error e, (t.ensureInactive (P.context S)).2) :=
      Turn.bondInactive_refused hensure.session.slot hb
    rw [hfail, if_neg Bool.false_ne_true, List.append_nil]
    exact hensure
  | ok b =>
    obtain ⟨hok, hbond⟩ := hensure.bondInactive rfl hb
    refine ⟨{ g with bond := some b }, true, ?_⟩
    cases hr : Turn.bondInactive (P.context S) P.bond.recipient (t.ensureInactive (P.context S)).2 with
    | mk result t₁ =>
      rw [hr] at hok hbond
      simp only at hok hbond
      subst hok
      simp only
      rw [if_pos hforward, hbond.doKeyExchange_again hsent rfl, if_pos trivial]
      exact hbond.sendAck hP rfl rfl ⟨b.id, rfl⟩

/-! ### Promotion -/

theorem Stands.promote (ht : P.Stands S f checks posted t) {g : Agreement} (hg : f.slot = some g)
    (hb : g.bond = some P.bond) :
    P.Stands S { f with renewed := true, tried := true, slot := none } checks posted
      (t.promote (P.context S) P.bond.id).2 := by
  have hid : g.id = some P.bond.id := by
    rw [Agreement.id, hb]
    rfl
  obtain ⟨huses, -, hexchange, hslot⟩ := ht.session
  rw [Turn.turn_promote (hslot.trans hg) hid]
  refine ⟨⟨?_, rfl, hexchange, rfl⟩, fun hr => (by cases hr), ht.deferred, ht.outbox, ?_⟩
  · exact ⟨huses.toFurnished.promote _ _ _, huses.id, huses.pair, rfl, (P.context S).dated g, rfl, hb, rfl,
      huses.toFurnished.stored_promote _ _ _⟩
  · show t.events ++ changed P.peer t.session.state .forwardSecrecy = []
    rw [ht.events, huses.state]
    rfl

/-! ### Checks -/

theorem Stands.checkForRenew_eq (ht : P.Stands S f checks posted t) (hP : P.Ready S) :
    ∃ g, t.session.active = some g ∧ t.checkForRenew (P.context S) =
      if g.isRenewable P.now ∧
          intervalElapsed t.session.lastRenewAttemptAt P.now P.config.retryInterval.millis = true then
        let t' := (t.withSession { t.session with lastRenewAttemptAt := some P.now }).ensureInactive (P.context S)
        t'.2.sendKeyExchange (P.context S) t'.1
      else (.ok (), t) := by
  have huses := ht.session.uses
  obtain ⟨g, hg, hbond, hstale, hi⟩ := huses.active
  have hm := hP.mark f.renewed
  have hid : g.id = some (P.used f.renewed).id := by
    rw [Agreement.id, hbond]
    rfl
  have htracked : t.session.initialized.contains (P.used f.renewed).id P.now = true := by
    rw [Cache.contains_stored huses.sound, hi, Option.any_some, huses.overdue hP hm rfl]
    rfl
  have hnow : (P.context S).now = P.now := rfl
  have hconfig : (P.context S).config = P.config := rfl
  refine ⟨g, hg, ?_⟩
  unfold Turn.checkForRenew
  simp only [hg, hid, hnow, hconfig, hP.isStale hstale hm.2, Option.any_some, htracked, Bool.not_true,
    Bool.or_false, Bool.false_eq_true, if_false, Bool.and_eq_true]

theorem Stands.checkForRenew_due (ht : P.Stands S f checks posted t) (hP : P.Ready S) (hdue : P.due = true)
    (hrenewed : f.renewed = false) (htried : f.tried = false) (hown : ∀ g, f.slot = some g → g.keyPair = P.key) :
    ∃ g, g.keyPair = P.key ∧ (∀ g', f.slot = some g' → g = g') ∧
      P.Stands S { f with tried := true, sent := true, slot := some g } checks (posted ++ [.key])
        (t.checkForRenew (P.context S)).2 := by
  obtain ⟨huses, hrenewal, hexchange, hslot⟩ := ht.session
  obtain ⟨g₀, hg₀, hcheck⟩ := ht.checkForRenew_eq hP
  have hstale : g₀.staleAt = some (after P.since P.config.expireAfter.millis) := by
    obtain ⟨g, hg, -, hstale, -⟩ := huses.active
    rw [hg₀] at hg
    cases hg
    rw [hrenewed] at hstale
    exact hstale
  have hrenewable : g₀.isRenewable P.now = true := by
    have := hP.renewable
    have := hP.began
    simp only [Agreement.isRenewable, hstale, Option.any_some, decide_eq_true_eq, after]
    omega
  have helapsed : intervalElapsed t.session.lastRenewAttemptAt P.now P.config.retryInterval.millis = true := by
    rw [hrenewal, htried]
    exact hdue
  have hattempt : P.Stands S { f with tried := true } checks posted
      (t.withSession { t.session with lastRenewAttemptAt := some P.now }) :=
    ⟨⟨huses.congr rfl rfl rfl rfl rfl, rfl, hexchange, hslot⟩, ht.key, ht.deferred, ht.outbox, ht.events⟩
  obtain ⟨g, hkey, hensure, hsame, hown'⟩ := hattempt.ensureInactive
  have hg := hown' hrenewed hown
  refine ⟨g, hg, hsame, ?_⟩
  rw [hcheck, if_pos ⟨hrenewable, helapsed⟩]
  simp only
  rw [hkey, hg]
  exact (hensure.sendKeyExchange hP (Option.some_ne_none g)).2

theorem Stands.checkForRenew_calm (ht : P.Stands S f checks posted t) (hP : P.Ready S)
    (hcalm : P.due = false ∨ f.tried = true) : (t.checkForRenew (P.context S)).2 = t := by
  obtain ⟨g, -, hcheck⟩ := ht.checkForRenew_eq hP
  have helapsed : intervalElapsed t.session.lastRenewAttemptAt P.now P.config.retryInterval.millis = false := by
    rw [ht.session.renewal]
    cases hf : f.tried with
    | true => simp [intervalElapsed, mark]
    | false =>
      rw [hf] at hcalm
      exact hcalm.resolve_right Bool.false_ne_true
  rw [hcheck, if_neg]
  rintro ⟨-, h⟩
  rw [helapsed] at h
  cases h

/-- **Checking for a renewal** does what the outline says. -/
theorem StandsAt.checkForRenew (ht : P.StandsAt S s checks posted t) (hP : P.Ready S)
    (hs : P.due = false → s = .idle) :
    P.StandsAt S (if P.due then s.check else s) checks (posted ++ if P.due then s.news s.check else [])
      (t.checkForRenew (P.context S)).2 := by
  obtain ⟨slot, hslot, hstands⟩ := ht
  have hcalm : ∀ s', s' = s → P.due = false ∨ s.tried = true → s.news s' = [] →
      P.StandsAt S s' checks (posted ++ s.news s') (t.checkForRenew (P.context S)).2 := by
    rintro s' rfl hcalm hnews
    rw [hstands.checkForRenew_calm hP hcalm, hnews, List.append_nil]
    exact ⟨slot, hslot, hstands⟩
  cases hdue : P.due with
  | false =>
    have hnone : s.news s = [] := List.drop_eq_nil_iff.2 (Nat.le_refl _)
    have hsame := hcalm s rfl (Or.inl hdue) hnone
    rw [hnone] at hsame
    exact hsame
  | true =>
    simp only [if_true]
    cases s with
    | idle =>
      obtain ⟨g, hg, -, hoffer⟩ := hstands.checkForRenew_due hP hdue rfl rfl hslot
      exact ⟨some g, ⟨g, rfl, hg⟩, hoffer⟩
    | bonded way =>
      cases way with
      | answered =>
        obtain ⟨g, rfl, hg, hb⟩ := hslot
        obtain ⟨g', hg', hsame, hoffer⟩ := hstands.checkForRenew_due hP hdue rfl rfl fun g' hg' => by
          cases hg'
          exact hg
        cases hsame g rfl
        exact ⟨some g, ⟨g, rfl, hg, hb⟩, hoffer⟩
      | asked => exact hcalm _ rfl (Or.inr rfl) rfl
      | repeated => exact hcalm _ rfl (Or.inr rfl) rfl
    | asked => exact hcalm _ rfl (Or.inr rfl) rfl
    | promoted way => exact hcalm _ rfl (Or.inr rfl) (List.drop_eq_nil_iff.2 (Nat.le_refl _))
    | primed spare => exact hcalm _ rfl (Or.inr rfl) (List.drop_eq_nil_iff.2 (Nat.le_refl _))
    | settled => exact hcalm _ rfl (Or.inr rfl) rfl

/-! ### Messages from the other end -/

/-- The two ends use the same, and will agree on the same. -/
structure Faces (P Q : Party) : Prop where
  own : Q.own.publicKey = P.peer
  peer : Q.peer = P.own.publicKey
  longTime : Q.longTime.id = P.longTime.id ∧ Q.longTime.pair = P.longTime.pair.swap
  current : Q.current.id = P.current.id ∧ Q.current.pair = P.current.pair.swap
  bond : Q.bond.id = P.bond.id ∧ Q.bond.pair = P.bond.pair.swap
  key : Q.key.publicKey = P.bond.recipient

variable {Q : Party} {i : Item} {m : ArmedMessage}

theorem Faces.open (hQ : P.Faces Q) (hS : S.Opens) {b b' : Bond} (hb : b'.id = b.id ∧ b'.pair = b.pair.swap)
    {content : ArmMessage} (hm : Sealed (Q.context S) b'.id b'.pair content m) :
    m.agreementId = b.id ∧ Turn.openMessage (P.context S) b.pair m = .ok content := by
  have hname : m.agreementId = b.id := hm.name.trans hb.1
  have hkeys : b.pair.rx = b'.pair.tx := by
    rw [hb.2]
    rfl
  exact ⟨hname, Turn.openMessage_mirrored hS hm rfl hQ.own hQ.peer hkeys⟩

theorem Stands.defer (ht : P.Stands S f checks posted t) :
    P.Stands S f (checks + 1) posted (t.defer .checkRenewal) := by
  refine ⟨ht.session, ht.key, ?_, ht.outbox, ht.events⟩
  rw [List.replicate_succ', ← ht.deferred]
  rfl

/-- A message of the renewal is opened and handled. -/
theorem Stands.disarmInbound (ht : P.Stands S f checks posted t) (hP : P.Ready S) (hQ : P.Faces Q) (hS : S.Opens)
    (hm : Q.Carries S i m) :
    ∃ content, Q.Says i content ∧
      (t.disarmInbound (P.context S) m).2 = ((t.defer .checkRenewal).handle (P.context S) content true).2 := by
  obtain ⟨content, hi, hsealed⟩ := hm
  obtain ⟨hname, hopen⟩ := hQ.open hS hQ.longTime hsealed
  have hforward : (P.context S).config.forwardSecrecy = true := hP.forward
  have huses := ht.session.uses
  refine ⟨content, hi, ?_⟩
  have hopened : (t.defer .checkRenewal).openInbound (P.context S) m =
      (.ok (content, true), t.defer .checkRenewal) := by
    have hid : m.agreementId = (t.defer .checkRenewal).session.longTimeId := hname.trans huses.id.symm
    have hopen' : Turn.openMessage (P.context S) (t.defer .checkRenewal).session.longTimePair m = .ok content := by
      have hpair : (t.defer .checkRenewal).session.longTimePair = P.longTime.pair := huses.pair
      rw [hpair]
      exact hopen
    unfold Turn.openInbound
    simp only
    rw [if_pos hid, hopen']
    rfl
  unfold Turn.disarmInbound
  simp only [hforward, if_true, hopened]

theorem Stands.disarmKey (ht : P.Stands S f checks posted t) (hP : P.Ready S) (hQ : P.Faces Q) (hS : S.Opens)
    (hm : Q.Carries S .key m) : (t.disarmInbound (P.context S) m).2 =
      ((t.defer .checkRenewal).receivedKeyExchange (P.context S) P.bond.recipient).2 := by
  have hforward : (P.context S).config.forwardSecrecy = true := hP.forward
  obtain ⟨content, hi, hhandle⟩ := ht.disarmInbound hP hQ hS hm
  have hcontent : content = .keyExchange P.bond.recipient := hi.trans (congrArg _ hQ.key)
  rw [hhandle, hcontent]
  simp only [Turn.handle, Bool.true_and, hforward, if_true]

theorem Stands.disarmAck (ht : P.Stands S f checks posted t) (hP : P.Ready S) (hQ : P.Faces Q) (hS : S.Opens)
    (hi : i ≠ .key) (hm : Q.Carries S i m) :
    ∃ id, (i = .ack → id = P.bond.id) ∧
      (t.disarmInbound (P.context S) m).2 = ((t.defer .checkRenewal).promote (P.context S) id).2 := by
  have hforward : (P.context S).config.forwardSecrecy = true := hP.forward
  obtain ⟨content, hsays, hhandle⟩ := ht.disarmInbound hP hQ hS hm
  obtain ⟨id, hname, hcontent⟩ : ∃ id, (i = .ack → id = P.bond.id) ∧ content = .acknowledgement id := by
    cases i with
    | key => exact absurd rfl hi
    | ack => exact ⟨Q.bond.id, fun _ => hQ.bond.1, hsays⟩
    | spare =>
      obtain ⟨id, hid⟩ := hsays
      exact ⟨id, fun h => (by cases h), hid⟩
  refine ⟨id, hname, ?_⟩
  rw [hhandle, hcontent]
  simp only [Turn.handle, hforward, if_true]

/-- **Hearing what can be understood** does what the outline says. -/
theorem StandsAt.hear (ht : P.StandsAt S s checks posted t) (hP : P.Ready S) (hQ : P.Faces Q) (hS : S.Opens)
    (hdue : P.due = true) (hs : s.hear i ≠ []) (hm : Q.Carries S i m) :
    ∃ s' ∈ s.hear i, P.StandsAt S s' (checks + 1) (posted ++ s.news s')
      (t.disarmInbound (P.context S) m).2 := by
  obtain ⟨slot, hslot, hstands⟩ := ht
  have hrenew := hstands.defer
  cases s with
  | idle =>
    obtain rfl : i = .key := by
      cases i <;> first | rfl | exact absurd rfl hs
    obtain ⟨g, hg, hb, hreceived⟩ := hrenew.receivedKeyExchange hP hdue rfl hslot
    rw [hstands.disarmKey hP hQ hS hm]
    exact ⟨.bonded .answered, List.mem_singleton.2 rfl, some g, ⟨g, rfl, hg, hb⟩, hreceived⟩
  | asked =>
    obtain rfl : i = .key := by
      cases i <;> first | rfl | exact absurd rfl hs
    obtain ⟨g, rfl, hg⟩ := hslot
    obtain ⟨g', hg', hb, hreceived⟩ := hrenew.receivedKeyExchange hP hdue rfl fun g' hg' => by
      cases hg'
      exact hg
    rw [hstands.disarmKey hP hQ hS hm]
    exact ⟨.bonded .asked, List.mem_singleton.2 rfl, some g', ⟨g', rfl, hg', hb⟩, hreceived⟩
  | bonded way =>
    obtain rfl : i = .ack := by
      cases i <;> first | rfl | exact absurd rfl hs
    obtain ⟨g, rfl, hg, hb⟩ := hslot
    obtain ⟨id, hname, hturn⟩ := hstands.disarmAck hP hQ hS (by decide) hm
    rw [hturn, hname rfl]
    have hpromoted := hrenew.promote rfl hb
    refine ⟨.promoted way, List.mem_singleton.2 rfl, none, rfl, ?_⟩
    have hnews : (Stage.bonded way).news (.promoted way) = [] := List.drop_eq_nil_iff.2 (Nat.le_refl _)
    rw [hnews, List.append_nil]
    exact hpromoted
  | promoted way =>
    obtain rfl : slot = none := hslot
    cases way with
    | asked =>
      obtain rfl : i = .key := by
        cases i <;> first | rfl | exact absurd rfl hs
      obtain ⟨g, spare, hreceived⟩ := hrenew.receivedKeyExchange_late hP rfl
      rw [hstands.disarmKey hP hQ hS hm]
      refine ⟨.primed spare, by cases spare <;> decide, some g, trivial, ?_⟩
      have hnews : (Stage.promoted .asked).news (.primed spare) = if spare then [.spare] else [] := by
        cases spare <;> rfl
      rw [hnews]
      exact hreceived
    | answered => cases i <;> exact absurd rfl hs
    | repeated =>
      obtain rfl : i = .spare := by
        cases i <;> first | rfl | exact absurd rfl hs
      obtain ⟨id, -, hturn⟩ := hstands.disarmAck hP hQ hS (by decide) hm
      rw [hturn, Turn.promote_vacant _ _ hrenew.session.slot]
      refine ⟨.settled, List.mem_singleton.2 rfl, none, rfl, ?_⟩
      have hnews : (Stage.promoted .repeated).news .settled = [] := rfl
      rw [hnews, List.append_nil]
      exact hrenew
  | primed spare => cases i <;> exact absurd rfl hs
  | settled => cases i <;> exact absurd rfl hs

/-! ### Payloads -/

/-- Before the renewal a payload goes under the agreement in use, if it can be encrypted. -/
theorem Stands.armOutbound (ht : P.Stands S f checks posted t) (hP : P.Ready S) (hf : f.renewed = false)
    (payload : Bytes) :
    P.Stands S f (checks + 1) posted (t.armOutbound (P.context S) payload).2 ∧
      (t.armOutbound (P.context S) payload).1 =
        ((t.defer .checkRenewal).sealMessage (P.context S) P.current.id P.current.pair (.application payload)).1 := by
  have hforward : (P.context S).config.forwardSecrecy = true := hP.forward
  have hm := hP.mark f.renewed
  obtain ⟨g, hg, hbond, hstale, -⟩ := ht.session.uses.active
  have hactive : Turn.activeBond (P.context S) t.session = some P.current := by
    have hfresh : g.isStale (P.context S).now = false := hP.isStale hstale hm.2
    rw [Turn.activeBond, hg, Option.filter_some, hfresh, Bool.not_false, if_pos rfl, Option.bind_some, hbond, hf]
    rfl
  have hrenew := ht.defer
  have hsession : (t.defer .checkRenewal).session = t.session := rfl
  unfold Turn.armOutbound
  simp only [hforward, if_true, hsession, hactive]
  exact ⟨⟨hrenew.session, hrenew.key, hrenew.deferred, hrenew.outbox, hrenew.events⟩, trivial⟩

theorem Stands.disarmPayload (ht : P.Stands S f checks posted t) (hP : P.Ready S) (hQ : P.Faces Q) (hS : S.Opens)
    (hf : f.renewed = false) {payload : Bytes}
    (hm : Sealed (Q.context S) Q.current.id Q.current.pair (.application payload) m) :
    (t.disarmInbound (P.context S) m).1 = .ok (.application payload) ∧
      P.Stands S f (checks + 1) posted (t.disarmInbound (P.context S) m).2 := by
  have hforward : (P.context S).config.forwardSecrecy = true := hP.forward
  obtain ⟨hname, hopen⟩ := hQ.open hS hQ.current hm
  obtain ⟨huses, hrenewal, hexchange, hslot⟩ := ht.session
  rw [hf] at huses
  obtain ⟨g, c, hget, hpair, hfresh, hkept⟩ := huses.get hP (hP.mark false)
  have hname' : m.agreementId = (P.used false).id := hname
  have hnow : (P.context S).now = P.now := rfl
  have hlong : ¬ (P.used false).id = t.session.longTimeId := by
    rw [huses.id]
    exact hP.name
  have hopened : (t.defer .checkRenewal).openInbound (P.context S) m =
      (.ok (.application payload, false),
        (t.defer .checkRenewal).withSession { t.session with initialized := c }) := by
    have hsession : (t.defer .checkRenewal).session = t.session := rfl
    have hopen' : Turn.openMessage (P.context S) (P.used false).pair m = .ok (.application payload) := hopen
    unfold Turn.openInbound
    simp only [hsession, hname', if_neg hlong, hnow, hget, hpair, hopen', hfresh, Bool.false_eq_true, if_false]
  have hrenew := ht.defer
  unfold Turn.disarmInbound
  simp only [hforward, if_true, hopened]
  refine ⟨rfl, ⟨?_, hrenewal, hexchange, hslot⟩, hrenew.key, hrenew.deferred, hrenew.outbox, hrenew.events⟩
  rw [hf]
  exact hkept

end Party

end Renewal

end Overlay
