import Overlay.Proofs.Agreement.Basic
import Overlay.Proofs.Handshake.Basic
import Overlay.Proofs.Session.Consistent
import Overlay.Proofs.Session.Move

/-!
# Turns of a handshake

One end of a handshake knows what it will agree on (`Party`): the long-time agreement, its own first key, and
the agreement between that key and the first key of the other end.  Its session is at a `Stage` (`Party.At`),
and every operation of a turn takes it to the next one as the outline of the handshake says, within a time in
which nothing runs out (`ArmConfig.Spans`): `Stands.armOutbound`, `Stands.doKeyExchange`,
`Stands.checkForRenew`, and `Stands.disarmInbound` for whatever can be understood.
-/

namespace Overlay

/-- Short-lived agreements are negotiated, and nothing runs out between two moments. -/
structure ArmConfig.Spans (c : ArmConfig) (start finish : Nat) : Prop where
  enabled : c.enabled = true
  fits : c.Fits
  retry : finish ≤ start + c.retryInterval.millis
  expiry : finish < start + c.expireAfter.millis
  idle : ∀ bound, c.sessionExpireAfter.bound? = some bound → finish < start + bound
  clock : finish + c.expireAfter.millis < 2 ^ 64

/-- One end of a handshake, and what it will agree on. -/
structure Party where
  config : ArmConfig
  own : KeyPair
  peer : PublicKey
  longTime : Bond
  /-- Our first key. -/
  key : KeyPair
  /-- The agreement between the first keys. -/
  bond : Bond
  /-- The time in which the handshake takes place. -/
  start : Nat
  finish : Nat

namespace Party

variable (S : Suite) (P : Party)

def context (now : Nat) : Context := ⟨S, P.config, P.own, P.peer, now⟩

def Within (now : Nat) : Prop := P.start ≤ now ∧ now ≤ P.finish

/-- The agreements can be made and told apart. -/
structure Ready : Prop where
  spans : P.config.Spans P.start P.finish
  seals : S.Seals
  grounded : Agreement.bondWith S P.own P.peer = .ok P.longTime
  bonded : Agreement.bondWith S P.key P.bond.recipient = .ok P.bond
  offer : P.bond.recipient ≠ P.peer
  name : P.bond.id ≠ P.longTime.id

/-! ### Sessions -/

/-- A session on the long-time agreement. -/
structure Grounded (s : Session) : Prop where
  id : s.longTimeId = P.longTime.id
  pair : s.longTimePair = P.longTime.pair
  sound : s.initialized.Sound
  bounds : s.initialized.bounds = (.afterWrite, P.config.retention.bound?, P.config.maxAgreements)

/-- A session that has promoted nothing, with an agreement under negotiation, and whether our key of it
was sent. -/
structure Early (negotiated : Option Agreement) (offered : Bool) (s : Session) : Prop
    extends P.Grounded s where
  inactive : s.inactive = negotiated
  active : s.active = none
  state : s.state = .longTime
  stored : ∀ id, s.initialized.stored id = none
  exchange : if offered then ∃ t, s.lastKeyExchangeAt = some t ∧ P.start ≤ t
    else s.lastKeyExchangeAt = none

/-- A session that has promoted the agreement.  It may have drawn another key, which was not sent. -/
structure Late (s : Session) : Prop extends P.Grounded s where
  inactive : ∀ g, s.inactive = some g → g.bond = none
  state : s.state = .forwardSecrecy
  exchange : ∃ t, s.lastKeyExchangeAt = some t ∧ P.start ≤ t
  renewal : ∃ t, s.lastRenewAttemptAt = some t ∧ P.start ≤ t
  active : ∃ g deadline i, s.active = some g ∧ g.bond = some P.bond ∧ g.staleAt = some deadline ∧
    P.finish < deadline ∧ s.initialized.stored P.bond.id = some i ∧ i.value = g ∧ P.start ≤ i.touchedAt

def agreement : Agreement := ⟨P.key, some P.bond, none⟩

def At : Stage → Session → Prop
  | .fresh => P.Early none false
  | .offered => P.Early (some (.ofKeyPair P.key)) true
  | .bonded => P.Early (some P.agreement) true
  | .promoted => P.Late

/-! ### Messages -/

def cover : Parcel → Bond
  | .covered _ => P.bond
  | _ => P.longTime

def content : Parcel → ArmMessage
  | .plain payload | .covered payload => .application payload
  | .key => .keyExchange P.key.publicKey
  | .ack => .acknowledgement P.bond.id

def Carries (i : Parcel) (m : ArmedMessage) : Prop :=
  Sealed (P.context S P.start) (P.cover i).id (P.cover i).pair (P.content i) m

/-- A turn with a session as required, and with what it leaves behind. -/
structure Stands (A : Session → Prop) (jobs : List Deferred) (posted : List Parcel) (events : List Event)
    (t : Turn) : Prop where
  session : A t.session
  /-- The next key to be drawn is the first one. -/
  key : t.session.inactive = none → t.session.active = none →
    S.keyPair t.entropy.drawSecret.1 = P.key
  deferred : t.deferred = jobs
  outbox : List.Forall₂ (P.Carries S) posted t.outbox
  events : t.events = events

variable {S P} {now : Nat} {A B : Session → Prop} {jobs : List Deferred} {posted : List Parcel}
  {events : List Event} {t : Turn} {s : Session}

/-! ### Nothing runs out -/

theorem Ready.forwardSecrecy (hP : P.Ready S) (hnow : P.Within now) :
    P.config.forwardSecrecy = true := by
  have := hP.spans.expiry
  have := hnow.1
  have := hnow.2
  exact forwardSecrecy_of_pos hP.spans.enabled (by omega)

theorem Ready.elapsed (hP : P.Ready S) (hnow : P.Within now) {last : Option Nat}
    (hlast : ∃ t, last = some t ∧ P.start ≤ t) :
    intervalElapsed last now P.config.retryInterval.millis = false := by
  obtain ⟨t, rfl, ht⟩ := hlast
  have := hP.spans.retry
  have := hnow.2
  simp only [intervalElapsed, Option.all_some, decide_eq_false_iff_not]
  omega

theorem Grounded.overdue (hs : P.Grounded s) (hP : P.Ready S) (hnow : P.Within now)
    {i : Item AgreementId Agreement} (hi : P.start ≤ i.touchedAt) :
    s.initialized.overdue i now = false := by
  have hb : s.initialized.ttl = P.config.retention.bound? := congrArg (·.2.1) hs.bounds
  rw [Cache.overdue_eq, hb]
  cases hr : P.config.retention.bound? with
  | none => rfl
  | some ttl =>
    have := expireAfter_le_retention hP.spans.fits hr
    have := hP.spans.expiry
    have := hnow.1
    have := hnow.2
    simp only [Option.any_some, decide_eq_false_iff_not]
    omega

/-! ### The handshake -/

theorem Stands.withSession (ht : P.Stands S A jobs posted events t) (hB : B s)
    (hs : s.inactive ≠ none ∨ s.active ≠ none) :
    P.Stands S B jobs posted events (t.withSession s) :=
  ⟨hB, fun hi ha => (hs.elim (fun h => h hi) fun h => h ha).elim, ht.deferred, ht.outbox, ht.events⟩

theorem Stands.sealMessage (ht : P.Stands S A jobs posted events t) (x : Context) (id : AgreementId)
    (pair : SessionPair) (content : ArmMessage) :
    P.Stands S A jobs posted events (t.sealMessage x id pair content).2 :=
  ⟨ht.session, ht.key, ht.deferred, ht.outbox, ht.events⟩

theorem Stands.post (ht : P.Stands S A jobs posted events t) {i : Parcel} {m : ArmedMessage}
    (hm : P.Carries S i m) : P.Stands S A jobs (posted ++ [i]) events (t.post m) :=
  ⟨ht.session, ht.key, ht.deferred, List.rel_append ht.outbox (.cons hm .nil), ht.events⟩

/-- What is sealed under the agreement of a parcel carries it. -/
theorem carries_sealMessage {i : Parcel} {m : ArmedMessage} {b : Bond} (hb : P.cover i = b)
    (hm : (t.sealMessage (P.context S now) b.id b.pair (P.content i)).1 = .ok m) : P.Carries S i m := by
  subst hb
  have hsealed := Turn.sealMessage_ok hm
  exact ⟨hsealed.name, hsealed.encrypted⟩

theorem sealLongTime_ok (now : Nat) (hP : P.Ready S) (hs : P.Grounded t.session) (i : Parcel) (hi : i.ofHandshake) :
    ∃ m, t.sealLongTime (P.context S now) (P.content i) =
      (.ok m, (t.sealLongTime (P.context S now) (P.content i)).2) ∧ P.Carries S i m := by
  obtain ⟨hcover, hcontent⟩ : P.cover i = P.longTime ∧ ∀ payload, P.content i ≠ .application payload := by
    cases i with
    | key | ack => exact ⟨rfl, fun _ h => (by cases h)⟩
    | plain payload | covered payload => cases hi
  have hseals : (P.context S now).suite.Seals := hP.seals
  obtain ⟨m, hm, -⟩ := Turn.sealMessage_negotiates hseals P.longTime.id P.longTime.pair hcontent t
  refine ⟨m, ?_, carries_sealMessage hcover hm⟩
  rw [Turn.sealLongTime, hs.id, hs.pair]
  exact Prod.ext hm rfl

theorem Stands.ensureInactive {o : Option Agreement} {offered : Bool}
    (now : Nat) (ht : P.Stands S (P.Early o offered) jobs posted events t)
    (ho : ∀ g, o = some g → g.keyPair = P.key) :
    (t.ensureInactive (P.context S now)).1 = P.key.publicKey ∧
      P.Stands S (P.Early (some (o.getD (.ofKeyPair P.key))) offered) jobs posted events
        (t.ensureInactive (P.context S now)).2 := by
  have hinactive := ht.session.inactive
  cases o with
  | some g =>
    have hr : t.ensureInactive (P.context S now) = (g.keyPair.publicKey, t) := by
      unfold Turn.ensureInactive
      rw [hinactive]
    rw [hr]
    exact ⟨congrArg KeyPair.publicKey (ho g rfl), ht⟩
  | none =>
    have hkey := ht.key hinactive ht.session.active
    have hr : t.ensureInactive (P.context S now) = (P.key.publicKey,
        { t with session := { t.session with inactive := some (.ofKeyPair P.key) }
                 entropy := t.entropy.drawSecret.2 }) := by
      unfold Turn.ensureInactive
      rw [hinactive, ← hkey]
      rfl
    rw [hr]
    obtain ⟨hground, -, hactive, hstate, hstored, hexchange⟩ := ht.session
    refine ⟨rfl, ⟨⟨⟨hground.1, hground.2, hground.3, hground.4⟩, rfl, hactive, hstate, hstored, hexchange⟩,
      fun hi => (by cases hi), ht.deferred, ht.outbox, ht.events⟩⟩

theorem Stands.sendKeyExchange (hP : P.Ready S) (hnow : P.Within now) {g : Agreement} {offered : Bool}
    (ht : P.Stands S (P.Early (some g) offered) jobs posted events t) :
    (t.sendKeyExchange (P.context S now) P.key.publicKey).1 = .ok () ∧
      P.Stands S (P.Early (some g) true) jobs (posted ++ [.key]) events
        (t.sendKeyExchange (P.context S now) P.key.publicKey).2 := by
  obtain ⟨m, hm, hcarries⟩ := sealLongTime_ok now hP ht.session.toGrounded .key rfl
  have hsealed := (ht.sealMessage (P.context S now) t.session.longTimeId t.session.longTimePair
    (P.content .key)).post hcarries
  unfold Turn.sendKeyExchange
  have hm' : t.sealLongTime (P.context S now) (.keyExchange P.key.publicKey) = _ := hm
  rw [hm']
  obtain ⟨hground, hinactive, hactive, hstate, hstored, -⟩ := hsealed.session
  refine ⟨rfl, hsealed.withSession
    ⟨⟨hground.1, hground.2, hground.3, hground.4⟩, hinactive, hactive, hstate, hstored, now, rfl, hnow.1⟩
    (Or.inl ?_)⟩
  intro hi
  cases hinactive.symm.trans hi

theorem Stands.doKeyExchange_early (hP : P.Ready S) (hnow : P.Within now) {o : Option Agreement}
    {offered : Bool} (ht : P.Stands S (P.Early o offered) jobs posted events t)
    (ho : ∀ g, o = some g → g.keyPair = P.key) :
    (t.doKeyExchange (P.context S now)).1 = .ok () ∧
      P.Stands S (P.Early (some (o.getD (.ofKeyPair P.key))) true) jobs
        (posted ++ if offered then [] else [.key]) events (t.doKeyExchange (P.context S now)).2 := by
  obtain ⟨hkey, hensure⟩ := ht.ensureInactive now ho
  unfold Turn.doKeyExchange
  cases hr : t.ensureInactive (P.context S now) with
  | mk key t' =>
    rw [hr] at hkey hensure
    simp only at hkey hensure ⊢
    subst hkey
    have hexchange := hensure.session.exchange
    cases offered with
    | true =>
      have helapsed : intervalElapsed t'.session.lastKeyExchangeAt (P.context S now).now
          (P.context S now).config.retryInterval.millis = false := hP.elapsed hnow hexchange
      rw [helapsed, if_neg Bool.false_ne_true, if_pos rfl, List.append_nil]
      exact ⟨rfl, hensure⟩
    | false =>
      have hnever : t'.session.lastKeyExchangeAt = none := hexchange
      have helapsed : intervalElapsed t'.session.lastKeyExchangeAt (P.context S now).now
          (P.context S now).config.retryInterval.millis = true := by
        rw [hnever]
        rfl
      rw [if_pos helapsed, if_neg Bool.false_ne_true]
      exact hensure.sendKeyExchange hP hnow

/-- Once the agreement is promoted another key may be drawn, but it is not sent. -/
theorem Stands.doKeyExchange_late (hP : P.Ready S) (hnow : P.Within now)
    (ht : P.Stands S P.Late jobs posted events t) :
    P.Stands S P.Late jobs posted events (t.doKeyExchange (P.context S now)).2 := by
  have hensure : P.Stands S P.Late jobs posted events (t.ensureInactive (P.context S now)).2 := by
    unfold Turn.ensureInactive
    obtain ⟨hground, hinactive, hstate, hexchange, hrenewal, hactive⟩ := ht.session
    cases hi : t.session.inactive with
    | some g => exact ht
    | none =>
      refine ⟨⟨⟨hground.1, hground.2, hground.3, hground.4⟩, ?_, hstate, hexchange, hrenewal,
        hactive⟩, fun hi => (by cases hi), ht.deferred, ht.outbox, ht.events⟩
      intro g hg
      cases hg
      rfl
  unfold Turn.doKeyExchange
  cases hr : t.ensureInactive (P.context S now) with
  | mk key t' =>
    rw [hr] at hensure
    have helapsed : intervalElapsed t'.session.lastKeyExchangeAt (P.context S now).now
        (P.context S now).config.retryInterval.millis = false := hP.elapsed hnow hensure.session.exchange
    simp only
    rw [helapsed, if_neg Bool.false_ne_true]
    exact hensure

/-- **Starting a key exchange** does what the outline says. -/
theorem Stands.doKeyExchange (hP : P.Ready S) (hnow : P.Within now) {s : Stage}
    (ht : P.Stands S (P.At s) jobs posted events t) :
    P.Stands S (P.At (s.perform .keyExchange).1) jobs (posted ++ (s.perform .keyExchange).2) events
      (t.doKeyExchange (P.context S now)).2 := by
  cases s with
  | fresh => exact (Stands.doKeyExchange_early hP hnow ht nofun).2
  | offered =>
    refine (Stands.doKeyExchange_early hP hnow ht ?_).2
    intro g hg
    cases hg
    rfl
  | bonded =>
    refine (Stands.doKeyExchange_early hP hnow ht ?_).2
    intro g hg
    cases hg
    rfl
  | promoted =>
    rw [show (Stage.promoted.perform .keyExchange).2 = [] from rfl, List.append_nil]
    exact Stands.doKeyExchange_late hP hnow ht

theorem Stands.sendAck (hP : P.Ready S) {offered : Bool}
    (ht : P.Stands S (P.Early (some P.agreement) offered) jobs posted events t) :
    (t.sendAck (P.context S now)).1 = .ok () ∧
      P.Stands S (P.Early (some P.agreement) offered) jobs (posted ++ [.ack]) events
        (t.sendAck (P.context S now)).2 := by
  obtain ⟨m, hm, hcarries⟩ := sealLongTime_ok now hP ht.session.toGrounded .ack rfl
  have hid : t.session.inactiveId = some P.bond.id := by
    rw [Session.inactiveId, ht.session.inactive]
    rfl
  unfold Turn.sendAck
  rw [hid]
  have hm' : t.sealLongTime (P.context S now) (.acknowledgement P.bond.id) = _ := hm
  simp only
  rw [hm']
  exact ⟨rfl, (ht.sealMessage (P.context S now) t.session.longTimeId t.session.longTimePair
    (P.content .ack)).post hcarries⟩

theorem Stands.bondInactive (now : Nat) (hP : P.Ready S) {g : Agreement} {offered : Bool}
    (hg : g.keyPair = P.key) (hstale : g.staleAt = none)
    (ht : P.Stands S (P.Early (some g) offered) jobs posted events t) :
    (t.bondInactive (P.context S now) P.bond.recipient).1 = .ok () ∧
      P.Stands S (P.Early (some P.agreement) offered) jobs posted events
        (t.bondInactive (P.context S now) P.bond.recipient).2 := by
  have hbond : Agreement.bondWith S g.keyPair P.bond.recipient = .ok P.bond := hg ▸ hP.bonded
  have hagreement : { g with bond := some P.bond } = P.agreement := Agreement.ext hg rfl hstale
  have hr := Turn.bondInactive_ok (x := P.context S now) ht.session.inactive hbond
  rw [hagreement] at hr
  rw [hr]
  obtain ⟨hground, -, hactive, hstate, hstored, hexchange⟩ := ht.session
  exact ⟨rfl, ht.withSession ⟨⟨hground.1, hground.2, hground.3, hground.4⟩, rfl, hactive, hstate, hstored,
    hexchange⟩ (Or.inl nofun)⟩

/-- **Hearing the other end's key** does what the outline says. -/
theorem Stands.receivedKeyExchange (hP : P.Ready S) (hnow : P.Within now) {s s' : Stage}
    {reply : List Parcel} (hs : s.hear .key = some (s', reply))
    (ht : P.Stands S (P.At s) jobs posted events t) :
    (t.receivedKeyExchange (P.context S now) P.bond.recipient).1 = .ok () ∧
      P.Stands S (P.At s') jobs (posted ++ reply) events
        (t.receivedKeyExchange (P.context S now) P.bond.recipient).2 := by
  obtain ⟨o, offered, hAt, ho, hs', hreply⟩ : ∃ o offered, P.At s = P.Early o offered ∧
      (∀ g, o = some g → g = .ofKeyPair P.key) ∧ s' = .bonded ∧
      reply = (if offered then [] else [.key]) ++ [.ack] := by
    cases s <;> cases hs
    · exact ⟨none, false, rfl, nofun, rfl, rfl⟩
    · exact ⟨some (.ofKeyPair P.key), true, rfl, fun g hg => (Option.some.inj hg).symm, rfl, rfl⟩
  subst hs'
  subst hreply
  rw [hAt] at ht
  have hkey : o.getD (.ofKeyPair P.key) = .ofKeyPair P.key := by
    cases o with
    | none => rfl
    | some g => exact ho g rfl
  obtain ⟨-, hensure⟩ := ht.ensureInactive now fun g hg => by rw [ho g hg]; rfl
  rw [hkey] at hensure
  obtain ⟨hok, hbond⟩ := hensure.bondInactive now hP rfl rfl
  unfold Turn.receivedKeyExchange
  have hoffer : ¬ P.bond.recipient = (P.context S now).peer := hP.offer
  have hforward : (P.context S now).config.forwardSecrecy = true := hP.forwardSecrecy hnow
  rw [if_neg hoffer]
  simp only
  cases hr : Turn.bondInactive (P.context S now) P.bond.recipient
      (t.ensureInactive (P.context S now)).2 with
  | mk result t₁ =>
    rw [hr] at hok hbond
    simp only at hok hbond
    subst hok
    obtain ⟨hsent, hsend⟩ := Stands.doKeyExchange_early hP hnow hbond fun g hg => by
      cases hg
      rfl
    simp only
    rw [if_pos hforward]
    cases hd : t₁.doKeyExchange (P.context S now) with
    | mk result t₂ =>
      rw [hd] at hsent hsend
      simp only at hsent hsend
      subst hsent
      rw [← List.append_assoc]
      exact hsend.sendAck hP

/-! ### Promotion -/

def told (P : Party) (s s' : Stage) : List Event :=
  if s' = .promoted ∧ s ≠ .promoted then [.forwardSecrecyEncryption P.peer] else []

theorem Stands.promote_bonded (hP : P.Ready S) (hnow : P.Within now)
    (ht : P.Stands S (P.At .bonded) jobs posted events t) :
    P.Stands S P.Late jobs posted (events ++ [.forwardSecrecyEncryption P.peer])
      (t.promote (P.context S now) P.bond.id).2 := by
  obtain ⟨hground, hinactive, hactive, hstate, hstored, hexchange⟩ := ht.session
  have hid : P.agreement.id = some P.bond.id := rfl
  rw [Turn.promote_of_id hinactive hid]
  have hdeadline : P.finish < after now P.config.expireAfter.millis := by
    have := hP.spans.clock
    have := hP.spans.expiry
    have := hnow.1
    have := hnow.2
    unfold after lastMoment
    omega
  have hevents : t.events ++ changed P.peer t.session.state .forwardSecrecy =
      events ++ [.forwardSecrecyEncryption P.peer] := by
    rw [ht.events, hstate]
    rfl
  refine ⟨⟨⟨hground.1, hground.2, hground.3.insert _ _ _, ?_⟩, nofun, rfl, hexchange, ⟨now, rfl, hnow.1⟩,
    ⟨_, _, _, rfl, rfl, rfl, hdeadline, Cache.stored_insert_self hground.3 _ _ _, rfl, hnow.1⟩⟩,
    fun _ ha => (by cases ha), ht.deferred, ht.outbox, hevents⟩
  exact (Cache.bounds_insert hground.3 _ _ _).trans hground.4

theorem promote_late (hs : P.Late t.session) (x : Context) (id : AgreementId) :
    t.promote x id = (false, t) := by
  unfold Turn.promote
  cases hi : t.session.inactive with
  | none => rfl
  | some g =>
    have hg : g.id = none := by rw [Agreement.id, hs.inactive g hi]; rfl
    simp only
    rw [hg, if_neg nofun]

/-- **Checking for a renewal** changes nothing: what was promoted is neither stale nor due. -/
theorem Stands.checkForRenew (hP : P.Ready S) (hnow : P.Within now) {s : Stage}
    (ht : P.Stands S (P.At s) jobs posted events t) : (t.checkForRenew (P.context S now)).2 = t := by
  have hearly : t.session.active = none → (t.checkForRenew (P.context S now)).2 = t := by
    intro ha
    unfold Turn.checkForRenew
    simp only [ha]
  cases s with
  | fresh => exact hearly ht.session.active
  | offered => exact hearly ht.session.active
  | bonded => exact hearly ht.session.active
  | promoted =>
    obtain ⟨hground, -, -, -, hrenewal, g, deadline, i, hg, hbond, hstale, hfinish, hi, hv, htouched⟩ :=
      ht.session
    have hid : g.id = some P.bond.id := by rw [Agreement.id, hbond]; rfl
    have hfresh : g.isStale now = false := by
      have := hnow.2
      simp only [Agreement.isStale, hstale, Option.any_some, decide_eq_false_iff_not]
      omega
    have htracked : t.session.initialized.contains P.bond.id now = true := by
      rw [Cache.contains_stored hground.3, hi, Option.any_some, hground.overdue hP hnow htouched]
      rfl
    have hnow' : (P.context S now).now = now := rfl
    have helapsed : intervalElapsed t.session.lastRenewAttemptAt now
        (P.context S now).config.retryInterval.millis = false := hP.elapsed hnow hrenewal
    unfold Turn.checkForRenew
    simp only [hg, hid, hnow', hfresh, Option.any_some, htracked, helapsed, Bool.not_true, Bool.or_false,
      Bool.and_false, Bool.false_eq_true, if_false]

/-! ### Payloads -/

theorem Stands.defer (ht : P.Stands S A jobs posted events t) (work : Deferred) :
    P.Stands S A (jobs ++ [work]) posted events (t.defer work) :=
  ⟨ht.session, ht.key, congrArg (· ++ [work]) ht.deferred, ht.outbox, ht.events⟩

/-- The agreement that encrypts at a stage of the handshake. -/
theorem activeBond_at (hnow : P.Within now) {s : Stage} {x : Session} (hx : P.At s x) :
    Turn.activeBond (P.context S now) x = if s = .promoted then some P.bond else none := by
  have hearly : x.active = none → Turn.activeBond (P.context S now) x = none := by
    intro ha
    rw [Turn.activeBond, ha]
    rfl
  cases s with
  | fresh => exact hearly hx.active
  | offered => exact hearly hx.active
  | bonded => exact hearly hx.active
  | promoted =>
    obtain ⟨-, -, -, -, -, g, deadline, i, hg, hbond, hstale, hfinish, -⟩ := hx
    have hfresh : g.isStale (P.context S now).now = false := by
      have hto : (P.context S now).now ≤ P.finish := hnow.2
      simp only [Agreement.isStale, hstale, Option.any_some, decide_eq_false_iff_not]
      omega
    rw [Turn.activeBond, hg, Option.filter_some, hfresh]
    exact hbond

/-- **Sending a payload** does what the outline says. -/
theorem Stands.armOutbound (hP : P.Ready S) (hnow : P.Within now) {s : Stage}
    (ht : P.Stands S (P.At s) jobs posted events t) (payload : Bytes) :
    P.Stands S (P.At s) (jobs ++ s.armJobs) posted events (t.armOutbound (P.context S now) payload).2 ∧
      ∀ m, (t.armOutbound (P.context S now) payload).1 = .ok m → P.Carries S (s.wrap payload) m := by
  have hforward : (P.context S now).config.forwardSecrecy = true := hP.forwardSecrecy hnow
  have hrenew := ht.defer .checkRenewal
  have hbond := activeBond_at (S := S) hnow ht.session
  have hsession : (t.defer .checkRenewal).session = t.session := rfl
  unfold Turn.armOutbound
  simp only [hforward, if_true, hsession, hbond]
  by_cases hs : s = .promoted
  · simp only [if_pos hs]
    refine ⟨?_, ?_⟩
    · rw [Stage.armJobs, if_pos hs]
      exact hrenew.sealMessage _ _ _ _
    · intro m hm
      rw [Stage.wrap, if_pos hs]
      exact carries_sealMessage (i := .covered payload) rfl hm
  · have hground : P.Grounded t.session := by
      cases s with
      | promoted => exact absurd rfl hs
      | _ => exact ht.session.toGrounded
    have hagain := hrenew.defer .keyExchange
    rw [List.append_assoc] at hagain
    simp only [if_neg hs]
    refine ⟨?_, ?_⟩
    · rw [Stage.armJobs, if_neg hs]
      exact hagain.sealMessage _ _ _ _
    · intro m hm
      rw [Stage.wrap, if_neg hs]
      have hid : ((t.defer .checkRenewal).defer .keyExchange).session = t.session := rfl
      rw [Turn.sealLongTime, hid, hground.id, hground.pair] at hm
      exact carries_sealMessage (i := .plain payload) rfl hm

/-! ### Messages from the other end -/

/-- The two ends of a handshake agree on the same. -/
structure Faces (P Q : Party) : Prop where
  own : Q.own.publicKey = P.peer
  peer : Q.peer = P.own.publicKey
  longTime : Q.longTime.id = P.longTime.id ∧ Q.longTime.pair = P.longTime.pair.swap
  bond : Q.bond.id = P.bond.id ∧ Q.bond.pair = P.bond.pair.swap
  key : Q.key.publicKey = P.bond.recipient

variable {Q : Party} {i : Parcel} {m : ArmedMessage}

theorem Faces.cover (hQ : P.Faces Q) (i : Parcel) :
    (Q.cover i).id = (P.cover i).id ∧ (Q.cover i).pair = (P.cover i).pair.swap := by
  cases i with
  | covered payload => exact hQ.bond
  | _ => exact hQ.longTime

/-- What the other end sends can be opened. -/
theorem opened (hQ : P.Faces Q) (hS : S.Opens) (hm : Q.Carries S i m) (now : Nat) :
    m.agreementId = (P.cover i).id ∧
      Turn.openMessage (P.context S now) (P.cover i).pair m = .ok (Q.content i) := by
  obtain ⟨hid, hpair⟩ := hQ.cover i
  have hname : m.agreementId = (P.cover i).id := hm.name.trans hid
  have hkeys : (P.cover i).pair.rx = (Q.cover i).pair.tx := by
    rw [hpair]
    rfl
  exact ⟨hname, Turn.openMessage_mirrored hS hm rfl hQ.own hQ.peer hkeys⟩

/-- A message under the long-time agreement is opened, and nothing else happens. -/
theorem openInbound_plain (now : Nat) (hQ : P.Faces Q) (hS : S.Opens) (hs : P.Grounded t.session)
    (hi : P.cover i = P.longTime) (hm : Q.Carries S i m) :
    t.openInbound (P.context S now) m = (.ok (Q.content i, true), t) := by
  obtain ⟨hname, hopen⟩ := opened hQ hS hm now
  rw [hi] at hname hopen
  unfold Turn.openInbound
  simp only
  rw [hname, hs.id, if_pos rfl, hs.pair, hopen]
  rfl

theorem Early.get {o : Option Agreement} {offered : Bool} (hs : P.Early o offered s) (id : AgreementId)
    (now : Nat) : ∃ c, s.initialized.get id now = (none, c) ∧
      P.Early o offered { s with initialized := c } := by
  obtain ⟨hground, hinactive, hactive, hstate, hstored, hexchange⟩ := hs
  have hnone : (s.initialized.get id now).1 = none := by
    rw [Cache.get_fst hground.3, Cache.peek_stored hground.3, hstored]
    rfl
  refine ⟨_, Prod.ext hnone rfl, ⟨hground.1, hground.2, hground.3.get id now, ?_⟩, hinactive, hactive,
    hstate, ?_, hexchange⟩
  · exact (Cache.bounds_get hground.3 id now).trans hground.4
  · intro id'
    rw [Cache.stored_get hground.3, hstored, hstored]
    split <;> rfl

theorem Late.get (hs : P.Late s) (hP : P.Ready S) (hnow : P.Within now) :
    ∃ g c, s.initialized.get P.bond.id now = (some g, c) ∧ g.pair = some P.bond.pair ∧
      g.isStale now = false ∧ P.Late { s with initialized := c } := by
  obtain ⟨hground, hinactive, hstate, hexchange, hrenewal, g, deadline, i, hg, hbond, hstale, hfinish, hi,
    hv, htouched⟩ := hs
  have hkept := hground.overdue hP hnow htouched
  have hpolicy : s.initialized.policy = .afterWrite := congrArg Prod.fst hground.4
  have hfound : (s.initialized.get P.bond.id now).1 = some g := by
    rw [Cache.get_fst hground.3, Cache.peek_stored hground.3, hi, Option.bind_some, hkept, ← hv]
    rfl
  have hstored : (s.initialized.get P.bond.id now).2.stored P.bond.id = some i := by
    rw [Cache.stored_get hground.3, if_pos rfl, hi, Option.bind_some, hkept, if_neg Bool.false_ne_true,
      Cache.used_of_afterWrite hpolicy]
  refine ⟨g, _, Prod.ext hfound rfl, by rw [Agreement.pair, hbond]; rfl, ?_,
    ⟨hground.1, hground.2, hground.3.get _ now, (Cache.bounds_get hground.3 _ now).trans hground.4⟩,
    hinactive, hstate, hexchange, hrenewal, g, deadline, i, hg, hbond, hstale, hfinish, hstored, hv, htouched⟩
  have := hnow.2
  simp only [Agreement.isStale, hstale, Option.any_some, decide_eq_false_iff_not]
  omega

/-- **A message under the new agreement** is opened, and promotes the agreement if it is the first one. -/
theorem Stands.openInbound_covered (hP : P.Ready S) (hnow : P.Within now) (hQ : P.Faces Q) (hS : S.Opens)
    {s : Stage} (hs : s = .bonded ∨ s = .promoted) (ht : P.Stands S (P.At s) jobs posted events t)
    {payload : Bytes} (hm : Q.Carries S (.covered payload) m) :
    (t.openInbound (P.context S now) m).1 = .ok (.application payload, false) ∧
      P.Stands S P.Late jobs posted (events ++ P.told s .promoted)
        (t.openInbound (P.context S now) m).2 := by
  obtain ⟨hname, hopen⟩ := opened hQ hS hm now
  have hname' : m.agreementId = P.bond.id := hname
  have hopen' : Turn.openMessage (P.context S now) P.bond.pair m = .ok (.application payload) := hopen
  have hcontext : (P.context S now).now = now := rfl
  have hne : ¬ P.bond.id = t.session.longTimeId := by
    rcases hs with rfl | rfl <;> rw [ht.session.id] <;> exact hP.name
  rcases hs with rfl | rfl
  · obtain ⟨c, hget, hearly⟩ := Early.get ht.session P.bond.id now
    have ht₁ := ht.withSession (B := P.At .bonded) hearly (Or.inl (by rw [hearly.inactive]; exact nofun))
    have hid : t.session.inactiveId = some P.bond.id := by
      rw [Session.inactiveId, ht.session.inactive]
      rfl
    have htold : P.told .bonded .promoted = [.forwardSecrecyEncryption P.peer] := rfl
    unfold Turn.openInbound
    simp only [hname', if_neg hne, hcontext, hget, hid, if_true, htold]
    generalize t.withSession { t.session with initialized := c } = t₁ at ht₁
    have hlate := ht₁.promote_bonded hP hnow
    generalize (t₁.promote (P.context S now) P.bond.id).2 = t₂ at hlate
    obtain ⟨g, c', hget', hpair, -, hlate'⟩ := hlate.session.get hP hnow
    rw [hget']
    simp only [Option.bind_some, hpair, hopen']
    refine ⟨rfl, hlate.withSession hlate' (Or.inr ?_)⟩
    obtain ⟨g, -, -, hg, -⟩ := hlate'.active
    rw [hg]
    exact nofun
  · obtain ⟨g, c, hget, hpair, hfresh, hlate⟩ := Late.get ht.session hP hnow
    have hdone := ht.withSession (B := P.Late) hlate (Or.inr ?_)
    · unfold Turn.openInbound
      simp only [hname', if_neg hne, hcontext, hget, hpair, hopen', hfresh,
        Bool.false_eq_true, if_false]
      have htold : P.told .promoted .promoted = [] := rfl
      rw [htold, List.append_nil]
      exact ⟨trivial, hdone⟩
    · obtain ⟨g, -, -, hg, -⟩ := hlate.active
      rw [hg]
      exact nofun

/-- **Hearing what can be understood** does what the outline says. -/
theorem Stands.disarmInbound (hP : P.Ready S) (hnow : P.Within now) (hQ : P.Faces Q) (hS : S.Opens)
    {s s' : Stage} {reply : List Parcel} (hs : s.hear i = some (s', reply))
    (ht : P.Stands S (P.At s) jobs posted events t) (hm : Q.Carries S i m) :
    P.Stands S (P.At s') (jobs ++ [.checkRenewal]) (posted ++ reply) (events ++ P.told s s')
        (t.disarmInbound (P.context S now) m).2 ∧
      ∀ payload, i.payload = some payload →
        (t.disarmInbound (P.context S now) m).1 = .ok (.application payload) := by
  have hforward : (P.context S now).config.forwardSecrecy = true := hP.forwardSecrecy hnow
  have hrenew := ht.defer .checkRenewal
  have hground : P.Grounded t.session := by
    cases s <;> exact ht.session.toGrounded
  unfold Turn.disarmInbound
  simp only [hforward, if_true]
  cases i with
  | plain payload =>
    obtain ⟨rfl, rfl⟩ : s' = s ∧ reply = [] := by
      cases s <;> cases hs <;> exact ⟨rfl, rfl⟩
    have htold : P.told s' s' = [] := by
      rw [told, if_neg fun h => h.2 h.1]
    have hopen := openInbound_plain (t := t.defer .checkRenewal) now hQ hS hground rfl hm
    rw [hopen, htold, List.append_nil, List.append_nil]
    exact ⟨hrenew, fun _ hp => congrArg _ (congrArg _ (Option.some.inj hp))⟩
  | covered payload =>
    obtain ⟨hlate, rfl, rfl⟩ : (s = .bonded ∨ s = .promoted) ∧ s' = .promoted ∧ reply = [] := by
      cases s <;> cases hs <;> simp
    obtain ⟨hok, hdone⟩ := hrenew.openInbound_covered hP hnow hQ hS hlate hm
    rw [List.append_nil]
    cases hr : (t.defer .checkRenewal).openInbound (P.context S now) m with
    | mk result t' =>
      rw [hr] at hok hdone
      simp only at hok hdone
      subst hok
      exact ⟨hdone, fun _ hp => congrArg _ (congrArg _ (Option.some.inj hp))⟩
  | key =>
    have hopen := openInbound_plain (t := t.defer .checkRenewal) now hQ hS hground rfl hm
    have hkey : Q.content .key = .keyExchange P.bond.recipient := congrArg _ hQ.key
    have hnext : s' ≠ .promoted := by cases s <;> cases hs <;> simp
    have htold : P.told s s' = [] := by rw [told, if_neg fun h => hnext h.1]
    obtain ⟨hok, hdone⟩ := hrenew.receivedKeyExchange hP hnow hs
    rw [hopen, hkey, htold, List.append_nil]
    simp only [Turn.handle, Bool.true_and, hforward, if_true]
    exact ⟨hdone, fun _ hp => by cases hp⟩
  | ack =>
    have hopen := openInbound_plain (t := t.defer .checkRenewal) now hQ hS hground rfl hm
    have hack : Q.content .ack = .acknowledgement P.bond.id := congrArg _ hQ.bond.1
    rw [hopen, hack]
    simp only [Turn.handle, hforward, if_true]
    refine ⟨?_, fun _ hp => by cases hp⟩
    obtain ⟨hlate, rfl, rfl⟩ : (s = .bonded ∨ s = .promoted) ∧ s' = .promoted ∧ reply = [] := by
      cases s <;> cases hs <;> simp
    rw [List.append_nil]
    rcases hlate with rfl | rfl
    · exact hrenew.promote_bonded hP hnow
    · have htold : P.told .promoted .promoted = [] := rfl
      rw [promote_late hrenew.session, htold, List.append_nil]
      exact hrenew

end Party

end Overlay
