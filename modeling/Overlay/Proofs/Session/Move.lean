import Mathlib.Logic.Relation
import Overlay.Proofs.Agreement.Basic
import Overlay.Proofs.Cache.Stored
import Overlay.Proofs.Crypto.Suite
import Overlay.Proofs.Wire.ArmMessage
import Overlay.Session.Turn

/-!
# What a turn can do

Every operation of a conversation is made of a few small moves of its `Turn` (`Move`): it leaves a job,
draws a nonce, offers a key and posts it, bonds the offered key with one that was heard, promotes the
agreement under negotiation when its name was heard, or drops an agreement.  The moves depend on what was
heard from the peer (`Hearing`): a turn that heard nothing never bonds or promotes.  An acknowledgement is
only ever posted at the end, so that the agreement it names is still under negotiation when the turn is over
(`Closes`); moves with such an end are a `Course`.

One statement for each operation says that it is made of such moves (`moves_armOutbound`,
`course_disarmInbound`, `moves_doKeyExchange`, `course_receivedKeyExchange`, `course_sendAck`, `moves_promote`,
`moves_checkForRenew`).  A property of turns that every move keeps is therefore kept by every operation.

Where encryption works, what is no payload is sealed (`sealMessage_negotiates`), and what was sealed is opened at the
other end (`openMessage_sealed`).
-/

namespace Overlay

/-! ### Hearing and speaking -/

/-- The keys and the names of agreements that a turn may act on.  The names may depend on that of the
long-time agreement. -/
structure Hearing where
  key : PublicKey → Prop
  name : (longTime id : AgreementId) → Prop

namespace Hearing

def silence : Hearing := ⟨fun _ => False, fun _ _ => False⟩

def ofKey (key : PublicKey) : Hearing := ⟨(· = key), fun _ _ => False⟩

def ofName (id : AgreementId) : Hearing := ⟨fun _ => False, fun _ => (· = id)⟩

/-- What a message tells: the name it travels under, if that is not the long-time one, and the key or
the name that it contains. -/
def ofMessage (x : Context) (m : ArmedMessage) : Hearing where
  key k := ∃ pair, Turn.openMessage x pair m = .ok (.keyExchange k)
  name longTime id := (id = m.agreementId ∧ id ≠ longTime) ∨
    ∃ pair, Turn.openMessage x pair m = .ok (.acknowledgement id)

end Hearing

structure Sealed (x : Context) (id : AgreementId) (pair : SessionPair) (content : ArmMessage)
    (m : ArmedMessage) : Prop where
  name : m.agreementId = id
  encrypted : x.suite.encrypt pair.tx m.nonce (associatedData x.own.publicKey x.peer id) content.encode =
    some m.ciphertext

theorem ok_of_mem {ε α : Type} {r : Except ε α} {x : α} (h : x ∈ r.toOption.toList) : r = .ok x := by
  cases r with
  | error e => cases h
  | ok y => rw [List.mem_singleton.1 h]

/-- The associated data tell who a message is from and for, and under which name it goes. -/
theorem associatedData_injective {k₁ k₂ k₁' k₂' : PublicKey} {id id' : AgreementId}
    (h : associatedData k₁ k₂ id = associatedData k₁' k₂' id') : k₁ = k₁' ∧ k₂ = k₂' ∧ id = id' := by
  have hlength : ∀ k k' : PublicKey, k.toBytes.length = k'.toBytes.length := by
    intro k k'
    rw [PublicKey.toBytes, PublicKey.toBytes, Block.length_toBytes, Block.length_toBytes]
  unfold associatedData at h
  rw [List.append_assoc, List.append_assoc] at h
  obtain ⟨hsender, h⟩ := List.append_inj h (hlength k₁ k₁')
  obtain ⟨hrecipient, hid⟩ := List.append_inj h (hlength k₂ k₂')
  exact ⟨PublicKey.ext (Block.toBytes_injective hsender), PublicKey.ext (Block.toBytes_injective hrecipient),
    AgreementId.ext (Block.toBytes_injective hid)⟩

namespace Turn

/-! ### Moves -/

def discard (c : Cache AgreementId Agreement) : Option AgreementId → Cache AgreementId Agreement
  | some id => (c.remove id).2
  | none => c

/-- One small change of a turn, given what was heard. -/
inductive Move (x : Context) (h : Hearing) : Turn → Turn → Prop where
  | defer (t : Turn) (work : Deferred) : Move x h t (t.defer work)
  | nonce (t : Turn) : Move x h t { t with entropy := t.entropy.drawNonce.2 }
  | offer (t : Turn) (hn : t.session.inactive = none) :
      Move x h t { t with
        session := { t.session with
          inactive := some (.ofKeyPair (x.suite.keyPair t.entropy.drawSecret.1)) }
        entropy := t.entropy.drawSecret.2 }
  | post (t : Turn) (a : Agreement) (m : ArmedMessage) (ha : t.session.inactive = some a)
      (hm : Sealed x t.session.longTimeId t.session.longTimePair (.keyExchange a.keyPair.publicKey) m) :
      Move x h t (t.post m)
  | note (t : Turn) (exchange renewal : Option Nat) :
      Move x h t (t.withSession { t.session with
        lastKeyExchangeAt := exchange
        lastRenewAttemptAt := renewal })
  | bond (t : Turn) (a : Agreement) (key : PublicKey) (b : Bond) (hk : h.key key)
      (ha : t.session.inactive = some a) (hb : Agreement.bondWith x.suite a.keyPair key = .ok b) :
      Move x h t (t.withSession { t.session with inactive := some { a with bond := some b } })
  | promote (t : Turn) (a : Agreement) (id : AgreementId)
      (hid : h.name t.session.longTimeId id) (ha : t.session.inactive = some a) (hi : a.id = some id) :
      Move x h t (t.promote x id).2
  | consult (t : Turn) (id : AgreementId) :
      Move x h t (t.withSession { t.session with
        initialized := (t.session.initialized.get id x.now).2 })
  | evict (t : Turn) (id : AgreementId) : Move x h t (t.evictAgreement x id)
  | retire (t : Turn) (id : Option AgreementId) :
      Move x h t ((t.withSession { t.session with
        active := none
        initialized := discard t.session.initialized id }).resumeLongTime x)

abbrev Moves (x : Context) (h : Hearing) : Turn → Turn → Prop := Relation.ReflTransGen (Move x h)

variable {x : Context} {h : Hearing} {t : Turn}

/-- The end of a turn: nothing, or the acknowledgement of the agreement under negotiation. -/
inductive Closes (x : Context) : Turn → Turn → Prop where
  | quiet (t : Turn) : Closes x t t
  | ack (t : Turn) (id : AgreementId) (m : ArmedMessage) (hi : t.session.inactiveId = some id)
      (hm : Sealed x t.session.longTimeId t.session.longTimePair (.acknowledgement id) m) :
      Closes x t (t.post m)

def Course (x : Context) (h : Hearing) (t t' : Turn) : Prop := ∃ t₁, Moves x h t t₁ ∧ Closes x t₁ t'

variable {x : Context} {h : Hearing} {t t' : Turn}

theorem Move.moves (hm : Move x h t t') : Moves x h t t' := .single hm

theorem Moves.course (hm : Moves x h t t') : Course x h t t' := ⟨t', hm, .quiet t'⟩

theorem Moves.trans_course {t₁ : Turn} (hm : Moves x h t t₁) (hc : Course x h t₁ t') :
    Course x h t t' := by
  obtain ⟨t₂, hm', hc⟩ := hc
  exact ⟨t₂, hm.trans hm', hc⟩

/-! ### Dropping agreements -/

theorem sound_discard {c : Cache AgreementId Agreement} (hc : c.Sound) (o : Option AgreementId) :
    (discard c o).Sound := by
  cases o with
  | none => exact hc
  | some id => exact hc.remove id

theorem bounds_discard {c : Cache AgreementId Agreement} (hc : c.Sound) (o : Option AgreementId) :
    (discard c o).bounds = c.bounds := by
  cases o with
  | none => rfl
  | some id => exact Cache.bounds_remove hc id

theorem stored_discard {c : Cache AgreementId Agreement} (hc : c.Sound) {o : Option AgreementId}
    {id : AgreementId} {i : Item AgreementId Agreement} (hi : (discard c o).stored id = some i) :
    c.stored id = some i := by
  cases o with
  | none => exact hi
  | some gone =>
    rw [discard, Cache.stored_remove hc] at hi
    split at hi
    · cases hi
    · exact hi

theorem resumeLongTime_session (x : Context) (t : Turn) :
    (t.resumeLongTime x).session = { t.session with
      state := if t.session.state = .forwardSecrecy ∧ t.session.active = none then .longTime
        else t.session.state } := by
  unfold resumeLongTime
  split <;> rfl

theorem resumeLongTime_entropy (x : Context) (t : Turn) : (t.resumeLongTime x).entropy = t.entropy := by
  unfold resumeLongTime
  split <;> rfl

theorem resumeLongTime_outbox (x : Context) (t : Turn) : (t.resumeLongTime x).outbox = t.outbox := by
  unfold resumeLongTime
  split <;> rfl

/-! ### Sealing -/

theorem moves_sealMessage (id : AgreementId) (pair : SessionPair) (m : ArmMessage) (t : Turn) :
    Moves x h t (t.sealMessage x id pair m).2 := (Move.nonce t).moves

theorem session_sealMessage (id : AgreementId) (pair : SessionPair) (m : ArmMessage) (t : Turn) :
    (t.sealMessage x id pair m).2.session = t.session := rfl

theorem sealMessage_fst (x : Context) (id : AgreementId) (pair : SessionPair) (content : ArmMessage)
    (t : Turn) :
    (t.sealMessage x id pair content).1 =
      (x.suite.encrypt pair.tx t.entropy.drawNonce.1 (associatedData x.own.publicKey x.peer id)
        content.encode).elim (.error (.crypto .encryptionFailed))
        fun ciphertext => .ok ⟨id, t.entropy.drawNonce.1, ciphertext⟩ := by
  unfold sealMessage
  simp only
  split
  · rename_i ciphertext hc
    rw [hc]
    rfl
  · rename_i hc
    rw [hc]
    rfl

theorem sealMessage_ok {id : AgreementId} {pair : SessionPair} {content : ArmMessage} {m : ArmedMessage}
    (hm : (t.sealMessage x id pair content).1 = .ok m) : Sealed x id pair content m := by
  rw [sealMessage_fst] at hm
  cases hc : x.suite.encrypt pair.tx t.entropy.drawNonce.1 (associatedData x.own.publicKey x.peer id)
      content.encode with
  | none =>
    rw [hc] at hm
    cases hm
  | some ciphertext =>
    rw [hc] at hm
    cases hm
    exact ⟨rfl, hc⟩

theorem sealMessage_negotiates (hS : x.suite.Seals) (id : AgreementId) (pair : SessionPair) {content : ArmMessage}
    (hc : ∀ payload, content ≠ .application payload) (t : Turn) :
    ∃ m, (t.sealMessage x id pair content).1 = .ok m ∧ Sealed x id pair content m := by
  obtain ⟨c, hencrypt⟩ := hS pair.tx t.entropy.drawNonce.1 (associatedData x.own.publicKey x.peer id)
    content.encode (ArmMessage.length_encode hc)
  have hm : (t.sealMessage x id pair content).1 = .ok ⟨id, t.entropy.drawNonce.1, c⟩ := by
    rw [sealMessage_fst, hencrypt]
    rfl
  exact ⟨_, hm, sealMessage_ok hm⟩

/-- A message opens with the keys that it was sealed with, seen from the other end. -/
theorem openMessage_sealed (hS : x.suite.Opens) {pair : SessionPair} {content : ArmMessage} {m : ArmedMessage}
    (h : x.suite.encrypt pair.rx m.nonce (associatedData x.peer x.own.publicKey m.agreementId)
      content.encode = some m.ciphertext) : openMessage x pair m = .ok content := by
  simp only [openMessage, hS _ _ _ _ _ h, ArmMessage.decode_encode]

/-- What one end sealed opens at the other end. -/
theorem openMessage_mirrored {y : Context} (hS : y.suite.Opens) {id : AgreementId} {pair pair' : SessionPair}
    {content : ArmMessage} {m : ArmedMessage} (h : Sealed x id pair content m) (hsuite : y.suite = x.suite)
    (hown : x.own.publicKey = y.peer) (hpeer : x.peer = y.own.publicKey) (hkeys : pair'.rx = pair.tx) :
    openMessage y pair' m = .ok content := by
  apply openMessage_sealed hS
  rw [hsuite, hkeys, ← hown, ← hpeer, h.name]
  exact h.encrypted

/-- Sealing under the long-time agreement leaves the session alone; the message, if there is one, is sealed with the keys
of that agreement. -/
theorem sealLongTime_spec (x : Context) (h : Hearing) (content : ArmMessage) (t : Turn) :
    ∃ t', Moves x h t t' ∧ t'.session = t.session ∧
      ((∃ err, t.sealLongTime x content = (.error err, t')) ∨
        ∃ m, t.sealLongTime x content = (.ok m, t') ∧
          Sealed x t.session.longTimeId t.session.longTimePair content m) := by
  have hmoves : Moves x h t (t.sealLongTime x content).2 := moves_sealMessage _ _ _ t
  have hsession : (t.sealLongTime x content).2.session = t.session := session_sealMessage _ _ _ t
  have hseal : ∀ m, (t.sealLongTime x content).1 = .ok m →
      Sealed x t.session.longTimeId t.session.longTimePair content m := fun _ => sealMessage_ok
  cases hr : t.sealLongTime x content with
  | mk result t' =>
    rw [hr] at hmoves hsession hseal
    refine ⟨t', hmoves, hsession, ?_⟩
    cases result with
    | error err => exact Or.inl ⟨err, rfl⟩
    | ok m => exact Or.inr ⟨m, rfl, hseal m rfl⟩

/-! ### The handshake -/

theorem inactive_ensureInactive (x : Context) (t : Turn) :
    ∃ a, (t.ensureInactive x).2.session.inactive = some a ∧
      (t.ensureInactive x).1 = a.keyPair.publicKey := by
  unfold ensureInactive
  cases ha : t.session.inactive with
  | some a => exact ⟨a, ha, rfl⟩
  | none => exact ⟨_, rfl, rfl⟩

theorem moves_ensureInactive (x : Context) (h : Hearing) (t : Turn) :
    Moves x h t (t.ensureInactive x).2 := by
  unfold ensureInactive
  cases ha : t.session.inactive with
  | some a => exact .refl
  | none => exact (Move.offer t ha).moves

theorem moves_sendKeyExchange {a : Agreement} (ha : t.session.inactive = some a) :
    Moves x h t (t.sendKeyExchange x a.keyPair.publicKey).2 := by
  unfold sendKeyExchange
  obtain ⟨t', hmoves, hs, ⟨err, hr⟩ | ⟨m, hr, hm⟩⟩ := sealLongTime_spec x h (.keyExchange a.keyPair.publicKey) t
  · rw [hr]
    exact hmoves
  · rw [hr]
    rw [← hs] at ha hm
    exact (hmoves.tail (.post t' a m ha hm)).tail (.note (t'.post m) (some x.now) t'.session.lastRenewAttemptAt)

theorem moves_doKeyExchange (x : Context) (h : Hearing) (t : Turn) :
    Moves x h t (t.doKeyExchange x).2 := by
  obtain ⟨a, ha, hkey⟩ := inactive_ensureInactive x t
  have hmoves := moves_ensureInactive x h t
  unfold doKeyExchange
  cases hr : t.ensureInactive x with
  | mk key t' =>
    rw [hr] at ha hkey hmoves
    simp only at ha hkey hmoves ⊢
    subst hkey
    split
    · exact hmoves.trans (moves_sendKeyExchange ha)
    · exact hmoves

theorem course_sendAck (x : Context) (h : Hearing) (t : Turn) : Course x h t (t.sendAck x).2 := by
  unfold sendAck
  cases hid : t.session.inactiveId with
  | none => exact ⟨t, .refl, .quiet t⟩
  | some id =>
    simp only
    obtain ⟨t', hmoves, hs, ⟨err, hr⟩ | ⟨m, hr, hm⟩⟩ := sealLongTime_spec x h (.acknowledgement id) t
    · rw [hr]
      exact hmoves.course
    · rw [hr]
      rw [← hs] at hid hm
      exact ⟨t', hmoves, .ack t' id m hid hm⟩

theorem bondInactive_eq (x : Context) (key : PublicKey) (t : Turn) {a : Agreement}
    (ha : t.session.inactive = some a) :
    t.bondInactive x key = ((a.setRecipient x.suite key).1,
      t.withSession { t.session with inactive := some (a.setRecipient x.suite key).2 }) := by
  rw [bondInactive, ha]

theorem bondInactive_ok {key : PublicKey} {a : Agreement} {b : Bond} (ha : t.session.inactive = some a)
    (hb : Agreement.bondWith x.suite a.keyPair key = .ok b) : t.bondInactive x key =
      (.ok (), t.withSession { t.session with inactive := some { a with bond := some b } }) := by
  rw [bondInactive_eq x key t ha, Agreement.setRecipient_ok hb]

theorem bondInactive_refused {key : PublicKey} {a : Agreement} {err : ArmError} (ha : t.session.inactive = some a)
    (hb : Agreement.bondWith x.suite a.keyPair key = .error err) : t.bondInactive x key = (.error err, t) := by
  rw [bondInactive_eq x key t ha, Agreement.setRecipient_error hb]
  simp only [← ha]
  rfl

/-- The agreement under negotiation is bonded with a key, or cannot be, or there is none. -/
theorem bondInactive_cases (x : Context) (key : PublicKey) (t : Turn) :
    (t.session.inactive = none ∧ t.bondInactive x key = (.ok (), t)) ∨
      (∃ a err, t.session.inactive = some a ∧ Agreement.bondWith x.suite a.keyPair key = .error err ∧
        t.bondInactive x key = (.error err, t)) ∨
      ∃ a b, t.session.inactive = some a ∧ Agreement.bondWith x.suite a.keyPair key = .ok b ∧
        t.bondInactive x key =
          (.ok (), t.withSession { t.session with inactive := some { a with bond := some b } }) := by
  cases ha : t.session.inactive with
  | none =>
    left
    rw [bondInactive, ha]
    exact ⟨rfl, rfl⟩
  | some a =>
    right
    cases hb : Agreement.bondWith x.suite a.keyPair key with
    | error err => exact .inl ⟨a, err, rfl, hb, bondInactive_refused ha hb⟩
    | ok b => exact .inr ⟨a, b, rfl, hb, bondInactive_ok ha hb⟩

theorem moves_bondInactive {key : PublicKey} (hk : h.key key) (t : Turn) :
    Moves x h t (t.bondInactive x key).2 := by
  rcases bondInactive_cases x key t with ⟨-, hr⟩ | ⟨a, err, -, -, hr⟩ | ⟨a, b, ha, hb, hr⟩
  · rw [hr]
  · rw [hr]
  · rw [hr]
    exact (Move.bond t a key b hk ha hb).moves

theorem course_receivedKeyExchange {key : PublicKey} (hk : h.key key) (t : Turn) :
    Course x h t (t.receivedKeyExchange x key).2 := by
  unfold receivedKeyExchange
  split
  · exact ⟨t, .refl, .quiet t⟩
  · have hoffer := moves_ensureInactive x h t
    have hbond := hoffer.trans (moves_bondInactive (x := x) hk (t.ensureInactive x).2)
    simp only
    cases hr : (t.ensureInactive x).2.bondInactive x key with
    | mk result t' =>
      rw [hr] at hbond
      cases result with
      | error e => exact Moves.course hbond
      | ok u =>
        simp only
        split
        · have hsend := hbond.trans (moves_doKeyExchange x h t')
          cases hd : t'.doKeyExchange x with
          | mk result t'' =>
            rw [hd] at hsend
            cases result with
            | error e => exact Moves.course hsend
            | ok u => exact Moves.trans_course hsend (course_sendAck x h t'')
        · exact Moves.trans_course hbond (course_sendAck x h t')

theorem moves_promote {id : AgreementId} (t : Turn) (hid : h.name t.session.longTimeId id) :
    Moves x h t (t.promote x id).2 := by
  cases ha : t.session.inactive with
  | none =>
    have hp : t.promote x id = (false, t) := by rw [promote, ha]
    rw [hp]
  | some a =>
    by_cases hi : a.id = some id
    · exact (Move.promote t a id hid ha hi).moves
    · have hp : t.promote x id = (false, t) := by
        rw [promote, ha]
        exact if_neg hi
      rw [hp]

theorem moves_checkForRenew (x : Context) (h : Hearing) (t : Turn) :
    Moves x h t (t.checkForRenew x).2 := by
  simp only [checkForRenew]
  cases ha : t.session.active with
  | none => exact .refl
  | some a =>
    simp only
    by_cases hstale : (a.isStale x.now ||
        !a.id.any fun id => t.session.initialized.contains id x.now) = true
    · rw [if_pos hstale]
      have hm := (Move.retire (x := x) (h := h) t a.id).moves
      cases hi : a.id with
      | none =>
        rw [hi] at hm
        exact hm
      | some id =>
        rw [hi] at hm
        exact hm
    rw [if_neg hstale]
    split
    · have hnote := (Move.note (x := x) (h := h) t t.session.lastKeyExchangeAt (some x.now)).moves
      generalize ht : t.withSession { t.session with
        lastKeyExchangeAt := t.session.lastKeyExchangeAt
        lastRenewAttemptAt := some x.now } = t₁ at hnote
      obtain ⟨b, hb, hkey⟩ := inactive_ensureInactive x t₁
      have hoffer := hnote.trans (moves_ensureInactive x h t₁)
      have hsend := hoffer.trans (moves_sendKeyExchange hb)
      rw [← hkey] at hsend
      subst ht
      simp only [ha] at hsend
      exact hsend
    · exact .refl

/-! ### Messages -/

theorem moves_deferIf (b : Bool) (work : Deferred) (t : Turn) :
    Moves x h t (if b then t.defer work else t) := by
  cases b with
  | false => exact .refl
  | true => exact (Move.defer t work).moves

theorem moves_armOutbound (x : Context) (h : Hearing) (payload : Bytes) (t : Turn) :
    Moves x h t (t.armOutbound x payload).2 := by
  have hrenew := moves_deferIf (x := x) (h := h) x.config.forwardSecrecy .checkRenewal t
  unfold armOutbound
  generalize (if x.config.forwardSecrecy then t.defer .checkRenewal else t) = t₁ at hrenew
  simp only
  cases activeBond x t₁.session with
  | some bond => exact hrenew.trans (moves_sealMessage bond.id bond.pair _ t₁)
  | none =>
    apply (hrenew.trans (moves_deferIf x.config.forwardSecrecy .keyExchange t₁)).trans
    exact moves_sealMessage _ _ _ _

theorem opened_of_map {pair : SessionPair} {m : ArmedMessage} {content : ArmMessage} {b longTime : Bool}
    (ho : (openMessage x pair m).map (·, b) = .ok (content, longTime)) :
    openMessage x pair m = .ok content := by
  cases hr : openMessage x pair m with
  | error e =>
    rw [hr] at ho
    cases ho
  | ok c =>
    rw [hr] at ho
    cases ho
    rfl

theorem opened_openInbound {m : ArmedMessage} {content : ArmMessage} {longTime : Bool}
    (ho : (t.openInbound x m).1 = .ok (content, longTime)) :
    ∃ pair, openMessage x pair m = .ok content := by
  simp only [openInbound] at ho
  split at ho
  · exact ⟨_, opened_of_map ho⟩
  · cases hg : t.session.initialized.get m.agreementId x.now with
    | mk found initialized =>
      rw [hg] at ho
      simp only at ho
      cases found with
      | some a =>
        simp only at ho
        cases hp : a.pair with
        | none =>
          rw [hp] at ho
          cases ho
        | some pair =>
          simp only [hp] at ho
          refine ⟨pair, ?_⟩
          cases hr : openMessage x pair m with
          | error e =>
            rw [hr] at ho
            cases ho
          | ok c =>
            rw [hr] at ho
            cases ho
            rfl
      | none =>
        simp only at ho
        split at ho
        · split at ho
          · cases ho
          · exact ⟨_, opened_of_map ho⟩
        · cases ho

theorem moves_openInbound (x : Context) (m : ArmedMessage) (t : Turn) :
    Moves x (.ofMessage x m) t (t.openInbound x m).2 := by
  unfold openInbound
  simp only
  split
  · exact .refl
  · rename_i hne
    have hconsult := (Move.consult (x := x) (h := .ofMessage x m) t m.agreementId).moves
    cases hg : t.session.initialized.get m.agreementId x.now with
    | mk found initialized =>
      rw [hg] at hconsult
      simp only at hconsult ⊢
      generalize hw : t.withSession { t.session with initialized := initialized } = t₁ at hconsult
      cases found with
      | some a =>
        simp only
        cases a.pair with
        | none => exact hconsult
        | some pair =>
          simp only
          cases openMessage x pair m with
          | error e => exact hconsult
          | ok content =>
            simp only
            split
            · exact hconsult.tail (.evict t₁ m.agreementId)
            · exact hconsult
      | none =>
        simp only
        split
        · have hname : (Hearing.ofMessage x m).name t₁.session.longTimeId m.agreementId := by
            rw [← hw]
            exact Or.inl ⟨rfl, hne⟩
          have hpromote := hconsult.trans (moves_promote t₁ hname)
          have hagain := hpromote.tail (.consult (t₁.promote x m.agreementId).2 m.agreementId)
          cases hk : (t₁.promote x m.agreementId).2.session.initialized.get m.agreementId x.now with
          | mk kept initialized' =>
            rw [hk] at hagain
            simp only at hagain ⊢
            cases kept.bind (·.pair) with
            | none => exact hagain
            | some pair => exact hagain
        · exact hconsult.trans (moves_deferIf x.config.forwardSecrecy .keyExchange t₁)

theorem course_handle {m : ArmedMessage} {content : ArmMessage} {pair : SessionPair}
    (ho : openMessage x pair m = .ok content) (longTime : Bool) (t : Turn) :
    Course x (.ofMessage x m) t (t.handle x content longTime).2 := by
  cases content with
  | application payload => exact ⟨t, .refl, .quiet t⟩
  | keyExchange key =>
    have hkey : (Hearing.ofMessage x m).key key := ⟨pair, ho⟩
    simp only [handle]
    split
    · exact course_receivedKeyExchange hkey t
    · exact ⟨t, .refl, .quiet t⟩
  | acknowledgement id =>
    have hname : (Hearing.ofMessage x m).name t.session.longTimeId id := Or.inr ⟨pair, ho⟩
    simp only [handle]
    split
    · exact (moves_promote t hname).course
    · exact ⟨t, .refl, .quiet t⟩

theorem course_disarmInbound (x : Context) (m : ArmedMessage) (t : Turn) :
    Course x (.ofMessage x m) t (t.disarmInbound x m).2 := by
  have hrenew := moves_deferIf (x := x) (h := .ofMessage x m) x.config.forwardSecrecy .checkRenewal t
  unfold disarmInbound
  generalize (if x.config.forwardSecrecy then t.defer .checkRenewal else t) = t₁ at hrenew
  have hopen := hrenew.trans (moves_openInbound x m t₁)
  simp only
  cases hr : t₁.openInbound x m with
  | mk result t₂ =>
    rw [hr] at hopen
    cases result with
    | error e => exact Moves.course hopen
    | ok opened =>
      obtain ⟨content, longTime⟩ := opened
      obtain ⟨pair, ho⟩ := opened_openInbound (t := t₁) (congrArg Prod.fst hr)
      exact Moves.trans_course hopen (course_handle ho longTime t₂)

end Turn

end Overlay
