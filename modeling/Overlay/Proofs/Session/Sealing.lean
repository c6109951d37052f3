import Overlay.Proofs.Session.Opening

/-!
# Which messages a turn encrypts

A `Seal` records one encryption of a message: who it is from and for, under which agreement and key, and what
came of it.  For each operation of a conversation there is the list of its encryptions, in order: one payload
for `armOutbound` (`payloadSeals`), and messages of the handshake for the others (`exchangeSeals`, `ackSeals`,
`answerSeals`, `renewalSeals`, `disarmSeals`).

The lists leave nothing out and add nothing: the answer of `armOutbound` is the message of its seal
(`armOutbound_seals`), and what any other operation posts are the messages of its seals, in their order
(`outbox_doKeyExchange` to `outbox_disarmInbound`).
-/

namespace Overlay

/-- One encryption of a message. -/
structure Seal where
  key : SessionKey
  sender : PublicKey
  recipient : PublicKey
  id : AgreementId
  nonce : Nonce
  content : ArmMessage
  ciphertext : Bytes
deriving DecidableEq

namespace Seal

def data (s : Seal) : Bytes := associatedData s.sender s.recipient s.id

def plaintext (s : Seal) : Bytes := s.content.encode

def message (s : Seal) : ArmedMessage := ⟨s.id, s.nonce, s.ciphertext⟩

structure Of (x : Context) (s : Seal) : Prop where
  sender : s.sender = x.own.publicKey
  recipient : s.recipient = x.peer
  encrypted : x.suite.encrypt s.key s.nonce s.data s.plaintext = some s.ciphertext

/-- Encrypted for the peer in a turn, and no payload. -/
structure Negotiates (x : Context) (s : Seal) : Prop extends s.Of x where
  content : ∀ payload, s.content ≠ .application payload

end Seal

namespace Turn

variable {x : Context} {t : Turn} {s : Seal}

/-! ### The encryptions of each operation -/

/-- The encryption of a message to the peer under an agreement, if it succeeds. -/
def seals (x : Context) (id : AgreementId) (pair : SessionPair) (content : ArmMessage) (t : Turn) : List Seal :=
  (x.suite.encrypt pair.tx t.entropy.drawNonce.1 (associatedData x.own.publicKey x.peer id)
    content.encode).toList.map fun c =>
      ⟨pair.tx, x.own.publicKey, x.peer, id, t.entropy.drawNonce.1, content, c⟩

def longTimeSeals (x : Context) (content : ArmMessage) (t : Turn) : List Seal :=
  t.seals x t.session.longTimeId t.session.longTimePair content

/-- Of `doKeyExchange`: our key, unless one was sent within the retry interval. -/
def exchangeSeals (x : Context) (t : Turn) : List Seal :=
  let (key, t) := t.ensureInactive x
  if intervalElapsed t.session.lastKeyExchangeAt x.now x.config.retryInterval.millis then
    t.longTimeSeals x (.keyExchange key)
  else []

def ackSeals (x : Context) (t : Turn) : List Seal :=
  t.session.inactiveId.elim [] fun id => t.longTimeSeals x (.acknowledgement id)

/-- Of `receivedKeyExchange`: our own key, and an acknowledgement. -/
def answerSeals (x : Context) (key : PublicKey) (t : Turn) : List Seal :=
  if key = x.peer then []
  else
    match (t.ensureInactive x).2.bondInactive x key with
    | (.error _, _) => []
    | (.ok (), t) =>
      if x.config.forwardSecrecy then
        t.exchangeSeals x ++ match t.doKeyExchange x with
          | (.error _, _) => []
          | (.ok (), t) => t.ackSeals x
      else t.ackSeals x

/-- Of `checkForRenew`: our key, if the active agreement is due for renewal. -/
def renewalSeals (x : Context) (t : Turn) : List Seal :=
  t.session.active.elim [] fun a =>
    let tracked := a.id.any fun id => t.session.initialized.contains id x.now
    if a.isStale x.now || !tracked then []
    else if a.isRenewable x.now
        && intervalElapsed t.session.lastRenewAttemptAt x.now x.config.retryInterval.millis then
      let (key, t) := (t.withSession { t.session with lastRenewAttemptAt := some x.now }).ensureInactive x
      t.longTimeSeals x (.keyExchange key)
    else []

def payloadSeals (x : Context) (payload : Bytes) (t : Turn) : List Seal :=
  match activeBond x t.session with
  | some bond => t.seals x bond.id bond.pair (.application payload)
  | none => t.longTimeSeals x (.application payload)

def disarmSeals (x : Context) (m : ArmedMessage) (t : Turn) : List Seal :=
  match (if x.config.forwardSecrecy then t.defer .checkRenewal else t).openInbound x m with
  | (.ok (.keyExchange key, true), t) => if x.config.forwardSecrecy then t.answerSeals x key else []
  | _ => []

/-! ### What they are of -/

theorem of_seals {id : AgreementId} {pair : SessionPair} {content : ArmMessage}
    (hs : s ∈ t.seals x id pair content) : s.Of x ∧ s.content = content := by
  obtain ⟨c, hc, rfl⟩ := List.mem_map.1 hs
  exact ⟨⟨rfl, rfl, Option.mem_toList.1 hc⟩, rfl⟩

theorem negotiates_longTimeSeals {content : ArmMessage} (hc : ∀ payload, content ≠ .application payload)
    (hs : s ∈ t.longTimeSeals x content) : s.Negotiates x := by
  obtain ⟨hof, hcontent⟩ := of_seals hs
  exact ⟨hof, hcontent ▸ hc⟩

theorem negotiates_exchangeSeals (hs : s ∈ t.exchangeSeals x) : s.Negotiates x := by
  simp only [exchangeSeals] at hs
  split at hs
  · exact negotiates_longTimeSeals (fun _ h => by cases h) hs
  · cases hs

theorem negotiates_ackSeals (hs : s ∈ t.ackSeals x) : s.Negotiates x := by
  unfold ackSeals at hs
  cases hid : t.session.inactiveId with
  | none =>
    rw [hid] at hs
    cases hs
  | some id =>
    rw [hid] at hs
    exact negotiates_longTimeSeals (fun _ h => by cases h) hs

theorem negotiates_answerSeals {key : PublicKey} (hs : s ∈ t.answerSeals x key) : s.Negotiates x := by
  unfold answerSeals at hs
  split at hs
  · cases hs
  split at hs
  · cases hs
  split at hs
  · rw [List.mem_append] at hs
    rcases hs with hs | hs
    · exact negotiates_exchangeSeals hs
    · split at hs
      · cases hs
      · exact negotiates_ackSeals hs
  · exact negotiates_ackSeals hs

theorem negotiates_renewalSeals (hs : s ∈ t.renewalSeals x) : s.Negotiates x := by
  unfold renewalSeals at hs
  cases ha : t.session.active with
  | none =>
    rw [ha] at hs
    cases hs
  | some a =>
    simp only [ha, Option.elim_some] at hs
    split at hs
    · cases hs
    · split at hs
      · exact negotiates_longTimeSeals (fun _ h => by cases h) hs
      · cases hs

theorem negotiates_disarmSeals {m : ArmedMessage} (hs : s ∈ t.disarmSeals x m) : s.Negotiates x := by
  unfold disarmSeals at hs
  split at hs
  · split at hs
    · exact negotiates_answerSeals hs
    · cases hs
  · cases hs

theorem of_payloadSeals {payload : Bytes} (hs : s ∈ t.payloadSeals x payload) :
    s.Of x ∧ s.content = .application payload := by
  unfold payloadSeals at hs
  split at hs
  · exact of_seals hs
  · exact of_seals hs

/-! ### The lists are complete -/

theorem sealMessage_seals (x : Context) (id : AgreementId) (pair : SessionPair) (content : ArmMessage)
    (t : Turn) :
    ((t.sealMessage x id pair content).1 = .error (.crypto .encryptionFailed) ∧
      t.seals x id pair content = []) ∨
    ∃ s, (t.sealMessage x id pair content).1 = .ok s.message ∧ t.seals x id pair content = [s] := by
  rw [sealMessage_fst]
  unfold seals
  cases x.suite.encrypt pair.tx t.entropy.drawNonce.1 (associatedData x.own.publicKey x.peer id)
      content.encode with
  | none => exact Or.inl ⟨rfl, rfl⟩
  | some c => exact Or.inr ⟨_, rfl, rfl⟩

theorem outbox_sealMessage (id : AgreementId) (pair : SessionPair) (content : ArmMessage) :
    (t.sealMessage x id pair content).2.outbox = t.outbox := rfl

theorem seals_deferIf (id : AgreementId) (pair : SessionPair) (content : ArmMessage) (b : Bool)
    (work : Deferred) : (if b then t.defer work else t).seals x id pair content = t.seals x id pair content := by
  cases b <;> rfl

theorem outbox_deferIf (b : Bool) (work : Deferred) : (if b then t.defer work else t).outbox = t.outbox := by
  cases b <;> rfl

theorem sealLongTime_cases (x : Context) (content : ArmMessage) (t : Turn) :
    ∃ t', t'.outbox = t.outbox ∧
      ((t.sealLongTime x content = (.error (.crypto .encryptionFailed), t') ∧ t.longTimeSeals x content = []) ∨
        ∃ s, t.sealLongTime x content = (.ok s.message, t') ∧ t.longTimeSeals x content = [s]) := by
  refine ⟨(t.sealLongTime x content).2, outbox_sealMessage t.session.longTimeId t.session.longTimePair content, ?_⟩
  rcases sealMessage_seals x t.session.longTimeId t.session.longTimePair content t with ⟨hr, hs⟩ | ⟨s, hr, hs⟩
  · exact Or.inl ⟨Prod.ext hr rfl, hs⟩
  · exact Or.inr ⟨s, Prod.ext hr rfl, hs⟩

theorem outbox_sendKeyExchange (x : Context) (key : PublicKey) (t : Turn) :
    (t.sendKeyExchange x key).2.outbox =
      t.outbox ++ (t.longTimeSeals x (.keyExchange key)).map Seal.message := by
  unfold sendKeyExchange
  obtain ⟨t', hout, ⟨hr, hs⟩ | ⟨s, hr, hs⟩⟩ := sealLongTime_cases x (.keyExchange key) t
  · rw [hr, hs, List.map_nil, List.append_nil]
    exact hout
  · rw [hr, hs, List.map_singleton]
    exact congrArg (· ++ [s.message]) hout

theorem outbox_ensureInactive (x : Context) (t : Turn) : (t.ensureInactive x).2.outbox = t.outbox := by
  unfold ensureInactive
  cases t.session.inactive <;> rfl

theorem outbox_doKeyExchange (x : Context) (t : Turn) :
    (t.doKeyExchange x).2.outbox = t.outbox ++ (t.exchangeSeals x).map Seal.message := by
  have hoffer := outbox_ensureInactive x t
  unfold doKeyExchange exchangeSeals
  cases hr : t.ensureInactive x with
  | mk key t' =>
    rw [hr] at hoffer
    simp only
    split
    · rw [outbox_sendKeyExchange, hoffer]
    · rw [List.map_nil, List.append_nil, hoffer]

theorem outbox_sendAck (x : Context) (t : Turn) :
    (t.sendAck x).2.outbox = t.outbox ++ (t.ackSeals x).map Seal.message := by
  unfold sendAck ackSeals
  cases t.session.inactiveId with
  | none => exact (List.append_nil _).symm
  | some id =>
    simp only [Option.elim_some]
    obtain ⟨t', hout, ⟨hr, hs⟩ | ⟨s, hr, hs⟩⟩ := sealLongTime_cases x (.acknowledgement id) t
    · rw [hr, hs, List.map_nil, List.append_nil]
      exact hout
    · rw [hr, hs, List.map_singleton]
      exact congrArg (· ++ [s.message]) hout

theorem outbox_bondInactive (x : Context) (key : PublicKey) (t : Turn) :
    (t.bondInactive x key).2.outbox = t.outbox := by
  unfold bondInactive
  cases t.session.inactive <;> rfl

theorem outbox_receivedKeyExchange (x : Context) (key : PublicKey) (t : Turn) :
    (t.receivedKeyExchange x key).2.outbox = t.outbox ++ (t.answerSeals x key).map Seal.message := by
  unfold receivedKeyExchange answerSeals
  split
  · exact (List.append_nil _).symm
  have hbond := (outbox_bondInactive x key (t.ensureInactive x).2).trans (outbox_ensureInactive x t)
  simp only
  cases hr : (t.ensureInactive x).2.bondInactive x key with
  | mk result t₁ =>
    rw [hr] at hbond
    cases result with
    | error e => rw [List.map_nil, List.append_nil, hbond]
    | ok u =>
      simp only
      split
      · have hsend := outbox_doKeyExchange x t₁
        cases hd : t₁.doKeyExchange x with
        | mk result t₂ =>
          rw [hd] at hsend
          cases result with
          | error e => rw [List.append_nil, hsend, hbond]
          | ok u =>
            simp only
            rw [outbox_sendAck, hsend, hbond, List.map_append, List.append_assoc]
      · rw [outbox_sendAck, hbond]

theorem outbox_checkForRenew (x : Context) (t : Turn) :
    (t.checkForRenew x).2.outbox = t.outbox ++ (t.renewalSeals x).map Seal.message := by
  simp only [checkForRenew, renewalSeals]
  cases ha : t.session.active with
  | none => exact (List.append_nil _).symm
  | some a =>
    simp only [Option.elim_some]
    split
    · rw [resumeLongTime_outbox, List.map_nil, List.append_nil]
      rfl
    · split
      · rw [outbox_sendKeyExchange, outbox_ensureInactive]
        rfl
      · exact (List.append_nil _).symm

/-! ### Received messages -/

theorem outbox_promote (x : Context) (id : AgreementId) (t : Turn) : (t.promote x id).2.outbox = t.outbox := by
  unfold promote
  cases t.session.inactive with
  | none => rfl
  | some a =>
    simp only
    split
    · simp only
      split <;> rfl
    · rfl

theorem outbox_openInbound (x : Context) (m : ArmedMessage) (t : Turn) :
    (t.openInbound x m).2.outbox = t.outbox := by
  unfold openInbound
  simp only
  split
  · rfl
  cases t.session.initialized.get m.agreementId x.now with
  | mk found initialized =>
    cases found with
    | some a =>
      simp only
      cases a.pair with
      | none => rfl
      | some pair =>
        simp only
        cases openMessage x pair m with
        | error e => rfl
        | ok content =>
          simp only
          split
          · exact resumeLongTime_outbox x _
          · rfl
    | none =>
      simp only
      split
      · split
        all_goals
          simp only [withSession]
          rw [outbox_promote]
      · exact outbox_deferIf _ _

/-- A payload is handed to the caller, and nothing is posted. -/
theorem outbox_armOutbound (x : Context) (payload : Bytes) (t : Turn) :
    (t.armOutbound x payload).2.outbox = t.outbox := by
  have hrenew := outbox_deferIf (t := t) x.config.forwardSecrecy .checkRenewal
  unfold armOutbound
  generalize (if x.config.forwardSecrecy then t.defer .checkRenewal else t) = t₁ at hrenew ⊢
  simp only
  split
  · exact hrenew
  · exact (outbox_deferIf _ .keyExchange).trans hrenew

theorem outbox_disarmInbound (x : Context) (m : ArmedMessage) (t : Turn) :
    (t.disarmInbound x m).2.outbox = t.outbox ++ (t.disarmSeals x m).map Seal.message := by
  unfold disarmInbound disarmSeals
  have hrenew := outbox_deferIf (t := t) x.config.forwardSecrecy .checkRenewal
  generalize (if x.config.forwardSecrecy then t.defer .checkRenewal else t) = t₁ at hrenew ⊢
  have hopen := (outbox_openInbound x m t₁).trans hrenew
  simp only
  cases hr : t₁.openInbound x m with
  | mk result t₂ =>
    rw [hr] at hopen
    cases result with
    | error e => rw [List.map_nil, List.append_nil, hopen]
    | ok opened =>
      obtain ⟨content, longTime⟩ := opened
      cases content with
      | application payload => exact hopen.trans (List.append_nil _).symm
      | keyExchange key =>
        cases longTime with
        | false => exact hopen.trans (List.append_nil _).symm
        | true =>
          simp only [handle, Bool.true_and]
          split
          · rw [outbox_receivedKeyExchange, hopen]
          · exact hopen.trans (List.append_nil _).symm
      | acknowledgement id =>
        simp only [handle]
        split
        · rw [outbox_promote, List.map_nil, List.append_nil]
          exact hopen
        · exact hopen.trans (List.append_nil _).symm

theorem armOutbound_seals (x : Context) (payload : Bytes) (t : Turn) :
    (t.armOutbound x payload).1.toOption.toList = (t.payloadSeals x payload).map Seal.message := by
  have hseal : ∀ id pair (t : Turn), (t.sealMessage x id pair (.application payload)).1.toOption.toList =
      (t.seals x id pair (.application payload)).map Seal.message := by
    intro id pair t
    rcases sealMessage_seals x id pair (.application payload) t with ⟨hfail, hnone⟩ | ⟨s, hok, hone⟩
    · rw [hfail, hnone]
      rfl
    · rw [hok, hone]
      rfl
  simp only [armOutbound, payloadSeals, session_deferIf]
  cases activeBond x t.session with
  | some bond => simp only [hseal, seals_deferIf]
  | none => simp only [sealLongTime, longTimeSeals, session_deferIf, hseal, seals_deferIf]

end Turn

end Overlay
