import Overlay.Proofs.Agreement.Basic
import Overlay.Proofs.Session.Opening

/-!
# Answering a key

A turn that receives the peer's key offers an agreement of its own (`Turn.offered`), bonds it with that key, sends its
own key again if that is due, and acknowledges the name of the bond.  What may go wrong goes wrong before anything is
sent: the key is the peer's long-time one, or the offer cannot be bonded with it.  So where messages of the handshake
can be encrypted there are three outcomes, and each is written out in full (`Turn.Answers`): nothing happens, an offer
is made and left as it is, or all of it is done.  `answers_receivedKeyExchange` says that these are all.

An offer cannot be bonded with its own key, nor with one that forces the zero secret, and with any other it can
(`bondWith_refuses`).
-/

namespace Overlay

/-! ### Bonds -/

/-- A key pair cannot be bonded with its own key, nor where the shared secret is zero; otherwise it can. -/
theorem bondWith_refuses (S : Suite) (own : KeyPair) (key : PublicKey) :
    (∃ err, Agreement.bondWith S own key = .error err) ↔
      own.publicKey = key ∨ S.shared own.secretKey key = Block.filled 32 0 := by
  unfold Agreement.bondWith Suite.agreementId Suite.deriveSessionPair
  by_cases hkey : own.publicKey = key
  · simp [hkey]
  · by_cases hshared : S.shared own.secretKey key = Block.filled 32 0
    · simp [hkey, hshared]
    · simp only [hkey, hshared, if_false, or_self, iff_false]
      rintro ⟨err, herr⟩
      split at herr
      · rename_i hpair
        split at hpair <;> cases hpair
      · cases herr

namespace Turn

variable {x : Context} {t : Turn} {key : PublicKey}

/-- The agreement that a key of the peer is bonded with: the one under negotiation, or a fresh one. -/
def offered (x : Context) (t : Turn) : Agreement :=
  t.session.inactive.getD (.ofKeyPair (x.suite.keyPair t.entropy.drawSecret.1))

def keyDue (x : Context) (t : Turn) : Bool :=
  intervalElapsed t.session.lastKeyExchangeAt x.now x.config.retryInterval.millis

/-- What becomes of a key of the peer: it is the peer's long-time one, and nothing happens; an offer is made, but cannot
be bonded with it; or the offer is bonded with it, our key is sent if that is due, and the bond is acknowledged. -/
inductive Answers (x : Context) (key : PublicKey) (t : Turn) : Except ArmError Unit × Turn → Prop where
  | longTime (h : key = x.peer) : Answers x key t (.error (.invalidArgument .longTimeKeyExchanged), t)
  | refused (err : ArmError) (hpeer : key ≠ x.peer)
      (h : Agreement.bondWith x.suite (t.offered x).keyPair key = .error err) :
      Answers x key t (.error err, (t.ensureInactive x).2)
  | bonded (b : Bond) (sent : List ArmedMessage) (ack : ArmedMessage) (r : Entropy) (hpeer : key ≠ x.peer)
      (h : Agreement.bondWith x.suite (t.offered x).keyPair key = .ok b)
      (hdraws : r.secretsDrawn = (t.ensureInactive x).2.entropy.secretsDrawn)
      (hsent : sent.length = if t.keyDue x then 1 else 0)
      (hkeys : ∀ m ∈ sent, Sealed x t.session.longTimeId t.session.longTimePair
        (.keyExchange (t.offered x).keyPair.publicKey) m)
      (hack : Sealed x t.session.longTimeId t.session.longTimePair (.acknowledgement b.id) ack) :
      Answers x key t (.ok (), { t with
        session := { t.session with
          inactive := some { t.offered x with bond := some b }
          lastKeyExchangeAt := if t.keyDue x then some x.now else t.session.lastKeyExchangeAt }
        entropy := r
        outbox := t.outbox ++ sent ++ [ack] })

/-! ### The steps of an answer -/

theorem ensureInactive_offers (x : Context) (t : Turn) : t.ensureInactive x =
    ((t.offered x).keyPair.publicKey, { t with
      session := { t.session with inactive := some (t.offered x) }
      entropy := (t.ensureInactive x).2.entropy }) := by
  obtain ⟨⟨longTimeId, pair, initialized, active, inactive, exchange, renewal, state⟩, r, deferred, outbox, events⟩ := t
  cases inactive <;> rfl

theorem draws_ensureInactive (x : Context) (t : Turn) : (t.ensureInactive x).2.entropy.secretsDrawn =
    t.entropy.secretsDrawn + if t.session.inactive = none then 1 else 0 := by
  unfold ensureInactive
  cases t.session.inactive <;> rfl

/-- What is no payload is sealed under the long-time agreement, and costs a nonce. -/
theorem sealLongTime_negotiates (hS : x.suite.Seals) (content : ArmMessage)
    (hc : ∀ payload, content ≠ .application payload) (t : Turn) :
    ∃ m r, t.sealLongTime x content = (.ok m, { t with entropy := r }) ∧
      r.secretsDrawn = t.entropy.secretsDrawn ∧ Sealed x t.session.longTimeId t.session.longTimePair content m := by
  obtain ⟨m, hm, hsealed⟩ := sealMessage_negotiates hS t.session.longTimeId t.session.longTimePair hc t
  exact ⟨m, t.entropy.drawNonce.2, Prod.ext hm rfl, rfl, hsealed⟩

theorem doKeyExchange_sends (hS : x.suite.Seals) {a : Agreement} (ha : t.session.inactive = some a) :
    ∃ sent r, t.doKeyExchange x = (.ok (), { t with
        session := { t.session with
          lastKeyExchangeAt := if t.keyDue x then some x.now else t.session.lastKeyExchangeAt }
        entropy := r
        outbox := t.outbox ++ sent }) ∧ r.secretsDrawn = t.entropy.secretsDrawn ∧
      sent.length = (if t.keyDue x then 1 else 0) ∧ ∀ m ∈ sent,
        Sealed x t.session.longTimeId t.session.longTimePair (.keyExchange a.keyPair.publicKey) m := by
  have hoffer : t.ensureInactive x = (a.keyPair.publicKey, t) := by
    unfold ensureInactive
    rw [ha]
  unfold doKeyExchange
  rw [hoffer]
  simp only
  rw [← keyDue]
  cases hdue : t.keyDue x with
  | false =>
    simp only [Bool.false_eq_true, if_false]
    exact ⟨[], t.entropy, by rw [List.append_nil], rfl, rfl, fun _ h => absurd h List.not_mem_nil⟩
  | true =>
    obtain ⟨m, r, hm, hdraws, hsealed⟩ :=
      sealLongTime_negotiates hS (.keyExchange a.keyPair.publicKey) (fun _ => nofun) t
    simp only [if_true, sendKeyExchange, hm]
    refine ⟨[m], r, rfl, hdraws, rfl, fun m' hm' => ?_⟩
    rw [List.mem_singleton.1 hm']
    exact hsealed

theorem sendAck_sends (hS : x.suite.Seals) {id : AgreementId} (hid : t.session.inactiveId = some id) :
    ∃ ack r, t.sendAck x = (.ok (), { t with entropy := r, outbox := t.outbox ++ [ack] }) ∧
      r.secretsDrawn = t.entropy.secretsDrawn ∧
        Sealed x t.session.longTimeId t.session.longTimePair (.acknowledgement id) ack := by
  obtain ⟨m, r, hm, hdraws, hsealed⟩ :=
    sealLongTime_negotiates hS (.acknowledgement id) (fun _ => nofun) t
  refine ⟨m, r, ?_, hdraws, hsealed⟩
  unfold sendAck
  rw [hid]
  simp only
  rw [hm]
  rfl

/-- What follows a bond: our key if that is due, and the acknowledgement. -/
theorem answer_sends (hS : x.suite.Seals) {a : Agreement} {b : Bond} (ha : t.session.inactive = some a)
    (hb : a.bond = some b) :
    ∃ sent ack r, (match t.doKeyExchange x with
        | (.error e, t) => (.error e, t)
        | (.ok (), t) => t.sendAck x) = (.ok (), { t with
          session := { t.session with
            lastKeyExchangeAt := if t.keyDue x then some x.now else t.session.lastKeyExchangeAt }
          entropy := r
          outbox := t.outbox ++ sent ++ [ack] }) ∧ r.secretsDrawn = t.entropy.secretsDrawn ∧
      sent.length = (if t.keyDue x then 1 else 0) ∧
      (∀ m ∈ sent, Sealed x t.session.longTimeId t.session.longTimePair (.keyExchange a.keyPair.publicKey) m) ∧
      Sealed x t.session.longTimeId t.session.longTimePair (.acknowledgement b.id) ack := by
  obtain ⟨sent, r₁, hsend, hdraws, hlength, hkeys⟩ := doKeyExchange_sends hS ha
  have hid : t.session.inactiveId = some b.id := by
    rw [Session.inactiveId, ha, Option.bind_some, Agreement.id, hb]
    rfl
  rw [hsend]
  obtain ⟨ack, r₂, hack, hdraws', hsealed⟩ := sendAck_sends (t := { t with
    session := { t.session with
      lastKeyExchangeAt := if t.keyDue x then some x.now else t.session.lastKeyExchangeAt }
    entropy := r₁
    outbox := t.outbox ++ sent }) hS hid
  exact ⟨sent, ack, r₂, hack, hdraws'.trans hdraws, hlength, hkeys, hsealed⟩

/-- **What becomes of a key of the peer.**  Where messages of the handshake can be encrypted, nothing fails once the
offer is bonded with the key. -/
theorem answers_receivedKeyExchange (hS : x.suite.Seals) (hfs : x.config.forwardSecrecy = true) (key : PublicKey)
    (t : Turn) : Answers x key t (t.receivedKeyExchange x key) := by
  unfold receivedKeyExchange
  by_cases hpeer : key = x.peer
  · rw [if_pos hpeer]
    exact .longTime hpeer
  rw [if_neg hpeer]
  have hoffers := ensureInactive_offers x t
  generalize hr : (t.ensureInactive x).2.entropy = r at hoffers
  cases hb : Agreement.bondWith x.suite (t.offered x).keyPair key with
  | error err =>
    have hrefused := Answers.refused err hpeer hb
    rw [hoffers] at hrefused ⊢
    simp only
    rw [bondInactive_refused rfl hb]
    exact hrefused
  | ok b =>
    rw [hoffers]
    simp only
    rw [bondInactive_ok rfl hb]
    simp only [hfs, if_true]
    obtain ⟨sent, ack, r', hanswer, hdraws, hlength, hkeys, hack⟩ := answer_sends
      (t := { t with session := { t.session with inactive := some { t.offered x with bond := some b } }, entropy := r })
      hS rfl rfl
    have hbonded := Answers.bonded (t := t) b sent ack r' hpeer hb (hdraws.trans (congrArg _ hr.symm)) hlength hkeys
      hack
    exact (congrArg (Answers x key t) hanswer).mpr hbonded

end Turn

end Overlay
