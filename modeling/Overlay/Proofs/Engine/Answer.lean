import Overlay.Proofs.Engine.Live
import Overlay.Proofs.Session.Answer

/-!
# A peer's key and the keys of the traffic

Whoever can send a key to an engine can make it negotiate, but not disturb the traffic.  Whatever key comes, the
agreements that encrypt and decrypt stay as they are (`Session.Undisturbed`), and the application is told nothing.
Either the key is refused, and nothing is sent; or the agreement under negotiation, with the key pair that it had, is
bonded with that key, and the engine answers with that key pair's public key, if that is due, and one acknowledgement
of the bond's name (`keyExchange_answered`).  Which of the two, the key decides: it is refused exactly if it is the
peer's long-time key, or our own, or one that forces the zero secret.
-/

namespace Overlay

/-- What protects the traffic of a session has not changed. -/
structure Session.Undisturbed (s s' : Session) : Prop where
  longTime : s'.longTimeId = s.longTimeId ∧ s'.longTimePair = s.longTimePair
  active : s'.active = s.active
  initialized : s'.initialized = s.initialized
  state : s'.state = s.state
  renewal : s'.lastRenewAttemptAt = s.lastRenewAttemptAt

theorem Session.Undisturbed.refl (s : Session) : s.Undisturbed s := ⟨⟨rfl, rfl⟩, rfl, rfl, rfl, rfl⟩

namespace Endpoint

open Engine

variable {S : Suite} {now : Nat} {w : Endpoint} {p key : PublicKey} {s s' : Session}

/-- The agreement that a peer's key is bonded with: the one under negotiation, or one with the next fresh key. -/
def proposed (S : Suite) (w : Endpoint) (s : Session) : Agreement :=
  s.inactive.getD (.ofKeyPair (S.keyPair w.entropy.drawSecret.1))

/-- A key was refused: nothing was sent, and the agreement under negotiation is as it was.  If there was none, there may
be one now, which is not bonded. -/
structure Refused (a : Agreement) (w : Endpoint) (s : Session) (answer : Except ArmError Unit × Engine × Entropy)
    (s' : Session) : Prop where
  error : ∃ err, answer.1 = .error err
  outbox : answer.2.1.outbox = w.engine.outbox
  exchange : s'.lastKeyExchangeAt = s.lastKeyExchangeAt
  inactive : s'.inactive = s.inactive ∨ s.inactive = none ∧ s'.inactive = some a

/-- A key was accepted: the offer is bonded with it, and what was sent is our key of the offer, if that was due, and one
acknowledgement of the bond. -/
structure Accepted (S : Suite) (now : Nat) (p key : PublicKey) (a : Agreement) (w : Endpoint) (s : Session)
    (answer : Except ArmError Unit × Engine × Entropy) (s' : Session) (b : Bond) (sent : List ArmedMessage)
    (ack : ArmedMessage) : Prop where
  ok : answer.1 = .ok ()
  inactive : s'.inactive = some { a with bond := some b }
  recipient : b.recipient = key
  id : S.agreementId a.keyPair.publicKey key = .ok b.id
  pair : S.deriveSessionPair a.keyPair key = .ok b.pair
  outbox : answer.2.1.outbox = w.engine.outbox ++ (sent.map (⟨p, ·⟩) ++ [⟨p, ack⟩])
  once : sent.length ≤ 1
  keys : ∀ m ∈ sent, Sealed (w.engine.context S now p) s.longTimeId s.longTimePair
    (.keyExchange a.keyPair.publicKey) m
  acknowledges : Sealed (w.engine.context S now p) s.longTimeId s.longTimePair (.acknowledgement b.id) ack
  exchange : s'.lastKeyExchangeAt = if sent = [] then s.lastKeyExchangeAt else some now

def taken (now : Nat) (p : PublicKey) (w : Endpoint) (turn : Except ArmError Unit × Turn) :
    Except ArmError Unit × Engine × Entropy :=
  (turn.1, (w.engine.withSessions (w.engine.sessions.get p now).2).absorb p turn.2, turn.2.entropy)

/-- What an offer that was refused leaves behind. -/
theorem refused_taken (hw : w.engine.sessions.Sound) (hs : w.engine.session p now = some s) (err : ArmError) :
    let t : Turn := { session := s, entropy := w.entropy }
    let answer := w.taken now p (.error err, (t.ensureInactive (w.engine.context S now p)).2)
    ∃ s', answer.2.1.session p now = some s' ∧ s.Undisturbed s' ∧ answer.2.1.events = w.engine.events ∧
      answer.2.1.deferred = w.engine.deferred ∧
      answer.2.2.secretsDrawn = w.entropy.secretsDrawn + (if s.inactive = none then 1 else 0) ∧
      Refused (w.proposed S s) w s answer s' := by
  intro t answer
  have hoffers := Turn.ensureInactive_offers (w.engine.context S now p) t
  have hturn := congrArg Prod.snd hoffers
  have hlive : answer.2.1.session p now = _ := session_absorb hw hs _
  rw [hturn] at hlive
  refine ⟨_, hlive, ⟨⟨rfl, rfl⟩, rfl, rfl, rfl, rfl⟩, ?_, ?_, Turn.draws_ensureInactive _ t, ⟨_, rfl⟩, ?_, rfl, ?_⟩
  · show w.engine.events ++ (t.ensureInactive _).2.events = _
    rw [hturn]
    exact List.append_nil _
  · show w.engine.deferred ++ (t.ensureInactive _).2.deferred.map _ = _
    rw [hturn]
    exact List.append_nil _
  · show w.engine.outbox ++ (t.ensureInactive _).2.outbox.map _ = _
    rw [hturn]
    exact List.append_nil _
  · show some (w.proposed S s) = s.inactive ∨ s.inactive = none ∧ some (w.proposed S s) = some (w.proposed S s)
    unfold proposed
    cases s.inactive with
    | none => exact Or.inr ⟨rfl, rfl⟩
    | some a => exact Or.inl rfl

/-- **A peer's key never touches the keys of the traffic.**  In every run, a key that comes while the session with the
peer is live leaves alone what protects its traffic, and tells the application nothing.  It is refused exactly if it is
the peer's long-time key, our own key under negotiation, or one that forces the zero secret; and nothing is sent then.
Otherwise the agreement under negotiation keeps its key pair and is bonded with the key.  A fresh key pair is drawn only
where there was none. -/
theorem keyExchange_answered (S : Suite) (hS : S.Seals) (identity : KeyPair) (config : ArmConfig) (entropy : Entropy)
    (ops : List (Nat × Operation)) (now : Nat) (p key : PublicKey) (w : Endpoint) (s : Session)
    (hw : w = (start identity config entropy).run S ops) (hfs : config.forwardSecrecy = true)
    (hlive : w.engine.session p now = some s) :
    let a := w.proposed S s
    let answer := w.engine.receivedKeyExchange S now p key w.entropy
    ∃ s', answer.2.1.session p now = some s' ∧ s.Undisturbed s' ∧ answer.2.1.events = w.engine.events ∧
      answer.2.1.deferred = w.engine.deferred ∧
      answer.2.2.secretsDrawn = w.entropy.secretsDrawn + (if key ≠ p ∧ s.inactive = none then 1 else 0) ∧
      if key = p ∨ a.keyPair.publicKey = key ∨ S.shared a.keyPair.secretKey key = Block.filled 32 0 then
        Refused a w s answer s'
      else ∃ b sent ack, Accepted S now p key a w s answer s' b sent ack := by
  intro a answer
  have hsound : w.engine.sessions.Sound := hw ▸ sound_run (sound_start identity config entropy) ops
  have hconfig : w.engine.config = config := hw ▸ config_run (sound_start identity config entropy) ops
  by_cases hpeer : key = p
  · have hanswer : answer = (.error (.invalidArgument .longTimeKeyExchanged), w.engine, w.entropy) := if_pos hpeer
    rw [hanswer]
    exact ⟨s, hlive, .refl s, rfl, rfl, by simp [hpeer],
      (if_pos (Or.inl hpeer)).mpr ⟨⟨_, rfl⟩, rfl, rfl, Or.inl rfl⟩⟩
  let t : Turn := { session := s, entropy := w.entropy }
  have hanswer : answer = w.taken now p (t.receivedKeyExchange (w.engine.context S now p) key) :=
    (if_neg hpeer).trans (converse_live hsound hlive _ _)
  have hanswers := Turn.answers_receivedKeyExchange (x := w.engine.context S now p) hS
    ((congrArg ArmConfig.forwardSecrecy hconfig).trans hfs) key t
  rw [hanswer]
  generalize t.receivedKeyExchange (w.engine.context S now p) key = turn at hanswers ⊢
  have hrefuses := bondWith_refuses S a.keyPair key
  simp only [hpeer, false_or, ne_eq, not_false_eq_true, true_and]
  cases hanswers with
  | longTime h => exact absurd h hpeer
  | refused err _ hb =>
    obtain ⟨s', hsession, hsame, hevents, hdeferred, hdraws, hrefused⟩ := refused_taken (S := S) hsound hlive err
    exact ⟨s', hsession, hsame, hevents, hdeferred, hdraws, (if_pos (hrefuses.1 ⟨err, hb⟩)).mpr hrefused⟩
  | bonded b sent ack r _ hb hdraws hsent hkeys hack =>
    have hbonds : ¬ (a.keyPair.publicKey = key ∨ S.shared a.keyPair.secretKey key = Block.filled 32 0) := by
      rw [← hrefuses]
      rintro ⟨err, herr⟩
      cases hb.symm.trans herr
    obtain ⟨hrecipient, hid, hpair⟩ := bondWith_ok hb
    have honce : sent.length ≤ 1 := by
      rw [hsent]
      split <;> omega
    have hnoted : (if t.keyDue (w.engine.context S now p) then some now else s.lastKeyExchangeAt) =
        if sent = [] then s.lastKeyExchangeAt else some now := by
      cases hdue : t.keyDue (w.engine.context S now p) with
      | true =>
        rw [hdue, if_pos rfl] at hsent
        rw [if_pos rfl, if_neg (List.ne_nil_of_length_eq_add_one hsent)]
      | false =>
        rw [hdue, if_neg Bool.false_ne_true] at hsent
        rw [if_neg Bool.false_ne_true, if_pos (List.length_eq_zero_iff.1 hsent)]
    refine ⟨_, session_absorb hsound hlive _, ⟨⟨rfl, rfl⟩, rfl, rfl, rfl, rfl⟩, List.append_nil _, List.append_nil _,
      hdraws.trans (Turn.draws_ensureInactive _ t), (if_neg hbonds).mpr ⟨b, sent, ack, ?_⟩⟩
    exact ⟨rfl, rfl, hrecipient, hid, hpair, congrArg (w.engine.outbox ++ ·) List.map_append, honce, hkeys, hack,
      hnoted⟩

/-- The newcomer encrypts under its agreement with the partner when the partner sends another key, which it accepts for
the next one. -/
theorem keyExchange_answered_partner :
    let w := newcomer.run Textbook.suite acquaintance
    let key := Textbook.suite.publicOf ⟨Textbook.remainder 17⟩
    let answer := w.engine.receivedKeyExchange Textbook.suite 3 partner key w.entropy
    ∃ s s' b sent ack, w.engine.session partner 3 = some s ∧ s.active.isSome = true ∧
      answer.2.1.session partner 3 = some s' ∧ s.Undisturbed s' ∧
      Accepted Textbook.suite 3 partner key (w.proposed Textbook.suite s) w s answer s' b sent ack := by
  intro w key
  have hsession : (w.engine.session partner 3).any fun s =>
      let a := w.proposed Textbook.suite s
      s.active.isSome = true ∧ ¬ (key = partner ∨ a.keyPair.publicKey = key ∨
        Textbook.suite.shared a.keyPair.secretKey key = Block.filled 32 0) := by decide +kernel
  obtain ⟨s, hlive, hdata⟩ := (Option.any_eq_true _ _).1 hsession
  obtain ⟨hactive, hbonds⟩ := of_decide_eq_true hdata
  obtain ⟨s', hlive', hsame, -, -, -, houtcome⟩ := keyExchange_answered Textbook.suite Textbook.suite_seals
    (Textbook.suite.keyPair ⟨Textbook.remainder 5⟩) {} (Textbook.counting 11) acquaintance 3 partner key w s rfl rfl
    hlive
  obtain ⟨b, sent, ack, haccepted⟩ := (if_neg hbonds).mp houtcome
  exact ⟨s, s', b, sent, ack, hlive, hactive, hlive', hsame, haccepted⟩

end Endpoint

end Overlay
