import Mathlib.Logic.Function.Basic
import Overlay.Proofs.Engine.Sealing

/-!
# Messages are what they claim to be

Any number of engines, each with its own identity, settings and randomness, do one operation after the other
(`Crowd.run`).  What they receive is anything that anyone can make up: any message, under any claimed sender.
The record of a run is all that the engines encrypted in it (`Crowd.record`).

A message is `Unforged` if it can be decrypted only as one of those encryptions, with its key, nonce and data,
and to its plaintext.  If an engine takes a payload from such a message, then the claimed sender has encrypted
that payload for this very engine before, and the message is the answer it was given (`authentic`).  So nothing
is gained by returning a message to its sender, by passing it on to someone else, by claiming another sender, or
by changing the name of its agreement, and no message of the handshake passes for a payload.
-/

namespace Overlay

namespace Turn

variable {x : Context} {t : Turn} {m : ArmedMessage} {payload : Bytes}

theorem decrypted_of_open {pair : SessionPair} {content : ArmMessage} (h : openMessage x pair m = .ok content) :
    ∃ plaintext, x.suite.decrypt pair.rx m.nonce
      (associatedData x.peer x.own.publicKey m.agreementId) m.ciphertext = some plaintext ∧
        ArmMessage.decode plaintext = .ok content := by
  simp only [openMessage] at h
  split at h
  · cases h
  · rename_i plaintext hd
    split at h
    · rename_i content' hc
      cases h
      exact ⟨plaintext, hd, hc⟩
    · cases h

theorem opened_of_disarmed (h : (t.disarmInbound x m).1 = .ok (.application payload)) :
    ∃ pair, openMessage x pair m = .ok (.application payload) := by
  unfold disarmInbound at h
  generalize (if x.config.forwardSecrecy then t.defer .checkRenewal else t) = t₁ at h
  simp only at h
  cases hr : t₁.openInbound x m with
  | mk result t₂ =>
    rw [hr] at h
    cases result with
    | error e => cases h
    | ok opened =>
      obtain ⟨content, longTime⟩ := opened
      cases content with
      | application payload' =>
        cases h
        exact opened_openInbound (congrArg Prod.fst hr)
      | keyExchange key =>
        simp only [handle] at h
        split at h
        · generalize (t₂.receivedKeyExchange x key).1 = answer at h
          cases answer <;> cases h
        · cases h
      | acknowledgement id =>
        simp only [handle] at h
        split at h <;> cases h

end Turn

namespace Endpoint

open Engine

variable {S : Suite} {now : Nat} {w : Endpoint} {p : PublicKey} {m : ArmedMessage} {payload : Bytes}

theorem opened_of_disarmed (hw : w.engine.sessions.Sound)
    (h : (w.engine.disarmInbound S now p m w.entropy).1 = .ok (.application payload)) :
    ∃ pair, Turn.openMessage (w.engine.context S now p) pair m = .ok (.application payload) := by
  have hpeer : (⟨.silence, (· = p), fun _ => True⟩ : Scope).peers p := rfl
  unfold disarmInbound at h
  rcases converse_spec S now (fun x t => t.disarmInbound x m) hw hpeer with
    ⟨e, err, -, hr⟩ | ⟨e, s, t, result, -, -, ht, hr⟩
  · rw [hr] at h
    cases h
  · rw [hr] at h
    exact Turn.opened_of_disarmed ((congrArg Prod.fst ht).trans h)

end Endpoint

abbrev Crowd (ι : Type) := ι → Endpoint

namespace Crowd

variable {ι : Type} [DecidableEq ι] {S : Suite} {c : Crowd ι} {m : ArmedMessage} {s : Seal}

def start (identity : ι → KeyPair) (config : ι → ArmConfig) (entropy : ι → Entropy) : Crowd ι :=
  fun i => .start (identity i) (config i) (entropy i)

def act (S : Suite) (c : Crowd ι) (deed : Nat × ι × Operation) : Crowd ι :=
  Function.update c deed.2.1 (deed.2.2.perform S deed.1 (c deed.2.1))

def run (S : Suite) (c : Crowd ι) (deeds : List (Nat × ι × Operation)) : Crowd ι := deeds.foldl (act S) c

/-- All that the engines encrypt in a run. -/
def record (S : Suite) : Crowd ι → List (Nat × ι × Operation) → List Seal
  | _, [] => []
  | c, deed :: deeds => deed.2.2.seals S deed.1 (c deed.2.1) ++ record S (c.act S deed) deeds

end Crowd

/-- A message can be decrypted only as one of the recorded encryptions. -/
def ArmedMessage.Unforged (S : Suite) (m : ArmedMessage) (record : List Seal) : Prop :=
  ∀ key data plaintext, S.decrypt key m.nonce data m.ciphertext = some plaintext →
    ∃ s ∈ record, s.key = key ∧ s.nonce = m.nonce ∧ s.data = data ∧ s.ciphertext = m.ciphertext ∧
      s.plaintext = plaintext

namespace Crowd

variable {ι : Type} [DecidableEq ι] {S : Suite} {c : Crowd ι} {m : ArmedMessage} {s : Seal}
  {deeds : List (Nat × ι × Operation)}

/-- The run of the crowd is a run of each of its engines. -/
theorem run_apply (S : Suite) (c : Crowd ι) (deeds : List (Nat × ι × Operation)) (i : ι) :
    c.run S deeds i = (c i).run S ((deeds.filter (·.2.1 = i)).map fun deed => (deed.1, deed.2.2)) := by
  induction deeds generalizing c with
  | nil => rfl
  | cons deed deeds ih =>
    obtain ⟨now, j, op⟩ := deed
    have hrest := ih (c.act S (now, j, op))
    by_cases hj : j = i
    · subst hj
      have hself : c.act S (now, j, op) j = op.perform S now (c j) := Function.update_self j _ c
      rw [hself] at hrest
      rw [List.filter_cons_of_pos (by simp)]
      exact hrest
    · have hother : c.act S (now, j, op) i = c i := Function.update_of_ne (Ne.symm hj) _ c
      rw [hother] at hrest
      rw [List.filter_cons_of_neg (by simpa using hj)]
      exact hrest

/-- What is in the record was encrypted in some operation of the run. -/
theorem mem_record (hs : s ∈ c.record S deeds) : ∃ before deed later, deeds = before ++ deed :: later ∧
    s ∈ deed.2.2.seals S deed.1 (c.run S before deed.2.1) := by
  induction deeds generalizing c with
  | nil => cases hs
  | cons deed deeds ih =>
    rcases List.mem_append.1 hs with hs | hs
    · exact ⟨[], deed, deeds, rfl, hs⟩
    · obtain ⟨before, deed', later, rfl, hmem⟩ := ih hs
      exact ⟨deed :: before, deed', later, rfl, hmem⟩

theorem record_concat (S : Suite) (c : Crowd ι) (deeds : List (Nat × ι × Operation)) (deed : Nat × ι × Operation) :
    c.record S (deeds ++ [deed]) = c.record S deeds ++ deed.2.2.seals S deed.1 (c.run S deeds deed.2.1) := by
  induction deeds generalizing c with
  | nil => exact List.append_nil _
  | cons first deeds ih =>
    show _ ++ (c.act S first).record S (deeds ++ [deed]) = _
    rw [ih, ← List.append_assoc]
    rfl

/-- **Authenticity.**  The record of a run grows with each operation by what the operation emits.  If an engine takes a
payload from a message that comes, as is claimed, from some sender, then before that the engine of this sender was asked
to encrypt the same payload for this engine, and the message is what it answered. -/
theorem authentic (S : Suite) (identity : ι → KeyPair) (config : ι → ArmConfig) (entropy : ι → Entropy)
    (deeds : List (Nat × ι × Operation)) (now : Nat) (i : ι) (sender : PublicKey) (m : ArmedMessage)
    (payload : Bytes) (c : Crowd ι) (hc : c = start identity config entropy)
    (hm : m.Unforged S (c.record S deeds))
    (h : ((c.run S deeds i).engine.disarmInbound S now sender m (c.run S deeds i).entropy).1 =
      .ok (.application payload)) :
    (∀ before deed, ∃ l, c.record S (before ++ [deed]) = c.record S before ++ l ∧
      deed.2.2.Emits S deed.1 (c.run S before deed.2.1) l) ∧
    ∃ before moment j later,
      deeds = before ++ (moment, j, .armOutbound (identity i).publicKey payload) :: later ∧
      (identity j).publicKey = sender ∧
      ((c.run S before j).engine.armOutbound S moment (identity i).publicKey payload
        (c.run S before j).entropy).1 = .ok m := by
  refine ⟨fun before deed => ⟨_, record_concat S c before deed, Operation.emits_seals S _ _ _⟩, ?_⟩
  have hsound : ∀ deeds j, (c.run S deeds j).engine.sessions.Sound := by
    intro deeds j
    rw [run_apply, hc]
    exact Endpoint.sound_run (Endpoint.sound_start _ _ _) _
  have hidentity : ∀ deeds j, (c.run S deeds j).engine.identity = identity j := by
    intro deeds j
    rw [run_apply, hc]
    exact Endpoint.identity_run (Endpoint.sound_start _ _ _) _
  -- The payload was decrypted, so it is the content of a seal with the same data.
  obtain ⟨pair, ho⟩ := Endpoint.opened_of_disarmed (hsound deeds i) h
  obtain ⟨plaintext, hd, hdecode⟩ := Turn.decrypted_of_open ho
  obtain ⟨s, hs, -, hnonce, hdata, hciphertext, hplaintext⟩ := hm _ _ _ hd
  rw [← hplaintext, Seal.plaintext, ArmMessage.decode_encode] at hdecode
  have hcontent : s.content = .application payload := Except.ok.inj hdecode
  obtain ⟨hsender, hrecipient, hid⟩ := associatedData_injective hdata
  have hmessage : s.message = m := ArmedMessage.ext hid hnonce hciphertext
  -- A seal of a payload comes from the request to encrypt it.
  obtain ⟨before, ⟨moment, j, op⟩, later, rfl, hmem⟩ := mem_record hs
  obtain ⟨rfl, hfrom, hanswer⟩ := Operation.armed_of_seals hmem hcontent
  have hto : s.recipient = (identity i).publicKey := hrecipient.trans (by rw [← hidentity _ i]; rfl)
  have hby : (identity j).publicKey = sender := by
    rw [← hidentity before j]
    exact hfrom.symm.trans hsender
  rw [hto, hmessage] at hanswer
  exact ⟨before, moment, j, later, by rw [hto], hby, hanswer⟩

/-- Where a ciphertext opens with nothing but what it was made with, no recorded message is forged. -/
theorem unforged_of_binds (hS : S.Binds) {record : List Seal} (hs : s ∈ record)
    (henc : S.encrypt s.key s.nonce s.data s.plaintext = some s.ciphertext) : s.message.Unforged S record := by
  intro key data plaintext hd
  obtain ⟨hkey, -, hdata, hplaintext⟩ := hS _ _ _ _ _ _ _ _ _ henc hd
  exact ⟨s, hs, hkey.symm, rfl, hdata.symm, rfl, hplaintext.symm⟩

/-! ### A crowd of three -/

def identities (i : Fin 3) : KeyPair := Textbook.suite.keyPair ⟨Textbook.remainder (5 + 2 * i)⟩

def sources (i : Fin 3) : Entropy := Textbook.counting (11 + 20 * i)

def trio : Crowd (Fin 3) := start identities (fun _ => {}) sources

def addressOf (i : Fin 3) : PublicKey := (identities i).publicKey

/-- The first two engines exchange keys, and the first one takes their agreement into use. -/
def acquainted : List (Nat × Fin 3 × Operation) :=
  let key : Nat → PublicKey := fun n => Textbook.suite.publicOf ⟨Textbook.remainder n⟩
  let id := (Textbook.suite.agreementId (key 11) (key 31)).toOption.getD default
  [(1, 0, .receivedKeyExchange (addressOf 1) (key 31)), (1, 1, .receivedKeyExchange (addressOf 0) (key 11)),
    (2, 0, .receivedAck (addressOf 1) id)]

def whispered : Option ArmedMessage :=
  let w := trio.run Textbook.suite acquainted 0
  (w.engine.armOutbound Textbook.suite 3 (addressOf 1) [8] w.entropy).1.toOption

/-- The message is returned to its sender, and passed on to the third engine. -/
def intercepted : List (Nat × Fin 3 × Operation) :=
  acquainted ++ (3, 0, .armOutbound (addressOf 1) [8]) :: whispered.toList.flatMap fun m =>
    [(4, 0, .disarmInbound (addressOf 1) m), (5, 2, .disarmInbound (addressOf 0) m)]

/-- The second engine takes the payload from the message in the end. -/
theorem authentic_intercepted : ∃ m : ArmedMessage,
    m.Unforged Textbook.suite (trio.record Textbook.suite intercepted) ∧
      ((trio.run Textbook.suite intercepted 1).engine.disarmInbound Textbook.suite 6 (addressOf 0) m
        (trio.run Textbook.suite intercepted 1).entropy).1 = .ok (.application [8]) ∧
      ∃ before moment j later,
        intercepted = before ++ (moment, j, .armOutbound (addressOf 1) [8]) :: later ∧
        addressOf j = addressOf 0 ∧
        ((trio.run Textbook.suite before j).engine.armOutbound Textbook.suite moment (addressOf 1) [8]
          (trio.run Textbook.suite before j).entropy).1 = .ok m := by
  have hread : (trio.record Textbook.suite intercepted).any fun s =>
      Textbook.suite.encrypt s.key s.nonce s.data s.plaintext = some s.ciphertext ∧
        ((trio.run Textbook.suite intercepted 1).engine.disarmInbound Textbook.suite 6 (addressOf 0) s.message
          (trio.run Textbook.suite intercepted 1).entropy).1 = .ok (.application [8]) := by decide +kernel
  obtain ⟨s, hs, hopen⟩ := List.any_eq_true.1 hread
  obtain ⟨henc, hopen⟩ := of_decide_eq_true hopen
  have hforged := unforged_of_binds Textbook.suite_binds hs henc
  exact ⟨s.message, hforged, hopen, (authentic Textbook.suite identities (fun _ => {}) sources intercepted 6 1
    (addressOf 0) s.message [8] trio rfl hforged hopen).2⟩

end Crowd

end Overlay
