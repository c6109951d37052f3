import Overlay.Proofs.Wire.Field

/-!
# Envelopes are written in one way only

A relay reads an envelope and writes it again, so reading and writing have to undo each other.  `Reversible` says
that they do: the byte strings that are read are the written forms of the values that can be read, one for each.
What is needed beside `decode_encode` is the other direction, that nothing is lost in reading
(`ArmedMessage.eq_encode_of_decode`, `Envelope.eq_encode_of_decode`).

A byte string that is not an envelope is told apart by its first four octets (`Envelope.fault_of_decode`).
-/

namespace Overlay

namespace Wire

variable {μ : Type} {encode : μ → Bytes} {encodedLength : μ → Nat} {decode : Bytes → Except CodecError μ}
  {readable : μ → Prop}

/-- Reading and writing undo each other, as far as a value can be read at all. -/
structure Reversible (encode : μ → Bytes) (encodedLength : μ → Nat) (decode : Bytes → Except CodecError μ)
    (readable : μ → Prop) : Prop where
  decode_eq_ok : ∀ b m, decode b = .ok m ↔ b = encode m ∧ readable m
  decode_encode : ∀ m, readable m → decode (encode m) = .ok m
  encode_decode : ∀ b m, decode b = .ok m → encode m = b
  /-- No two byte strings are read as the same value. -/
  unique : ∀ b b' m, decode b = .ok m → decode b' = .ok m → b = b'
  length : ∀ m, (encode m).length = encodedLength m

theorem Reversible.of_inverse (hback : ∀ m, readable m → decode (encode m) = .ok m)
    (hforth : ∀ b m, decode b = .ok m → b = encode m) (hreadable : ∀ b m, decode b = .ok m → readable m)
    (hlength : ∀ m, (encode m).length = encodedLength m) : Reversible encode encodedLength decode readable where
  decode_eq_ok b m := by
    constructor
    · exact fun h => ⟨hforth b m h, hreadable b m h⟩
    · rintro ⟨rfl, hm⟩
      exact hback m hm
  decode_encode := hback
  encode_decode b m h := (hforth b m h).symm
  unique b b' m h h' := (hforth b m h).trans (hforth b' m h').symm
  length := hlength

theorem CutShort.tooShort {α : Type} {write : α → Bytes} {size : Nat} {rest : Bytes} {err : CodecError}
    (h : CutShort write size rest err) : ∃ n size, err = .tooShort n size ∧ size < n := by
  obtain ⟨_, n, -, hlt, -, rfl⟩ := h
  exact ⟨_, size, rfl, by omega⟩

end Wire

open Wire

variable {b : Bytes} {err : CodecError}

/-! ### Armed messages -/

namespace ArmedMessage

theorem length_encode (m : ArmedMessage) : m.encode.length = m.encodedLength := by
  simp only [encode, encodedLength, headerSize, AgreementId.toBytes, List.length_append, Block.length_toBytes]
  omega

theorem eq_encode_of_decode {m : ArmedMessage} (h : decode b = .ok m) : b = m.encode := by
  unfold decode at h
  split at h
  · cases h
  · obtain ⟨⟨id, rest⟩, hid, h⟩ := ok_of_bind h
    obtain ⟨⟨nonce, ciphertext⟩, hnonce, h⟩ := ok_of_bind h
    cases h
    have hrest : rest = nonce.toBytes ++ ciphertext := readBlock_ok hnonce
    rw [readBlock_ok hid, hrest]
    rfl

/-- An armed message is refused exactly if it is too short for a tag. -/
theorem decode_eq_error : decode b = .error err ↔ b.length < minSize ∧ err = .tooShort minSize b.length := by
  unfold decode
  split
  · rename_i hshort
    constructor
    · intro h
      cases h
      exact ⟨hshort, rfl⟩
    · rintro ⟨-, rfl⟩
      rfl
  · rename_i hlong
    refine ⟨fun h => ?_, fun h => absurd h.1 hlong⟩
    rw [minSize, headerSize] at hlong
    have hid : 32 ≤ b.length := by omega
    have hnonce : 24 ≤ (b.drop 32).length := by
      rw [List.length_drop]
      omega
    simp only [readBlock, dif_pos hid, dif_pos hnonce, bind, Except.bind] at h
    cases h

end ArmedMessage

/-! ### Envelopes -/

namespace Envelope

theorem length_encode (e : Envelope) : e.encode.length = e.encodedLength := by
  simp only [encode, encodedLength, headerSize, PublicKey.toBytes, List.length_append, List.length_cons,
    length_bigEndian, Block.length_toBytes, ArmedMessage.length_encode]
  omega

theorem eq_encode_of_decode {e : Envelope} (h : decode b = .ok e) : b = e.encode := by
  obtain ⟨⟨found, afterMagic⟩, hfound, h⟩ := ok_of_bind h
  have hb := (reads_uint32.ok_iff _ _ _ _).1 hfound
  simp only at h
  split at h
  · rename_i hmagic
    obtain ⟨⟨network, afterNetwork⟩, hnetwork, h⟩ := ok_of_bind h
    obtain ⟨⟨hopCount, afterCount⟩, hcount, h⟩ := ok_of_bind h
    obtain ⟨⟨sender, afterSender⟩, hsender, h⟩ := ok_of_bind h
    obtain ⟨⟨recipient, rest⟩, hrecipient, h⟩ := ok_of_bind h
    obtain ⟨armed, harmed, h⟩ := ok_of_bind h
    cases h
    have h₁ : afterMagic = bigEndian 4 network.toNat ++ afterNetwork := (reads_uint32.ok_iff _ _ _ _).1 hnetwork
    have h₂ : afterNetwork = hopCount :: afterCount := readOctet_ok.1 hcount
    have h₃ : afterCount = sender.toBytes ++ afterSender := readBlock_ok hsender
    have h₄ : afterSender = recipient.toBytes ++ rest := readBlock_ok hrecipient
    have h₅ : rest = armed.encode := ArmedMessage.eq_encode_of_decode harmed
    rw [hb, hmagic, h₁, h₂, h₃, h₄, h₅, encode, UInt32.toUInt32_toInt32]
    rfl
  · cases h

/-- What is refused is refused for its first four octets, or it is too short. -/
theorem fault_of_decode (h : decode b = .error err) :
    (∃ found rest, err = .badMagic found ∧ b = bigEndian 4 found.toNat ++ rest ∧ found ≠ magic) ∨
      ∃ n size, err = .tooShort n size ∧ size < n := by
  rcases error_of_bind h with hfound | ⟨⟨found, afterMagic⟩, hfound, h⟩
  · exact .inr (reads_uint32.error _ _ _ hfound).tooShort
  simp only at h
  split at h
  · right
    rcases error_of_bind h with hnetwork | ⟨⟨network, afterNetwork⟩, hnetwork, h⟩
    · exact (reads_uint32.error _ _ _ hnetwork).tooShort
    rcases error_of_bind h with hcount | ⟨⟨hopCount, afterCount⟩, hcount, h⟩
    · exact ⟨_, _, (readOctet_error hcount).2, Nat.lt_succ_self _⟩
    rcases error_of_bind h with hsender | ⟨⟨sender, afterSender⟩, hsender, h⟩
    · exact ((reads_block 32).error _ _ _ hsender).tooShort
    rcases error_of_bind h with hrecipient | ⟨⟨recipient, rest⟩, hrecipient, h⟩
    · exact ((reads_block 32).error _ _ _ hrecipient).tooShort
    rcases error_of_bind h with harmed | ⟨armed, harmed, h⟩
    · obtain ⟨hlt, rfl⟩ := ArmedMessage.decode_eq_error.1 harmed
      exact ⟨_, _, rfl, hlt⟩
    · cases h
  · rename_i hmagic
    cases h
    exact .inl ⟨found, afterMagic, rfl, (reads_uint32.ok_iff _ _ _ _).1 hfound, hmagic⟩

theorem decode_badMagic {found : UInt32} (h : found ≠ magic) (rest : Bytes) :
    decode (bigEndian 4 found.toNat ++ rest) = .error (.badMagic found) := by
  simp only [decode, readUInt32_append, bind, Except.bind, if_neg h]
  rfl

theorem exists_front (h : 4 ≤ b.length) : ∃ (found : UInt32) (rest : Bytes), b = bigEndian 4 found.toNat ++ rest := by
  cases hr : readUInt32 b.length b with
  | ok r => exact ⟨r.1, r.2, (reads_uint32.ok_iff _ _ _ _).1 hr⟩
  | error err =>
    obtain ⟨x, n, -, hlt, hle, -⟩ := reads_uint32.error _ _ _ hr
    rw [length_bigEndian] at hle
    omega

theorem take_front (x : Nat) (rest : Bytes) : (bigEndian 4 x ++ rest).take 4 = bigEndian 4 x :=
  List.take_left' (length_bigEndian 4 x)

/-- Envelopes are refused for their first four octets exactly if they have as many and these are not the right ones. -/
theorem decode_badMagic_iff : (∃ found, decode b = .error (.badMagic found)) ↔
    4 ≤ b.length ∧ b.take 4 ≠ bigEndian 4 magic.toNat := by
  constructor
  · rintro ⟨found, h⟩
    rcases fault_of_decode h with ⟨found, rest, -, rfl, hne⟩ | ⟨_, _, heq, -⟩
    · refine ⟨?_, fun htake => hne ?_⟩
      · rw [List.length_append, length_bigEndian]
        omega
      · rw [take_front] at htake
        have hnumber := congrArg ofBigEndian htake
        rwa [ofBigEndian_bigEndian found.toNat_lt, ofBigEndian_bigEndian magic.toNat_lt, UInt32.toNat_inj] at hnumber
    · cases heq
  · rintro ⟨hlength, htake⟩
    obtain ⟨found, rest, rfl⟩ := exists_front hlength
    refine ⟨found, decode_badMagic (fun heq => htake ?_) rest⟩
    rw [take_front, heq]

end Envelope

/-- **Reading and writing envelopes undo each other.**  A byte string is read as an envelope exactly if it is its
written form and the envelope is around a ciphertext that is long enough for a tag; so no two byte strings are read as
the same envelope, and the written form has the length that is told beforehand.  The same holds of armed messages.
What is not an envelope is refused for its first four octets exactly if it has as many and they are not the magic
number, and the error tells what they are instead; otherwise, like what is not an armed message, it is refused as too
short. -/
theorem envelope_reversible :
    Reversible Envelope.encode Envelope.encodedLength Envelope.decode (fun e => 16 ≤ e.armed.ciphertext.length) ∧
      Reversible ArmedMessage.encode ArmedMessage.encodedLength ArmedMessage.decode
        (fun m => 16 ≤ m.ciphertext.length) ∧
      (∀ b, (∃ found, Envelope.decode b = .error (.badMagic found)) ↔
        4 ≤ b.length ∧ b.take 4 ≠ bigEndian 4 Envelope.magic.toNat) ∧
      (∀ b err, Envelope.decode b = .error err →
        (∃ found, err = .badMagic found ∧ b.take 4 = bigEndian 4 found.toNat) ∨
          ∃ n size, err = .tooShort n size ∧ size < n) ∧
      ∀ b err, ArmedMessage.decode b = .error err ↔ b.length < 72 ∧ err = .tooShort 72 b.length := by
  refine ⟨?_, ?_, fun b => Envelope.decode_badMagic_iff, ?_, fun b err => ArmedMessage.decode_eq_error⟩
  · exact .of_inverse (fun e => Envelope.decode_encode) (fun b e => Envelope.eq_encode_of_decode)
      (fun b e => Envelope.tag_of_decode) Envelope.length_encode
  · exact .of_inverse (fun m => ArmedMessage.decode_encode) (fun b m => ArmedMessage.eq_encode_of_decode)
      (fun b m => ArmedMessage.tag_of_decode) ArmedMessage.length_encode
  · intro b err h
    rcases Envelope.fault_of_decode h with ⟨found, rest, rfl, rfl, -⟩ | hshort
    · exact .inl ⟨found, rfl, Envelope.take_front _ _⟩
    · exact .inr hshort

end Overlay
