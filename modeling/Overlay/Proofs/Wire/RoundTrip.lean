import Overlay.Proofs.Wire.ArmMessage
import Overlay.Wire.DiscoveryMessage
import Overlay.Wire.Envelope

/-!
# What was written is read back

The other codecs, from the fields up: a number at the front is read back and nothing behind it is touched
(`Wire.readUInt32_append` and its like), so is an address (`Wire.readAddress_append`), and therefore discovery
messages, armed messages and envelopes are.  An armed message is refused where its ciphertext is too short to hold
a tag, so that is what the last two ask for.

A relay changes an envelope in one octet only, the one that counts the relays (`Envelope.encode_hopCount`).
-/

namespace Overlay

namespace Wire

/-! ### Fields -/

/-- A reader that goes on after another one has an answer only if both have. -/
theorem ok_of_bind {ε α β : Type} {x : Except ε α} {f : α → Except ε β} {r : β} (h : x >>= f = .ok r) :
    ∃ a, x = .ok a ∧ f a = .ok r := by
  cases x with
  | error err => cases h
  | ok a => exact ⟨a, rfl, h⟩

theorem toBytes_ofBE {n x : Nat} : (Block.ofBE n x).toBytes = bigEndian n x := Block.toBytes_ofBytes _ _

theorem readBlock_bigEndian (n size x : Nat) (rest : Bytes) :
    readBlock n size (bigEndian n x ++ rest) = .ok (Block.ofBE n x, rest) := by
  rw [← toBytes_ofBE]
  exact readBlock_append size (Block.ofBE n x) rest

theorem readUInt16_append (size : Nat) (x : UInt16) (rest : Bytes) :
    readUInt16 size (bigEndian 2 x.toNat ++ rest) = .ok (x, rest) := by
  have hx : ofBigEndian (bigEndian 2 x.toNat) = x.toNat := ofBigEndian_bigEndian x.toNat_lt
  simp only [readUInt16, readBlock_bigEndian, bind, Except.bind, toBytes_ofBE, hx, UInt16.ofNat_toNat]
  rfl

theorem readUInt32_append (size : Nat) (x : UInt32) (rest : Bytes) :
    readUInt32 size (bigEndian 4 x.toNat ++ rest) = .ok (x, rest) := by
  have hx : ofBigEndian (bigEndian 4 x.toNat) = x.toNat := ofBigEndian_bigEndian x.toNat_lt
  simp only [readUInt32, readBlock_bigEndian, bind, Except.bind, toBytes_ofBE, hx, UInt32.ofNat_toNat]
  rfl

theorem readUInt64_append (size : Nat) (x : UInt64) (rest : Bytes) :
    readUInt64 size (bigEndian 8 x.toNat ++ rest) = .ok (x, rest) := by
  have hx : ofBigEndian (bigEndian 8 x.toNat) = x.toNat := ofBigEndian_bigEndian x.toNat_lt
  simp only [readUInt64, readBlock_bigEndian, bind, Except.bind, toBytes_ofBE, hx, UInt64.ofNat_toNat]
  rfl

theorem readAddress_append (size : Nat) (a : Address) (rest : Bytes) :
    readAddress size (encodeAddress a ++ rest) = .ok (a, rest) := by
  obtain ⟨host, port⟩ := a
  cases host with
  | v4 octets =>
    simp only [readAddress, readHost, encodeAddress, List.cons_append, List.append_assoc, readOctet,
      readBlock_append, bind, Except.bind, pure, Except.pure, if_true, readUInt16_append]
  | v6 octets =>
    have hfamily : ¬ (6 : UInt8) = 4 := by decide
    simp only [readAddress, readHost, encodeAddress, List.cons_append, List.append_assoc, readOctet, if_neg hfamily,
      readBlock_append, bind, Except.bind, pure, Except.pure, if_true, readUInt16_append]

end Wire

/-! ### Messages -/

/-- What is not a payload is read back, whatever follows it. -/
theorem DiscoveryMessage.decode_append {m : DiscoveryMessage} (h : ∀ payload, m ≠ .application payload) (rest : Bytes) :
    decode (m.encode ++ rest) = .ok m := by
  have hread : ∀ size, Wire.readOctet size (m.encode ++ rest) = .ok (m.tag, m.body ++ rest) := fun _ => rfl
  cases m with
  | hello time childrenTime =>
    simp only [decode, hread, bind, Except.bind, tag, body, List.append_assoc, Wire.readUInt64_append]
    rfl
  | acknowledgement time =>
    simp only [decode, hread, bind, Except.bind, tag, body, Wire.readUInt64_append]
    rfl
  | unite peer addr =>
    simp only [decode, hread, bind, Except.bind, tag, body, PublicKey.toBytes, List.append_assoc,
      Wire.readBlock_append, Wire.readAddress_append]
    rfl
  | application payload => exact absurd rfl (h payload)

theorem DiscoveryMessage.decode_encode (m : DiscoveryMessage) : decode m.encode = .ok m := by
  by_cases h : ∃ payload, m = .application payload
  · obtain ⟨payload, rfl⟩ := h
    rfl
  · have hm := decode_append (fun payload hp => h ⟨payload, hp⟩) []
    rwa [List.append_nil] at hm

theorem ArmedMessage.decode_encode {m : ArmedMessage} (h : 16 ≤ m.ciphertext.length) :
    decode m.encode = .ok m := by
  have hlength : ¬ m.encode.length < minSize := by
    simp only [encode, List.length_append, AgreementId.toBytes, Block.length_toBytes, minSize, headerSize]
    omega
  rw [decode, if_neg hlength]
  simp only [encode, AgreementId.toBytes, Wire.readBlock_append, bind, Except.bind]
  rfl

theorem ArmedMessage.tag_of_decode {b : Bytes} {m : ArmedMessage} (h : decode b = .ok m) :
    16 ≤ m.ciphertext.length := by
  unfold decode at h
  split at h
  · cases h
  · rename_i hlength
    obtain ⟨⟨id, rest⟩, hid, h⟩ := Wire.ok_of_bind h
    obtain ⟨⟨nonce, ciphertext⟩, hnonce, h⟩ := Wire.ok_of_bind h
    cases h
    rw [Wire.readBlock_ok hid, Wire.readBlock_ok hnonce] at hlength
    simp only [List.length_append, Block.length_toBytes, minSize, headerSize] at hlength
    show 16 ≤ ciphertext.length
    omega

namespace Envelope

/-- An envelope around a message with a tag is read back. -/
theorem decode_encode {e : Envelope} (h : 16 ≤ e.armed.ciphertext.length) : decode e.encode = .ok e := by
  have hoctet : ∀ size rest, Wire.readOctet size (e.hopCount :: rest) = .ok (e.hopCount, rest) := fun _ _ => rfl
  simp only [decode, encode, Wire.readUInt32_append, bind, Except.bind, if_true, hoctet, PublicKey.toBytes,
    Wire.readBlock_append, ArmedMessage.decode_encode h]
  rfl

theorem tag_of_decode {b : Bytes} {e : Envelope} (h : decode b = .ok e) : 16 ≤ e.armed.ciphertext.length := by
  obtain ⟨⟨found, rest⟩, -, h⟩ := Wire.ok_of_bind h
  simp only at h
  split at h
  · obtain ⟨⟨network, rest⟩, -, h⟩ := Wire.ok_of_bind h
    obtain ⟨⟨hopCount, rest⟩, -, h⟩ := Wire.ok_of_bind h
    obtain ⟨⟨sender, rest⟩, -, h⟩ := Wire.ok_of_bind h
    obtain ⟨⟨recipient, rest⟩, -, h⟩ := Wire.ok_of_bind h
    obtain ⟨armed, harmed, h⟩ := Wire.ok_of_bind h
    cases h
    exact ArmedMessage.tag_of_decode harmed
  · cases h

/-- The ninth octet of an envelope counts its relays, and no other one does. -/
theorem encode_hopCount (e : Envelope) (hops : UInt8) :
    ({ e with hopCount := hops } : Envelope).encode = e.encode.set 8 hops := by
  have hfront : (bigEndian 4 magic.toNat ++ bigEndian 4 e.networkId.toUInt32.toNat).length = 8 := by
    rw [List.length_append, length_bigEndian, length_bigEndian]
  simp only [encode, ← List.append_assoc (bigEndian 4 magic.toNat)]
  rw [List.set_append_right _ _ (Nat.le_of_eq hfront), hfront]
  rfl

end Envelope

end Overlay
