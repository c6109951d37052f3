import Overlay.Wire.ArmMessage

/-!
# Armed contents are read back

Reading what was written gives the content that was written (`ArmMessage.decode_encode`).  What is not a payload has
a fixed length (`ArmMessage.length_encode`), and whatever follows it is ignored (`ArmMessage.decode_append`).
-/

namespace Overlay

namespace ArmMessage

/-- What is not a payload is read back, whatever follows it. -/
theorem decode_append {m : ArmMessage} (h : ∀ payload, m ≠ .application payload) (rest : Bytes) :
    decode (m.encode ++ rest) = .ok m := by
  have hread : ∀ size, Wire.readOctet size (m.encode ++ rest) = .ok (m.tag, m.body ++ rest) := fun _ => rfl
  cases m with
  | application payload => exact absurd rfl (h payload)
  | keyExchange key =>
    simp only [decode, hread, bind, Except.bind, tag, body, PublicKey.toBytes, Wire.readBlock_append]
    rfl
  | acknowledgement id =>
    simp only [decode, hread, bind, Except.bind, tag, body, AgreementId.toBytes, Wire.readBlock_append]
    rfl

theorem decode_encode (m : ArmMessage) : decode m.encode = .ok m := by
  by_cases h : ∃ payload, m = .application payload
  · obtain ⟨payload, rfl⟩ := h
    rfl
  · have hm := decode_append (fun payload hp => h ⟨payload, hp⟩) []
    rwa [List.append_nil] at hm

/-- What is not a payload is written as an octet for its kind, and a key or a name. -/
theorem length_encode {m : ArmMessage} (h : ∀ payload, m ≠ .application payload) : m.encode.length = 33 := by
  cases m with
  | application payload => exact absurd rfl (h payload)
  | keyExchange key => simp [encode, body, PublicKey.toBytes]
  | acknowledgement id => simp [encode, body, AgreementId.toBytes]

end ArmMessage

end Overlay
