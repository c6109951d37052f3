import Overlay.Error

/-!
# Fields of a message

A message is read field by field from its front.  `readBlock` takes the next `n` octets; where there are
too few, the error tells how long the whole message of `size` octets would have to be for this field to
end inside it.  Numbers are written most significant octet first.
-/

namespace Overlay.Wire

/-- The next `n` octets of a message of `size` octets, and what follows them. -/
def readBlock (n size : Nat) (rest : Bytes) : Except CodecError (Block n × Bytes) :=
  if h : n ≤ rest.length then .ok (Block.take n rest h, rest.drop n)
  else .error (.tooShort (size - rest.length + n) size)

def readOctet (size : Nat) : Bytes → Except CodecError (UInt8 × Bytes)
  | [] => .error (.tooShort (size + 1) size)
  | b :: rest => .ok (b, rest)

def readUInt16 (size : Nat) (rest : Bytes) : Except CodecError (UInt16 × Bytes) := do
  let (b, rest) ← readBlock 2 size rest
  return (UInt16.ofNat (ofBigEndian b.toBytes), rest)

def readUInt32 (size : Nat) (rest : Bytes) : Except CodecError (UInt32 × Bytes) := do
  let (b, rest) ← readBlock 4 size rest
  return (UInt32.ofNat (ofBigEndian b.toBytes), rest)

def readUInt64 (size : Nat) (rest : Bytes) : Except CodecError (UInt64 × Bytes) := do
  let (b, rest) ← readBlock 8 size rest
  return (UInt64.ofNat (ofBigEndian b.toBytes), rest)

/-- A block that stands at the front is read back, and nothing behind it is touched. -/
theorem readBlock_append {n : Nat} (size : Nat) (b : Block n) (rest : Bytes) :
    readBlock n size (b.toBytes ++ rest) = .ok (b, rest) := by
  have hb := b.length_toBytes
  have h : n ≤ (b.toBytes ++ rest).length := by rw [List.length_append]; omega
  have ht : (b.toBytes ++ rest).take n = b.toBytes := List.take_left' hb
  have hd : (b.toBytes ++ rest).drop n = rest := List.drop_left' hb
  unfold readBlock
  rw [dif_pos h, hd]
  refine congrArg (fun x => Except.ok (x, rest)) (Block.toBytes_injective ?_)
  rw [Block.take, Block.toBytes_ofBytes, ht]

/-- Reading a block cuts the rest in two. -/
theorem readBlock_ok {n size : Nat} {rest rest' : Bytes} {b : Block n}
    (h : readBlock n size rest = .ok (b, rest')) : rest = b.toBytes ++ rest' := by
  unfold readBlock at h
  split at h
  · cases h
    rw [Block.take, Block.toBytes_ofBytes, List.take_append_drop]
  · cases h

end Overlay.Wire
