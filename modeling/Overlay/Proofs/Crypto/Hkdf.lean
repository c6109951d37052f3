import Overlay.Crypto.Hkdf

/-!
# Key material of any length

Key material is made of digests, each of them the keyed hash of the digest before it, the context and its number
(`expansion`), as many as are needed; what is too much of the last one is left out (`keyMaterial`).  The two blocks that
`hkdf` gives are 64 octets of such key material, one half each (`hkdf_halves`).
-/

namespace Overlay.Crypto

/-- The digest of the given number, counted from one; there is nothing before the first one. -/
def expansion (root context : Bytes) : Nat → Bytes
  | 0 => []
  | i + 1 => (hmac root (expansion root context i ++ context ++ [UInt8.ofNat (i + 1)])).toBytes

def keyMaterial (secret : Block 32) (context : Bytes) (n : Nat) : Bytes :=
  let root := (hmac (List.replicate 32 0) secret.toBytes).toBytes
  ((List.range ((n + 31) / 32)).flatMap fun i => expansion root context (i + 1)).take n

theorem length_expansion (root context : Bytes) (i : Nat) : (expansion root context (i + 1)).length = 32 :=
  Block.length_toBytes _

/-- Two blocks of key material are the two halves of what one expansion to 64 octets gives. -/
theorem hkdf_halves (secret : Block 32) (context : Bytes) :
    (hkdf secret context).1.toBytes ++ (hkdf secret context).2.toBytes = keyMaterial secret context 64 := by
  have hcount : List.range ((64 + 31) / 32) = [0, 1] := by decide
  rw [keyMaterial, hcount]
  simp only [List.flatMap_cons, List.flatMap_nil, List.append_nil]
  rw [List.take_of_length_le]
  · rfl
  · simp only [List.length_append, length_expansion, Nat.reduceAdd, Nat.le_refl]

end Overlay.Crypto
