import Overlay.Crypto.Key

/-!
# Sources of randomness

Secrets and nonces are drawn from an `Entropy`: two endless sequences and how far each has been used.
Drawing one kind does not disturb the other.  `Entropy.seeded` is a reproducible source: each draw runs a
64-bit mixing generator from a start that depends on the seed, the length and the index of the draw.
-/

namespace Overlay

/-- Two sequences of random blocks and how many of each were drawn. -/
structure Entropy where
  secretAt : Nat → SecretKey
  nonceAt : Nat → Nonce
  secretsDrawn : Nat
  noncesDrawn : Nat

namespace Entropy

def drawSecret (e : Entropy) : SecretKey × Entropy :=
  (e.secretAt e.secretsDrawn, { e with secretsDrawn := e.secretsDrawn + 1 })

def drawNonce (e : Entropy) : Nonce × Entropy :=
  (e.nonceAt e.noncesDrawn, { e with noncesDrawn := e.noncesDrawn + 1 })

/-! ## A reproducible source -/

/-- The step between successive states of the generator. -/
def stride : UInt64 := 0x9E3779B97F4A7C15

def mix (x : UInt64) : UInt64 :=
  let z := (x ^^^ (x >>> 30)) * 0xBF58476D1CE4E5B9
  let z := (z ^^^ (z >>> 27)) * 0x94D049BB133111EB
  z ^^^ (z >>> 31)

/-- The generator's next `k` outputs, least significant octet first. -/
def stream : Nat → UInt64 → Bytes
  | 0, _ => []
  | k + 1, x => littleEndian 8 (mix (x + stride)).toNat ++ stream k (x + stride)

theorem length_stream (k : Nat) (x : UInt64) : (stream k x).length = 8 * k := by
  induction k generalizing x with
  | zero => rfl
  | succ k ih => simp only [stream, List.length_append, length_littleEndian, ih]; omega

def draw (seed : UInt64) (words : Nat) (index : Nat) : Block (8 * words) :=
  let start := seed ^^^ (UInt64.ofNat (8 * words) <<< 56) ^^^ (UInt64.ofNat index <<< 32)
  .ofBytes (stream words start) (length_stream words start)

def seeded (seed : UInt64) : Entropy :=
  ⟨fun k => ⟨draw seed 4 k⟩, draw seed 3, 0, 0⟩

end Entropy

end Overlay
