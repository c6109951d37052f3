import Mathlib.Data.Sym.Sym2
import Overlay.Crypto.Key

/-!
# Two keys in their order

What two owners of keys have in common is derived from both public keys in their order, so it is a function of
the unordered pair (`PublicKey.orderedPair`), and the pair can be told from it (`orderedPair_injective`).  So can it
from the two keys written one after the other (`joined_inj`), which is what the name of an agreement is the digest of.
-/

namespace Overlay.PublicKey

def orderedPair : Sym2 PublicKey → PublicKey × PublicKey := Sym2.lift ⟨ordered, ordered_swap⟩

variable {a b c d : PublicKey}

theorem mk_ordered (a b : PublicKey) : s((ordered a b).1, (ordered a b).2) = s(a, b) := by
  unfold ordered
  split
  · exact Sym2.eq_swap
  · rfl

theorem orderedPair_injective : Function.Injective orderedPair := by
  intro p q h
  induction p with | _ a b
  induction q with | _ a' b'
  rw [← mk_ordered a b, ← mk_ordered a' b']
  exact congrArg (fun k : PublicKey × PublicKey => s(k.1, k.2)) h

/-- Two keys one after the other, the lower one first. -/
def joined (a b : PublicKey) : Bytes := (ordered a b).1.toBytes ++ (ordered a b).2.toBytes

theorem length_joined (a b : PublicKey) : (joined a b).length = 64 := by
  rw [joined, List.length_append, toBytes, toBytes, Block.length_toBytes, Block.length_toBytes]

theorem joined_comm (a b : PublicKey) : joined a b = joined b a := by
  rw [joined, joined, ordered_swap]

/-- Joined keys tell which two keys they are, and nothing more. -/
theorem joined_inj : joined a b = joined c d ↔ s(a, b) = s(c, d) := by
  constructor
  · intro h
    obtain ⟨hlower, hhigher⟩ := List.append_inj h ((Block.length_toBytes _).trans (Block.length_toBytes _).symm)
    have hlower' : (ordered a b).1 = (ordered c d).1 := PublicKey.ext (Block.toBytes_injective hlower)
    have hhigher' : (ordered a b).2 = (ordered c d).2 := PublicKey.ext (Block.toBytes_injective hhigher)
    rw [← mk_ordered a b, ← mk_ordered c d, hlower', hhigher']
  · intro h
    rcases Sym2.eq_iff.1 h with ⟨rfl, rfl⟩ | ⟨rfl, rfl⟩
    · rfl
    · exact joined_comm a b

end Overlay.PublicKey
