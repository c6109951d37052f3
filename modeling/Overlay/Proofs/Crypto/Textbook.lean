import Mathlib.Data.Nat.Prime.Basic
import Mathlib.Tactic.NormNum.Prime
import Overlay.Entropy
import Overlay.Proofs.Crypto.Suite

/-!
# A suite from the textbook

The laws of suites are consistent: here is a suite that has them all.  Keys are exchanged as in the textbook,
with powers of 3 modulo the prime 65537, and a message is sealed in the open, behind the key, the nonce and the
data that it is bound to.  It keeps nothing secret, but whatever the laws say of conversations can be tried
with it.
-/

namespace Overlay

namespace Textbook

def modulus : Nat := 65537

theorem prime_modulus : Nat.Prime modulus := by
  unfold modulus
  norm_num

def remainder (n : Nat) : Block 32 :=
  ⟨n % modulus, Nat.lt_of_lt_of_le (Nat.mod_lt _ (by decide)) (by decide : modulus ≤ 256 ^ 32)⟩

/-- A digest: the number that the octets spell, modulo the largest prime of 32 octets. -/
def digest (b : Bytes) : Block 32 :=
  ⟨ofBigEndian b % (256 ^ 32 - 189), Nat.lt_of_lt_of_le (Nat.mod_lt _ (by decide)) (Nat.sub_le _ _)⟩

/-- What a message is bound to: the key, the nonce, and the data with its length in unary. -/
def header (k : SessionKey) (n : Nonce) (d : Bytes) : Bytes :=
  k.block.toBytes ++ (n.toBytes ++ (List.replicate d.length 1 ++ 0 :: d))

def suite : Suite where
  publicOf s := ⟨remainder (3 ^ s.block.toNat)⟩
  shared s p := remainder (p.block.toNat ^ s.block.toNat)
  digest := digest
  expand secret context := (digest (1 :: secret.toBytes ++ context), digest (2 :: secret.toBytes ++ context))
  encrypt k n d p := some (header k n d ++ p)
  decrypt k n d c :=
    if c.take (header k n d).length = header k n d then some (c.drop (header k n d).length) else none

/-- A source that counts: secrets from a number on, and nonces from zero. -/
def counting (first : Nat) : Entropy :=
  ⟨fun i => ⟨remainder (first + i)⟩, Block.ofBE 24, 0, 0⟩

theorem suite_commutes : suite.Commutes := by
  intro a b
  have hpow : ∀ x y : Nat, (3 ^ y % modulus) ^ x % modulus = 3 ^ (x * y) % modulus := by
    intro x y
    rw [← Nat.pow_mod, ← Nat.pow_mul, Nat.mul_comm y x]
  apply Block.ext
  show (3 ^ b.block.toNat % modulus) ^ a.block.toNat % modulus =
    (3 ^ a.block.toNat % modulus) ^ b.block.toNat % modulus
  rw [hpow, hpow, Nat.mul_comm]

theorem suite_contributes : suite.Contributes := by
  intro a b h
  have hzero : (3 ^ b.block.toNat % modulus) ^ a.block.toNat % modulus = 0 := congrArg Block.toNat h
  rw [← Nat.pow_mod, ← Nat.pow_mul] at hzero
  have hthree : modulus ∣ 3 := prime_modulus.dvd_of_dvd_pow (Nat.dvd_of_mod_eq_zero hzero)
  exact absurd hthree (by decide)

theorem suite_seals : suite.Seals := fun k n d p _ => ⟨header k n d ++ p, rfl⟩

theorem decrypt_eq_some {k : SessionKey} {n : Nonce} {d c p : Bytes} :
    suite.decrypt k n d c = some p ↔ c = header k n d ++ p := by
  have hd : suite.decrypt k n d c = if c.take (header k n d).length = header k n d then
      some (c.drop (header k n d).length) else none := rfl
  rw [hd]
  constructor
  · intro h
    split at h
    · rename_i htake
      cases h
      have hsplit := List.take_append_drop (header k n d).length c
      rw [htake] at hsplit
      exact hsplit.symm
    · cases h
  · rintro rfl
    rw [List.take_left' rfl, if_pos rfl, List.drop_left' rfl]

theorem suite_opens : suite.Opens := by
  intro k n d p c h
  rw [decrypt_eq_some]
  exact (Option.some.inj h).symm

theorem suite_tags : suite.Tags := by
  intro k n d p c h
  cases h
  simp only [header, List.length_append, Block.length_toBytes]
  omega

theorem unary_injective {m m' : Nat} {x y : Bytes}
    (h : List.replicate m 1 ++ 0 :: x = List.replicate m' 1 ++ 0 :: y) : m = m' ∧ x = y := by
  induction m generalizing m' with
  | zero =>
    cases m' with
    | zero => exact ⟨rfl, (List.cons.inj h).2⟩
    | succ m' => exact absurd (List.cons.inj h).1 (by decide)
  | succ m ih =>
    cases m' with
    | zero => exact absurd (List.cons.inj h).1 (by decide)
    | succ m' =>
      obtain ⟨hm, hx⟩ := ih (List.cons.inj h).2
      exact ⟨congrArg (· + 1) hm, hx⟩

theorem header_injective {k k' : SessionKey} {n n' : Nonce} {d d' p p' : Bytes}
    (h : header k n d ++ p = header k' n' d' ++ p') : k = k' ∧ n = n' ∧ d = d' ∧ p = p' := by
  unfold header at h
  simp only [List.append_assoc, List.cons_append] at h
  obtain ⟨hk, h⟩ := List.append_inj h (by rw [Block.length_toBytes, Block.length_toBytes])
  obtain ⟨hn, h⟩ := List.append_inj h (by rw [Block.length_toBytes, Block.length_toBytes])
  obtain ⟨hlength, h⟩ := unary_injective h
  obtain ⟨hd, hp⟩ := List.append_inj h hlength
  exact ⟨SessionKey.ext (Block.toBytes_injective hk), Block.toBytes_injective hn, hd, hp⟩

theorem suite_binds : suite.Binds := by
  intro k k' n n' d d' p p' c henc hdec
  rw [decrypt_eq_some, ← Option.some.inj henc] at hdec
  obtain ⟨hk, hn, hd, hp⟩ := header_injective hdec
  exact ⟨hk.symm, hn.symm, hd.symm, hp.symm⟩

end Textbook

end Overlay
