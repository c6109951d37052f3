import Overlay.Bytes

/-!
# Hexadecimal digits

A hexadecimal digit has a value below 16, and the digit that is written for this value is its lower case
(`lower_of_digitValue?`).  So an octet is spelled by two digits (`Text.spelling`), and no two octets are spelled alike.
-/

namespace Overlay

variable {c : Char} {d : Nat}

theorem digitValue?_hexDigit (h : d < 16) : digitValue? (hexDigit d) = some d := by
  revert d
  decide

theorem isHexDigit_iff : c.isHexDigit = true ↔ ∃ d, digitValue? c = some d := by
  have hle (a b : Char) : a ≤ b ↔ a.val ≤ b.val := Iff.rfl
  unfold digitValue? Char.isHexDigit Char.isDigit
  simp only [hle, Bool.or_eq_true, Bool.and_eq_true, decide_eq_true_eq, ge_iff_le]
  split
  · simp_all
  split
  · simp_all
  split <;> simp_all

theorem toNat_of_digitValue? (h : digitValue? c = some d) : c.toNat < 128 := by
  have hle (a b : Char) : a ≤ b → a.toNat ≤ b.toNat := fun hab => hab
  unfold digitValue? at h
  split at h
  · rename_i hc
    exact Nat.lt_of_le_of_lt (hle _ _ hc.2) (by decide)
  split at h
  · rename_i hc
    exact Nat.lt_of_le_of_lt (hle _ _ hc.2) (by decide)
  split at h
  · rename_i hc
    exact Nat.lt_of_le_of_lt (hle _ _ hc.2) (by decide)
  · cases h

theorem lower_of_digitValue? (h : digitValue? c = some d) : d < 16 ∧ hexDigit d = c.toLower := by
  have hall : ∀ n < 128, (digitValue? (Char.ofNat n)).all
      (fun d => d < 16 ∧ hexDigit d = (Char.ofNat n).toLower) = true := by decide
  have hc := hall c.toNat (toNat_of_digitValue? h)
  rw [Char.ofNat_toNat, h] at hc
  exact of_decide_eq_true hc

namespace Text

def spelling (x : UInt8) : List Char := [hexDigit (x.toNat / 16), hexDigit (x.toNat % 16)]

theorem hex_eq (b : Bytes) : hex b = String.ofList (b.flatMap spelling) := rfl

theorem length_flatMap_spelling (b : Bytes) : (b.flatMap spelling).length = 2 * b.length := by
  induction b with
  | nil => rfl
  | cons x b ih =>
    rw [List.flatMap_cons, List.length_append, ih, spelling, List.length_cons, List.length_singleton, List.length_cons]
    omega

theorem spelling_ofNat {d e : Nat} (hd : d < 16) (he : e < 16) :
    spelling (UInt8.ofNat (16 * d + e)) = [hexDigit d, hexDigit e] := by
  have hfits : (UInt8.ofNat (16 * d + e)).toNat = 16 * d + e := by
    rw [UInt8.toNat_ofNat']
    omega
  have hhigh : (16 * d + e) / 16 = d := by omega
  have hlow : (16 * d + e) % 16 = e := by omega
  rw [spelling, hfits, hhigh, hlow]

theorem spelling_injective : Function.Injective spelling := by
  intro x y h
  have hx := x.toNat_lt
  have hy := y.toNat_lt
  obtain ⟨hhigh, hrest⟩ := List.cons.inj h
  obtain ⟨hlow, -⟩ := List.cons.inj hrest
  have hhigh' := congrArg digitValue? hhigh
  have hlow' := congrArg digitValue? hlow
  rw [digitValue?_hexDigit (by omega), digitValue?_hexDigit (by omega), Option.some.injEq] at hhigh'
  rw [digitValue?_hexDigit (by omega), digitValue?_hexDigit (by omega), Option.some.injEq] at hlow'
  exact UInt8.toNat_inj.1 (by omega)

end Text

end Overlay
