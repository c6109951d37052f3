/-!
# Parts of a text by their octets

A text is held as octets, and a part of it is cut out between two of them (`Text.slice?`).  There is no such part where
a cut would fall inside a character.  In a text of ASCII characters every character is one octet, so there the cuts
fall between characters (`slice?_of_ascii`).
-/

namespace Overlay.Text

/-- The part of a text from one octet to another, unless one of them lies inside a character or beyond the end. -/
def slice? (s : String) (i j : Nat) : Option String :=
  if h : (⟨i⟩ : String.Pos.Raw).IsValid s ∧ (⟨j⟩ : String.Pos.Raw).IsValid s ∧ i ≤ j
  then some (s.slice ⟨⟨i⟩, h.1⟩ ⟨⟨j⟩, h.2.1⟩ h.2.2).copy
  else none

def IsAscii (s : String) : Prop := ∀ c ∈ s.toList, c.toNat < 128

instance (s : String) : Decidable (IsAscii s) := inferInstanceAs (Decidable (∀ c ∈ s.toList, c.toNat < 128))

/-- What stands between two pieces of text is cut out at their ends. -/
theorem slice?_append (u v w : String) :
    slice? (u ++ v ++ w) u.utf8ByteSize (u.utf8ByteSize + v.utf8ByteSize) = some v := by
  have hstart : (⟨u.utf8ByteSize⟩ : String.Pos.Raw).IsValid (u ++ v ++ w) :=
    String.Pos.Raw.isValid_iff_exists_append.2 ⟨u, v ++ w, String.append_assoc, rfl⟩
  have hend : (⟨u.utf8ByteSize + v.utf8ByteSize⟩ : String.Pos.Raw).IsValid (u ++ v ++ w) :=
    String.Pos.Raw.isValid_iff_exists_append.2 ⟨u ++ v, w, rfl, by rw [String.rawEndPos, String.utf8ByteSize_append]⟩
  rw [slice?, dif_pos ⟨hstart, hend, Nat.le_add_right _ _⟩]
  have hcut : ∃ h, (String.slice (u ++ v ++ w) ⟨_, hstart⟩ ⟨_, hend⟩ h).copy = v :=
    String.copy_slice_eq_iff_splits.2
      ⟨u, w, ⟨String.append_assoc, rfl⟩, ⟨rfl, by rw [String.rawEndPos, String.utf8ByteSize_append]⟩⟩
  obtain ⟨_, hcopy⟩ := hcut
  rw [hcopy]

theorem utf8ByteSize_of_ascii {s : String} (h : IsAscii s) : s.utf8ByteSize = s.toList.length := by
  obtain ⟨l, rfl⟩ := s.exists_eq_ofList
  rw [IsAscii, String.toList_ofList] at h
  rw [String.toList_ofList]
  induction l with
  | nil => rfl
  | cons c l ih =>
    have hc : c.utf8Size = 1 := by
      have hlt : c.val.toNat < 128 := h c List.mem_cons_self
      rw [Char.utf8Size_eq_one_iff, UInt32.le_iff_toNat_le]
      exact Nat.le_of_lt_succ hlt
    rw [← List.singleton_append, String.ofList_append, String.utf8ByteSize_append,
      ih fun d hd => h d (List.mem_cons_of_mem c hd), List.length_append, List.length_singleton, ← hc]
    simp

theorem slice?_of_ascii {u v w : List Char} (h : IsAscii (String.ofList (u ++ v ++ w))) :
    slice? (String.ofList (u ++ v ++ w)) u.length (u.length + v.length) = some (String.ofList v) := by
  rw [IsAscii, String.toList_ofList] at h
  have hsize (l : List Char) (hl : ∀ c ∈ l, c ∈ u ++ v ++ w) : (String.ofList l).utf8ByteSize = l.length := by
    have hascii : IsAscii (String.ofList l) := by
      rw [IsAscii, String.toList_ofList]
      exact fun c hc => h c (hl c hc)
    rw [utf8ByteSize_of_ascii hascii, String.toList_ofList]
  have hu := hsize u fun c hc => List.mem_append_left w (List.mem_append_left v hc)
  have hv := hsize v fun c hc => List.mem_append_left w (List.mem_append_right u hc)
  rw [String.ofList_append, String.ofList_append, ← hu, ← hv]
  exact slice?_append _ _ _

end Overlay.Text
