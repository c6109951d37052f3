import Overlay.Proofs.Cache.Stored

/-!
# How large a cache grows

A cache with a bound keeps no more entries than the bound, and its arena has one slot more at most: an
insertion fills its slot before the least recently used entry leaves.  Slots are never given back, so the
bound on the arena rests on a count.  The slots in order and the free slots are all the slots there are
(`Laid.length_slots`), hence a new slot is made only while every slot is occupied.
-/

namespace Overlay

universe u v

namespace Recency

variable {κ : Type u} {ν : Type v} {r : Recency κ ν}

def Fits (r : Recency κ ν) : Prop := 0 < r.maxSize → r.items.length ≤ r.maxSize

theorem Fits.mono {s : Recency κ ν} (h : r.Fits) (hm : s.maxSize = r.maxSize)
    (hl : s.items.length ≤ r.items.length) : s.Fits := by
  intro hpos
  rw [hm] at hpos ⊢
  exact Nat.le_trans hl (h hpos)

theorem Fits.takeExpired (h : r.Fits) (now : Nat) : (r.takeExpired now).2.Fits :=
  h.mono rfl (List.length_filter_le _ _)

variable [DecidableEq κ] {k : κ}

theorem Fits.without (h : r.Fits) (k : κ) : (r.without k).Fits :=
  h.mono rfl (List.length_filter_le _ _)

theorem Fits.modify (h : r.Fits) (k : κ) (f : ν → ν) : (r.modify k f).Fits :=
  h.mono rfl (Nat.le_of_eq (List.length_map _))

theorem length_without {i : Item κ ν} (h : r.find? k = some i) :
    (r.without k).items.length < r.items.length := by
  apply List.length_filter_lt_length_iff_exists.2
  exact ⟨i, mem_of_find? h, by simp [key_of_find? h]⟩

theorem Fits.get (h : r.Fits) (k : κ) (now : Nat) : (r.get k now).2.Fits := by
  unfold Recency.get
  cases hf : r.find? k with
  | none => exact h
  | some i =>
    by_cases he : r.expired i now
    · simpa [he] using h.without k
    · simp only [he]
      exact h.mono rfl (Nat.succ_le_of_lt (length_without hf))

theorem Fits.insert (h : r.Fits) (k : κ) (v : ν) (now : Nat) : (r.insert k v now).list.Fits := by
  unfold Recency.insert
  cases hf : r.find? k with
  | some i => exact h.mono rfl (Nat.succ_le_of_lt (length_without hf))
  | none =>
    by_cases hm : 0 < r.maxSize ∧ r.maxSize < (⟨k, v, now⟩ :: r.items : List (Item κ ν)).length
    · simp only [hm, and_self, if_true]
      exact h.mono rfl (by simp)
    · simp only [hm, if_false]
      intro hpos
      exact Nat.le_of_not_lt fun hlt => hm ⟨hpos, hlt⟩

end Recency

namespace Cache

variable {κ : Type u} {ν : Type v} [DecidableEq κ] {c : Cache κ ν} {order : List Nat} {s now : Nat}

/-! ### Counting slots -/

theorem Laid.length_slots (h : Laid c order) : c.slots.length = order.length + c.free.length := by
  have hdisj : ∀ s ∈ order, ∀ x ∈ c.free, s ≠ x := by
    rintro s hs x hx rfl
    obtain ⟨e, he⟩ := h.arranged.entry_of_mem hs
    have := contentAt_eq_none.1 ((h.stocked.mem_free s).1 hx).2
    rw [he] at this
    cases this
  have hperm : (List.range c.slots.length).Perm (order ++ c.free) := by
    apply (List.perm_ext_iff_of_nodup List.nodup_range
      (List.nodup_append.2 ⟨h.arranged.nodup, h.stocked.free_nodup, hdisj⟩)).2
    intro s
    rw [List.mem_range, List.mem_append, h.stocked.mem_free]
    constructor
    · intro hs
      cases hi : c.contentAt s with
      | none => exact Or.inr ⟨hs, rfl⟩
      | some i => exact Or.inl (h.stocked.occupied s i hi)
    · rintro (hs | hs)
      · obtain ⟨e, he⟩ := h.arranged.entry_of_mem hs
        exact lt_length_of_entryAt he
      · exact hs.1
  rw [← List.length_append, ← hperm.length_eq, List.length_range]

omit [DecidableEq κ] in
theorem length_changeAt (c : Cache κ ν) (s : Nat) (f : CacheEntry κ ν → CacheEntry κ ν) :
    (c.changeAt s f).slots.length = c.slots.length := List.length_modify _ _ _

theorem length_removeAt (c : Cache κ ν) (s : Nat) :
    (c.removeAt s).2.slots.length = c.slots.length := by
  unfold removeAt
  cases c.entryAt s with
  | none => rfl
  | some e => exact List.length_set.trans (relinked_unlink c s).length

theorem length_removeAll (l : List Nat) (c : Cache κ ν) :
    (c.removeAll l).2.slots.length = c.slots.length := by
  induction l generalizing c with
  | nil => rfl
  | cons s l ih => exact (ih (c.removeAt s).2).trans (length_removeAt c s)

theorem length_get (c : Cache κ ν) (k : κ) (now : Nat) :
    (c.get k now).2.slots.length = c.slots.length := by
  have hm := fun s => (relinked_moveToFront c s).length
  fun_cases get c k now with
  | case1 => rfl
  | case2 => rfl
  | case3 s e => exact length_removeAt c s
  | case4 s e =>
    split
    · exact (length_changeAt _ s _).trans (hm s)
    · exact hm s

theorem length_modify (c : Cache κ ν) (k : κ) (f : ν → ν) :
    (c.modify k f).slots.length = c.slots.length := by
  unfold modify
  cases c.index.get? k with
  | none => rfl
  | some s => exact length_changeAt c s _

theorem length_remove (c : Cache κ ν) (k : κ) : (c.remove k).2.slots.length = c.slots.length := by
  unfold remove
  cases c.index.get? k with
  | none => rfl
  | some s => exact length_removeAt c s

theorem length_insert (c : Cache κ ν) (k : κ) (v : ν) (now : Nat) :
    (c.insert k v now).cache.slots.length = c.slots.length ∨
      c.free = [] ∧ (c.insert k v now).cache.slots.length = c.slots.length + 1 := by
  unfold insert
  cases c.index.get? k with
  | some s =>
    apply Or.inl
    exact (length_changeAt _ s _).trans
      ((length_changeAt _ s _).trans (relinked_moveToFront c s).length)
  | none =>
    generalize ho : c.occupy ⟨k, v, now, none, none⟩ = filled
    obtain ⟨s, d⟩ := filled
    generalize hq : (({ d with index := d.index.insert k s } : Cache κ ν).pushFront s) = q
    have hd : q.slots.length = d.slots.length := by
      rw [← hq]
      exact (relinked_pushFront _ s).length
    have hfill : d.slots.length = c.slots.length ∨ c.free = [] ∧ d.slots.length = c.slots.length + 1 := by
      unfold occupy at ho
      cases hf : c.free with
      | nil =>
        rw [hf] at ho
        cases ho
        exact Or.inr ⟨rfl, List.length_append⟩
      | cons x free =>
        rw [hf] at ho
        cases ho
        exact Or.inl List.length_set
    have hkeep : ∀ i : Insertion κ ν, i.cache.slots.length = q.slots.length →
        i.cache.slots.length = c.slots.length ∨
          c.free = [] ∧ i.cache.slots.length = c.slots.length + 1 := by
      intro i hi
      rw [hi, hd]
      exact hfill
    simp only [hq]
    split
    · cases q.oldest with
      | none => exact hkeep _ rfl
      | some o => exact hkeep _ (length_removeAt q o)
    · exact hkeep _ rfl

/-! ### The bound -/

/-- A cache with a bound keeps no more entries than that, in an arena of one slot more at most. -/
structure Bounded (c : Cache κ ν) : Prop where
  list : c.recency.Fits
  arena : 0 < c.maxSize → c.slots.length ≤ c.maxSize + 1

theorem Sound.size_eq (h : Sound c) : c.size = c.recency.items.length := by
  obtain ⟨order, h⟩ := h
  rw [size, h.stocked.size, length_items h]

omit [DecidableEq κ] in
theorem bounded_empty (policy : ExpiryPolicy) (ttl : Option Nat) (maxSize : Nat) :
    Bounded (empty policy ttl maxSize : Cache κ ν) :=
  ⟨fun _ => Nat.zero_le _, fun _ => Nat.zero_le _⟩

omit [DecidableEq κ] in
theorem maxSize_of_bounds {d : Cache κ ν} (h : d.bounds = c.bounds) : d.maxSize = c.maxSize :=
  congrArg (fun b => b.2.2) h

/-- An operation that makes no slot and lengthens no list keeps the bound. -/
theorem Bounded.mono {d : Cache κ ν} {r : Recency κ ν} (h : Bounded c) (hr : Reads d r) (hf : r.Fits)
    (hb : d.bounds = c.bounds) (hl : d.slots.length = c.slots.length) : Bounded d := by
  refine ⟨hr.recency ▸ hf, ?_⟩
  rw [maxSize_of_bounds hb, hl]
  exact h.arena

variable (h : Bounded c) (hs : Sound c)

include h hs

theorem Bounded.get (k : κ) (now : Nat) : Bounded (c.get k now).2 :=
  h.mono (get_refines hs k now).2 (h.list.get k now) (bounds_get hs k now) (length_get c k now)

theorem Bounded.modify (k : κ) (f : ν → ν) : Bounded (c.modify k f) :=
  h.mono (modify_refines hs k f) (h.list.modify k f) (bounds_modify hs k f) (length_modify c k f)

theorem Bounded.remove (k : κ) : Bounded (c.remove k).2 :=
  h.mono (remove_refines hs k).2 (h.list.without k) (bounds_remove hs k) (length_remove c k)

theorem Bounded.takeExpired (now : Nat) : Bounded (c.takeExpired now).2 :=
  h.mono (takeExpired_refines hs now).2 (h.list.takeExpired now) (bounds_takeExpired hs now)
    (length_removeAll _ c)

theorem Bounded.insert (k : κ) (v : ν) (now : Nat) : Bounded (c.insert k v now).cache := by
  refine ⟨(insert_refines hs k v now).2.recency ▸ h.list.insert k v now, ?_⟩
  rw [maxSize_of_bounds (bounds_insert hs k v now)]
  intro hpos
  rcases length_insert c k v now with hl | ⟨hfree, hl⟩
  · rw [hl]
    exact h.arena hpos
  · -- No slot was free, so there were as many slots as entries.
    obtain ⟨order, hlaid⟩ := hs
    have hsize : order.length ≤ c.maxSize := length_items hlaid ▸ h.list hpos
    have hcount := hlaid.length_slots
    rw [hfree, List.length_nil] at hcount
    omega

end Cache

end Overlay
