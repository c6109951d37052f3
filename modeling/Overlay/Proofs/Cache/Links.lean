import Mathlib.Data.List.Perm.Subperm
import Overlay.Proofs.Cache.Recency

/-!
# The links of a cache

The order of recency is held in links between the slots.  `Arranged c order` says that the links spell
the list `order` in both directions and that both ends of it are known.  Linking a slot in puts it in
front of that list (`Arranged.pushFront`), unlinking a slot takes it out (`Arranged.unlink`), and using a
slot brings it to the front (`Arranged.moveToFront`).  None of the three changes what the slots hold
(`Relinked`).
-/

namespace Overlay

universe u v

variable {κ : Type u} {ν : Type v}

def CacheEntry.item (e : CacheEntry κ ν) : Item κ ν := ⟨e.key, e.value, e.touchedAt⟩

@[simp] theorem CacheEntry.item_key (e : CacheEntry κ ν) : e.item.key = e.key := rfl
@[simp] theorem CacheEntry.item_value (e : CacheEntry κ ν) : e.item.value = e.value := rfl
@[simp] theorem CacheEntry.item_touchedAt (e : CacheEntry κ ν) : e.item.touchedAt = e.touchedAt := rfl

namespace Cache

variable {c d : Cache κ ν} {s x : Nat}

def contentAt (c : Cache κ ν) (s : Nat) : Option (Item κ ν) := (c.entryAt s).map CacheEntry.item

theorem contentAt_eq_some {i : Item κ ν} :
    c.contentAt s = some i ↔ ∃ e, c.entryAt s = some e ∧ e.item = i := by
  simp [contentAt]

/-! ### Changing one slot -/

theorem entryAt_changeAt (c : Cache κ ν) (s x : Nat) (f : CacheEntry κ ν → CacheEntry κ ν) :
    (c.changeAt s f).entryAt x = if s = x then (c.entryAt x).map f else c.entryAt x := by
  simp only [entryAt, changeAt, List.getElem?_modify]
  by_cases h : s = x
  · subst h
    cases hx : c.slots[s]? with
    | none => simp
    | some o => simp
  · simp [h]

theorem lt_length_of_entryAt {e : CacheEntry κ ν} (h : c.entryAt s = some e) : s < c.slots.length := by
  rw [entryAt, Option.join_eq_some_iff] at h
  exact (List.getElem?_eq_some_iff.1 h).1

theorem entryAt_changeAt? (c : Cache κ ν) (o : Option Nat) (x : Nat)
    (f : CacheEntry κ ν → CacheEntry κ ν) :
    (c.changeAt? o f).entryAt x = if o = some x then (c.entryAt x).map f else c.entryAt x := by
  cases o with
  | none => simp [changeAt?]
  | some s => simp only [changeAt?, entryAt_changeAt, Option.some.injEq]

theorem entryAt_pushFront (c : Cache κ ν) (s x : Nat) :
    (c.pushFront s).entryAt x = (c.entryAt x).map fun y =>
      { y with
        newer := if c.newest = some x then some s else if s = x then none else y.newer
        older := if s = x then c.newest else y.older } := by
  have hx : (c.pushFront s).entryAt x = ((c.changeAt s fun y =>
      { y with newer := none, older := c.newest }).changeAt? c.newest fun y =>
      { y with newer := some s }).entryAt x := rfl
  rw [hx, entryAt_changeAt?, entryAt_changeAt]
  cases c.entryAt x with
  | none => simp
  | some y => by_cases h : s = x <;> by_cases hn : c.newest = some x <;> simp [h, hn]

theorem entryAt_unlink {e : CacheEntry κ ν} (he : c.entryAt s = some e) (x : Nat) :
    (c.unlink s).entryAt x = (c.entryAt x).map fun y =>
      { y with
        newer := if s = x then none else if e.older = some x then e.newer else y.newer
        older := if s = x then none else if e.newer = some x then e.older else y.older } := by
  unfold unlink
  rw [he]
  obtain ⟨k, v, t, newer, older⟩ := e
  have hend : ∀ (d : Cache κ ν) (n o : Option Nat),
      entryAt { d with newest := n, oldest := o } x = d.entryAt x := fun _ _ _ => rfl
  cases hx : c.entryAt x with
  | none => cases newer <;> cases older <;> simp [entryAt_changeAt, hend, hx]
  | some y =>
    cases newer with
    | none =>
      cases older with
      | none => by_cases h : s = x <;> simp [entryAt_changeAt, hend, hx, h]
      | some o =>
        by_cases h : s = x <;> by_cases ho : o = x <;> simp [entryAt_changeAt, hend, hx, h, ho]
    | some n =>
      cases older with
      | none =>
        by_cases h : s = x <;> by_cases hn : n = x <;> simp [entryAt_changeAt, hend, hx, h, hn]
      | some o =>
        by_cases h : s = x <;> by_cases hn : n = x <;> by_cases ho : o = x <;>
          simp [entryAt_changeAt, hx, h, hn, ho]

/-! ### Changes of links alone -/

/-- Two caches that differ in their links at most. -/
structure Relinked (c d : Cache κ ν) : Prop where
  content : ∀ x, d.contentAt x = c.contentAt x
  length : d.slots.length = c.slots.length
  free : d.free = c.free
  index : d.index = c.index
  policy : d.policy = c.policy
  ttl : d.ttl = c.ttl
  maxSize : d.maxSize = c.maxSize

theorem Relinked.trans {c d e : Cache κ ν} (h : Relinked c d) (g : Relinked d e) : Relinked c e :=
  ⟨fun x => (g.content x).trans (h.content x), g.length.trans h.length, g.free.trans h.free,
    g.index.trans h.index, g.policy.trans h.policy, g.ttl.trans h.ttl, g.maxSize.trans h.maxSize⟩

theorem relinked_pushFront (c : Cache κ ν) (s : Nat) : Relinked c (c.pushFront s) := by
  refine ⟨fun x => ?_, ?_, ?_, ?_, ?_, ?_, ?_⟩
  · rw [contentAt, entryAt_pushFront, contentAt, Option.map_map]
    rfl
  all_goals unfold pushFront; cases c.newest <;> simp [changeAt?, changeAt]

theorem relinked_unlink (c : Cache κ ν) (s : Nat) : Relinked c (c.unlink s) := by
  cases he : c.entryAt s with
  | none =>
    have hu : c.unlink s = c := by rw [unlink, he]
    rw [hu]
    exact ⟨fun _ => rfl, rfl, rfl, rfl, rfl, rfl, rfl⟩
  | some e =>
    refine ⟨fun x => ?_, ?_, ?_, ?_, ?_, ?_, ?_⟩
    · rw [contentAt, entryAt_unlink he, contentAt, Option.map_map]
      rfl
    all_goals
      obtain ⟨k, v, t, newer, older⟩ := e
      unfold unlink
      rw [he]
      cases newer <;> cases older <;> simp [changeAt]

theorem relinked_moveToFront (c : Cache κ ν) (s : Nat) : Relinked c (c.moveToFront s) :=
  (relinked_unlink c s).trans (relinked_pushFront _ s)

/-! ### The list that the links spell -/

/-- An element of two lists laid end to end stands in the second or in the first. -/
theorem eq_append_of_append_eq {α : Type u} {l₁ l₂ m₁ m₂ : List α} {x : α}
    (h : l₁ ++ l₂ = m₁ ++ x :: m₂) :
    (∃ k, m₁ = l₁ ++ k ∧ l₂ = k ++ x :: m₂) ∨ ∃ k, l₁ = m₁ ++ x :: k ∧ m₂ = k ++ l₂ := by
  rcases List.append_eq_append_iff.1 h with ⟨k, h₁, h₂⟩ | ⟨k, h₁, h₂⟩
  · exact Or.inl ⟨k, h₁, h₂⟩
  · cases k with
    | nil => exact Or.inl ⟨[], by simpa using h₁.symm, by simpa using h₂.symm⟩
    | cons a k =>
      obtain ⟨rfl, rfl⟩ := List.cons.inj h₂
      exact Or.inr ⟨k, h₁, rfl⟩

/-- The links of a cache spell a list of slots, most recently used first. -/
structure Arranged (c : Cache κ ν) (order : List Nat) : Prop where
  nodup : order.Nodup
  linked : ∀ l₁ s l₂, order = l₁ ++ s :: l₂ →
    ∃ e, c.entryAt s = some e ∧ e.newer = l₁.getLast? ∧ e.older = l₂.head?
  newest : c.newest = order.head?
  oldest : c.oldest = order.getLast?

namespace Arranged

variable {order l₁ l₂ : List Nat}

theorem entry_of_mem (h : Arranged c order) (hx : x ∈ order) : ∃ e, c.entryAt x = some e := by
  obtain ⟨l₁, l₂, rfl⟩ := List.append_of_mem hx
  obtain ⟨e, he, -, -⟩ := h.linked l₁ x l₂ rfl
  exact ⟨e, he⟩

theorem length_le (h : Arranged c order) : order.length ≤ c.slots.length := by
  have hsub : order ⊆ List.range c.slots.length := by
    intro x hx
    obtain ⟨e, he⟩ := h.entry_of_mem hx
    exact List.mem_range.2 (lt_length_of_entryAt he)
  have := (List.subperm_of_subset h.nodup hsub).length_le
  rwa [List.length_range] at this

theorem pushFront {e : CacheEntry κ ν} (h : Arranged c order) (hs : s ∉ order)
    (he : c.entryAt s = some e) : Arranged (c.pushFront s) (s :: order) := by
  refine ⟨List.nodup_cons.2 ⟨hs, h.nodup⟩, ?_, rfl, ?_⟩
  · intro l₁ x l₂ hl
    rw [entryAt_pushFront]
    cases l₁ with
    | nil =>
      obtain ⟨rfl, rfl⟩ := List.cons.inj hl
      have hn : c.newest ≠ some s := by
        rw [h.newest]
        exact fun hh => hs (List.mem_of_mem_head? hh)
      exact ⟨_, congrArg (Option.map _) he, by simp [hn], by simp [h.newest]⟩
    | cons a l₁ =>
      obtain ⟨rfl, rfl⟩ := List.cons.inj hl
      obtain ⟨y, hy, hnewer, holder⟩ := h.linked l₁ x l₂ rfl
      have hx : s ≠ x := fun hx => hs (by simp [hx])
      refine ⟨_, congrArg (Option.map _) hy, ?_, by simp [hx, holder]⟩
      cases l₁ with
      | nil => simp [h.newest]
      | cons b l₁ =>
        have hb : b ≠ x := by
          have := (List.nodup_cons.1 h.nodup).1
          exact fun hb => this (by simp [hb])
        simp [h.newest, hb, hx, hnewer]
  · have ho : (c.pushFront s).oldest = c.oldest.or (some s) := by
      rw [Cache.pushFront]
      cases c.newest <;> rfl
    rw [ho, h.oldest]
    cases order with
    | nil => rfl
    | cons a r => rw [List.getLast?_cons_cons, List.getLast?_cons]; rfl

theorem newest_unlink {e : CacheEntry κ ν} (he : c.entryAt s = some e) :
    (c.unlink s).newest = if e.newer.isNone then e.older else c.newest := by
  obtain ⟨k, v, t, newer, older⟩ := e
  rw [Cache.unlink, he]
  cases newer <;> cases older <;> rfl

theorem oldest_unlink {e : CacheEntry κ ν} (he : c.entryAt s = some e) :
    (c.unlink s).oldest = if e.older.isNone then e.newer else c.oldest := by
  obtain ⟨k, v, t, newer, older⟩ := e
  rw [Cache.unlink, he]
  cases newer <;> cases older <;> rfl

theorem unlink (h : Arranged c (l₁ ++ s :: l₂)) : Arranged (c.unlink s) (l₁ ++ l₂) := by
  obtain ⟨e, he, hnewer, holder⟩ := h.linked l₁ s l₂ rfl
  obtain ⟨hs, hnd⟩ := List.nodup_cons.1 (List.nodup_middle.1 h.nodup)
  have hdisj := (List.nodup_append.1 hnd).2.2
  refine ⟨hnd, ?_, ?_, ?_⟩
  · intro m₁ x m₂ hm
    rw [entryAt_unlink he, hnewer, holder]
    have hsx : s ≠ x := fun hx => hs (by rw [hm, hx]; simp)
    -- The slot `x` stood behind or before the one that leaves.
    rcases eq_append_of_append_eq hm with ⟨k, rfl, rfl⟩ | ⟨k, rfl, rfl⟩
    · obtain ⟨y, hy, hynewer, hyolder⟩ := h.linked (l₁ ++ s :: k) x m₂ (by simp)
      have hx : l₁.getLast? ≠ some x := fun hx =>
        hdisj x (List.mem_of_getLast? hx) x (by simp) rfl
      refine ⟨_, congrArg (Option.map _) hy, ?_, by simp [hsx, hx, hyolder]⟩
      cases k with
      | nil => simp [hsx]
      | cons b k =>
        have hb : b ≠ x := by
          rintro rfl
          have := (List.nodup_append.1 hnd).2.1
          exact (List.nodup_cons.1 this).1 (by simp)
        have hlast : (l₁ ++ s :: b :: k).getLast? = (l₁ ++ b :: k).getLast? := by
          rw [List.getLast?_append, List.getLast?_append, List.getLast?_cons_cons]
        simp only [hsx, hb, List.cons_append, List.head?_cons, Option.some.injEq, if_false, hynewer,
          hlast]
    · obtain ⟨y, hy, hynewer, hyolder⟩ := h.linked m₁ x (k ++ s :: l₂) (by simp)
      have hx : l₂.head? ≠ some x := fun hx =>
        hdisj x (by simp) x (List.mem_of_mem_head? hx) rfl
      refine ⟨_, congrArg (Option.map _) hy, by simp [hsx, hx, hynewer], ?_⟩
      cases k with
      | nil => simp [hsx]
      | cons b k =>
        have hlast : (m₁ ++ x :: b :: k).getLast? ≠ some x := by
          intro hl
          rw [List.getLast?_append, List.getLast?_cons_cons, List.getLast?_cons, Option.some_or] at hl
          have hmem : x ∈ b :: k := List.mem_of_getLast? (by rw [List.getLast?_cons]; exact hl)
          have := (List.nodup_append.1 (List.nodup_append.1 hnd).1).2.1
          exact (List.nodup_cons.1 this).1 hmem
        simp only [hsx, hlast, List.cons_append, List.head?_cons, if_false, hyolder]
  · rw [newest_unlink he, hnewer, holder, h.newest]
    cases l₁ with
    | nil => simp
    | cons a r => simp [List.getLast?_cons]
  · rw [oldest_unlink he, hnewer, holder, h.oldest]
    cases l₂ with
    | nil => simp
    | cons a r => simp [List.getLast?_append, List.getLast?_cons]

theorem moveToFront (h : Arranged c (l₁ ++ s :: l₂)) :
    Arranged (c.moveToFront s) (s :: (l₁ ++ l₂)) := by
  obtain ⟨e, he, -, -⟩ := h.linked l₁ s l₂ rfl
  have hs : s ∉ l₁ ++ l₂ := (List.nodup_cons.1 (List.nodup_middle.1 h.nodup)).1
  have he' := entryAt_unlink he s
  rw [he] at he'
  exact h.unlink.pushFront hs he'

end Arranged

end Cache

end Overlay
