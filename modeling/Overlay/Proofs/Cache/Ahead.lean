import Overlay.Proofs.Cache.Stored

/-!
# Who stays in a bounded cache

The keys that were used after a key was stand ahead of it in the order of recency (`Cache.ahead`).  Using
another key adds that one at most, so what stands ahead of a key is among the keys used since.  An insertion
into a bounded cache can cost a key its place only when all the others fill the cache: a key stays as long as
fewer others have been used since than the cache has room for (`stored_insert_of_few`).  While a key stays, nothing that
stood ahead of it falls behind (`ahead_subset_insert`).
-/

namespace Overlay

universe u v

namespace Recency

variable {κ : Type u} {ν : Type v} [DecidableEq κ] {r : Recency κ ν} {k x : κ} {i : Item κ ν} {v : ν}
  {now : Nat} {l : List (Item κ ν)}

/-- The keys in front of a key in a list. -/
def before (k : κ) : List (Item κ ν) → List κ
  | [] => []
  | i :: l => if i.key = k then [] else i.key :: before k l

/-- The keys used more recently than a key. -/
def ahead (r : Recency κ ν) (k : κ) : List κ := before k r.items

theorem before_filter {p : Item κ ν → Bool} {l : List (Item κ ν)} (hp : ∀ i ∈ l, i.key = k → p i = true) :
    before k (l.filter p) ⊆ before k l := by
  induction l with
  | nil => exact List.Subset.refl _
  | cons i l ih =>
    have hrest := ih fun j hj => hp j (List.mem_cons_of_mem _ hj)
    by_cases hi : i.key = k
    · simp [before, hp i List.mem_cons_self hi, hi]
    · by_cases hpi : p i = true
      · simp only [List.filter_cons, hpi, if_true, before, hi, if_false]
        exact List.cons_subset_cons _ hrest
      · simp only [List.filter_cons, hpi, before, hi, if_false]
        exact List.Subset.trans hrest (List.subset_cons_self _ _)

theorem mem_before_filter {p : Item κ ν → Bool} {l : List (Item κ ν)} (hp : ∀ i ∈ l, i.key = k → p i = true)
    (hx : x ∈ before k l) (hpx : ∀ i ∈ l, i.key = x → p i = true) : x ∈ before k (l.filter p) := by
  induction l with
  | nil => exact hx
  | cons i l ih =>
    by_cases hi : i.key = k
    · simp [before, hi] at hx
    · simp only [before, if_neg hi, List.mem_cons] at hx
      have hrest : x ∈ before k l → x ∈ before k (l.filter p) := fun h =>
        ih (fun j hj => hp j (List.mem_cons_of_mem _ hj)) h fun j hj => hpx j (List.mem_cons_of_mem _ hj)
      by_cases hpi : p i = true
      · simp only [List.filter_cons, hpi, if_true, before, if_neg hi, List.mem_cons]
        exact hx.imp_right hrest
      · rcases hx with rfl | hx
        · exact absurd (hpx i List.mem_cons_self rfl) hpi
        · simp only [List.filter_cons, hpi]
          exact hrest hx

theorem before_dropLast (k : κ) (l : List (Item κ ν)) : before k l.dropLast ⊆ before k l := by
  induction l with
  | nil => exact List.Subset.refl _
  | cons i l ih =>
    cases l with
    | nil => simp [before]
    | cons j l =>
      by_cases hi : i.key = k
      · simp [before, hi]
      · simp only [List.dropLast_cons_cons, before, hi, if_false]
        exact List.cons_subset_cons _ ih

theorem before_dropLast_eq {l : List (Item κ ν)} (hi : i ∈ l.dropLast) (hk : i.key = k) :
    before k l.dropLast = before k l := by
  induction l with
  | nil => rfl
  | cons j l ih =>
    cases l with
    | nil => exact absurd hi List.not_mem_nil
    | cons j' l =>
      rw [List.dropLast_cons_cons] at hi ⊢
      by_cases hj : j.key = k
      · simp [before, hj]
      · have hrest : i ∈ (j' :: l).dropLast := (List.mem_cons.1 hi).resolve_left fun h => hj (h ▸ hk)
        rw [before, before, if_neg hj, if_neg hj, ih hrest]

theorem notMem_before (k : κ) (l : List (Item κ ν)) : k ∉ before k l := by
  induction l with
  | nil => exact List.not_mem_nil
  | cons i l ih =>
    by_cases hi : i.key = k
    · simp [before, hi]
    · simp only [before, if_neg hi, List.mem_cons, not_or]
      exact ⟨Ne.symm hi, ih⟩

theorem before_subset (k : κ) (l : List (Item κ ν)) : before k l ⊆ l.map (·.key) := by
  induction l with
  | nil => exact List.Subset.refl _
  | cons i l ih =>
    by_cases hi : i.key = k
    · simp [before, hi]
    · simp only [before, if_neg hi, List.map_cons]
      exact List.cons_subset_cons _ ih

/-- Fewer keys are in front of a key in a list than the list is long. -/
theorem length_before_lt {l : List (Item κ ν)} (hi : i ∈ l) (hk : i.key = k) : (before k l).length < l.length := by
  induction l with
  | nil => exact absurd hi List.not_mem_nil
  | cons j l ih =>
    by_cases hj : j.key = k
    · simp [before, hj]
    · have hrest : i ∈ l := (List.mem_cons.1 hi).resolve_left fun h => hj (h ▸ hk)
      rw [before, if_neg hj, List.length_cons, List.length_cons]
      exact Nat.succ_lt_succ (ih hrest)

theorem before_concat (hi : i.key = k) (hl : ∀ j ∈ l, j.key ≠ k) :
    before k (l ++ [i]) = l.map (·.key) := by
  induction l with
  | nil => simp [before, hi]
  | cons j l ih =>
    have hj : j.key ≠ k := hl j List.mem_cons_self
    simp only [List.cons_append, before, hj, if_false, List.map_cons]
    rw [ih fun j hj => hl j (List.mem_cons_of_mem _ hj)]

/-! ### Operations -/

theorem ahead_without (hk : x ≠ k) (r : Recency κ ν) : (r.without x).ahead k ⊆ r.ahead k := by
  apply before_filter
  rintro i - hi
  simpa [hi] using Ne.symm hk

theorem ahead_get (hk : x ≠ k) (r : Recency κ ν) (now : Nat) :
    ∀ y ∈ (r.get x now).2.ahead k, (y = x ∧ (r.peek x now).isSome) ∨ y ∈ r.ahead k := by
  unfold get peek
  cases hf : r.find? x with
  | none => exact fun y hy => Or.inr hy
  | some i =>
    by_cases he : r.expired i now = true
    · simp only [he, if_true]
      exact fun y hy => Or.inr (ahead_without hk r hy)
    · have hi : (r.used i now).key = x := (used_key r i now).trans (key_of_find? hf)
      have hcons : before k (r.used i now :: (r.without x).items) = x :: (r.without x).ahead k := by
        rw [before, hi, if_neg hk, ahead]
      simp only [he]
      intro y hy
      rcases List.mem_cons.1 (hcons ▸ hy : y ∈ x :: (r.without x).ahead k) with rfl | hy
      · exact Or.inl ⟨rfl, by simp [he]⟩
      · exact Or.inr (ahead_without hk r hy)

theorem ahead_get_self (r : Recency κ ν) {v : ν} (h : r.peek k now = some v) :
    (r.get k now).2.ahead k = [] := by
  unfold peek at h
  unfold get
  cases hf : r.find? k with
  | none =>
    rw [hf] at h
    cases h
  | some i =>
    rw [hf, Option.bind_some] at h
    have he : ¬ r.expired i now = true := by
      intro he
      rw [if_pos he] at h
      cases h
    have hi : (r.used i now).key = k := (used_key r i now).trans (key_of_find? hf)
    simp only [he]
    rw [ahead]
    exact if_pos hi

theorem ahead_insert (hk : x ≠ k) (r : Recency κ ν) (v : ν) (now : Nat) :
    (r.insert x v now).list.ahead k ⊆ x :: r.ahead k := by
  have hcons : ∀ l : List (Item κ ν), before k (⟨x, v, now⟩ :: l) = x :: before k l := fun l => if_neg hk
  unfold insert
  cases r.find? x with
  | some i =>
    show before k (⟨x, v, now⟩ :: (r.without x).items) ⊆ _
    rw [hcons]
    exact List.cons_subset_cons _ (ahead_without hk r)
  | none =>
    simp only
    split
    · exact fun y hy => hcons r.items ▸ before_dropLast k _ hy
    · exact fun y hy => hcons r.items ▸ hy

theorem ahead_insert_self (r : Recency κ ν) (k : κ) (v : ν) (now : Nat) :
    (r.insert k v now).list.ahead k = [] := by
  have hcons : ∀ l : List (Item κ ν), before k (⟨k, v, now⟩ :: l) = [] := fun l => if_pos rfl
  unfold insert
  cases r.find? k with
  | some i => exact hcons _
  | none =>
    simp only
    split
    · exact List.subset_nil.1 fun y hy => hcons r.items ▸ before_dropLast k _ hy
    · exact hcons _

/-- The key of an insertion, and all that stood ahead of a key that stays, stand ahead of it. -/
theorem ahead_subset_insert (hk : x ≠ k) (hi : (r.insert x v now).list.find? k = some i) :
    x :: r.ahead k ⊆ (r.insert x v now).list.ahead k := by
  have hmem := mem_of_find? hi
  have hkey := key_of_find? hi
  have hcons : ∀ l : List (Item κ ν), before k (⟨x, v, now⟩ :: l) = x :: before k l := fun l => if_neg hk
  unfold insert at hmem ⊢
  cases hf : r.find? x with
  | some j =>
    show _ ⊆ before k (⟨x, v, now⟩ :: (r.without x).items)
    rw [hcons]
    intro y hy
    by_cases hyx : y = x
    · rw [hyx]
      exact List.mem_cons_self
    · refine List.mem_cons_of_mem _ (mem_before_filter ?_ ((List.mem_cons.1 hy).resolve_left hyx) ?_)
      · rintro j - rfl
        simpa using Ne.symm hk
      · rintro j - rfl
        simpa using hyx
  | none =>
    rw [hf] at hmem
    simp only at hmem ⊢
    split
    · rename_i hfull
      rw [if_pos hfull] at hmem
      show _ ⊆ before k (List.dropLast (⟨x, v, now⟩ :: r.items))
      rw [before_dropLast_eq hmem hkey, hcons]
      exact List.Subset.refl _
    · show _ ⊆ before k (⟨x, v, now⟩ :: r.items)
      rw [hcons]
      exact List.Subset.refl _

theorem evicted_insert {e : κ × ν} (h : (r.insert x v now).evicted = some e) :
    r.find? x = none ∧ 0 < r.maxSize ∧ r.maxSize ≤ r.items.length ∧
      ((⟨x, v, now⟩ :: r.items : List (Item κ ν)).getLast?.map fun i => (i.key, i.value)) = some e := by
  unfold insert at h
  cases hf : r.find? x with
  | some i =>
    rw [hf] at h
    cases h
  | none =>
    rw [hf] at h
    simp only at h
    split at h
    · rename_i hm
      exact ⟨rfl, hm.1, Nat.le_of_lt_succ hm.2, h⟩
    · cases h

/-- An item that leaves had all others ahead of it, and they filled the list with the new one. -/
theorem maxSize_le_of_evicted {e : κ × ν} (h : r.Distinct) (he : (r.insert x v now).evicted = some e)
    {few : List κ} (hx : x ∈ few) (hahead : r.ahead e.1 ⊆ few) :
    0 < r.maxSize ∧ r.maxSize ≤ few.length := by
  obtain ⟨hnone, hpos, hfull, hlast⟩ := evicted_insert he
  refine ⟨hpos, ?_⟩
  rcases List.eq_nil_or_concat r.items with hnil | ⟨l, last, hitems⟩
  · rw [hnil, List.length_nil] at hfull
    omega
  rw [List.concat_eq_append] at hitems
  rw [hitems, ← List.cons_append, List.getLast?_concat, Option.map_some, Option.some.injEq] at hlast
  have hkeys : (l.map (·.key) ++ [last.key]).Nodup := by
    have := h
    rw [Distinct, hitems] at this
    simpa using this
  have hbefore : r.ahead e.1 = l.map (·.key) := by
    rw [ahead, hitems, ← hlast]
    apply before_concat rfl
    intro y hy hyk
    exact (List.nodup_append.1 hkeys).2.2 y.key (List.mem_map_of_mem hy) last.key (by simp) hyk
  have hnodup : (x :: l.map (·.key)).Nodup := by
    refine List.nodup_cons.2 ⟨?_, (List.nodup_append.1 hkeys).1⟩
    intro hxl
    obtain ⟨y, hy, hyx⟩ := List.mem_map.1 hxl
    exact find?_eq_none.1 hnone y (by simp [hitems, hy]) hyx
  have hsub : x :: l.map (·.key) ⊆ few := List.cons_subset.2 ⟨hx, hbefore ▸ hahead⟩
  have hlength := (List.subperm_of_subset hnodup hsub).length_le
  rw [hitems, List.length_append, List.length_singleton] at hfull
  rw [List.length_cons, List.length_map] at hlength
  omega

/-- **A key stays while few others are used.**  An insertion leaves the item of another key alone if that key
and all that stand ahead are fewer than the list has room for. -/
theorem find?_insert_of_few (h : r.Distinct) (hf : r.find? k = some i) (hk : x ≠ k) {few : List κ}
    (hx : x ∈ few) (hahead : r.ahead k ⊆ few) (hfew : 0 < r.maxSize → few.length < r.maxSize) (v : ν)
    (now : Nat) : (r.insert x v now).list.find? k = some i := by
  rcases find?_insert h x v now with ⟨-, hnew⟩ | ⟨j, he, hj, hjx, hnew⟩
  · rw [hnew, if_neg (Ne.symm hk), hf]
  · have hkj : k ≠ j.key := by
      rintro rfl
      obtain ⟨hpos, hfull⟩ := maxSize_le_of_evicted h he hx hahead
      exact absurd (hfew hpos) (Nat.not_lt.2 hfull)
    rw [hnew, if_neg (Ne.symm hk), if_neg hkj, hf]

end Recency

namespace Cache

variable {κ : Type u} {ν : Type v} [DecidableEq κ] {c : Cache κ ν} {k x : κ} {i : Item κ ν} {v : ν}
  {now : Nat}

def ahead (c : Cache κ ν) (k : κ) : List κ := c.recency.ahead k

theorem notMem_ahead (c : Cache κ ν) (k : κ) : k ∉ c.ahead k := Recency.notMem_before k c.recency.items

theorem length_ahead_lt (hi : c.stored k = some i) : (c.ahead k).length < c.recency.items.length :=
  Recency.length_before_lt (Recency.mem_of_find? hi) (Recency.key_of_find? hi)

theorem ahead_get (h : Sound c) (hk : x ≠ k) (now : Nat) :
    ∀ y ∈ (c.get x now).2.ahead k, (y = x ∧ (c.peek x now).isSome) ∨ y ∈ c.ahead k := by
  rw [ahead, (get_refines h x now).2.recency, peek_eq h]
  exact Recency.ahead_get hk c.recency now

theorem ahead_get_self (h : Sound c) (hp : c.peek k now = some v) : (c.get k now).2.ahead k = [] := by
  rw [ahead, (get_refines h k now).2.recency]
  exact Recency.ahead_get_self c.recency (peek_eq h k now ▸ hp)

theorem ahead_remove (h : Sound c) (hk : x ≠ k) : (c.remove x).2.ahead k ⊆ c.ahead k := by
  rw [ahead, (remove_refines h x).2.recency]
  exact Recency.ahead_without hk c.recency

theorem ahead_insert (h : Sound c) (hk : x ≠ k) (v : ν) (now : Nat) :
    (c.insert x v now).cache.ahead k ⊆ x :: c.ahead k := by
  rw [ahead, (insert_refines h x v now).2.recency]
  exact Recency.ahead_insert hk c.recency v now

theorem ahead_insert_self (h : Sound c) (k : κ) (v : ν) (now : Nat) :
    (c.insert k v now).cache.ahead k = [] := by
  rw [ahead, (insert_refines h k v now).2.recency]
  exact Recency.ahead_insert_self c.recency k v now

theorem ahead_subset_insert (h : Sound c) (hk : x ≠ k) (hi : (c.insert x v now).cache.stored k = some i) :
    x :: c.ahead k ⊆ (c.insert x v now).cache.ahead k := by
  rw [(insert_refines h x v now).2.stored] at hi
  rw [ahead, ahead, (insert_refines h x v now).2.recency]
  exact Recency.ahead_subset_insert hk hi

theorem stored_of_mem (h : Sound c) {j : Item κ ν} (hj : j ∈ c.recency.items) : c.stored j.key = some j :=
  (distinct_recency h).find?_eq_some.2 ⟨hj, rfl⟩

/-- A sweep that leaves a key leaves what stands ahead of it, as far as that has not expired. -/
theorem mem_ahead_takeExpired (h : Sound c) (hi : c.stored k = some i) (hkeep : c.overdue i now = false) {y : κ} :
    y ∈ (c.takeExpired now).2.ahead k ↔ y ∈ c.ahead k ∧ ∀ j, c.stored y = some j → c.overdue j now = false := by
  have hstays : ∀ j ∈ c.recency.items, j.key = k → (!c.recency.expired j now) = true := by
    intro j hj hjk
    have hsame := stored_of_mem h hj
    rw [hjk, hi, Option.some.injEq] at hsame
    rw [← hsame]
    simpa [overdue] using hkeep
  rw [ahead, ahead, (takeExpired_refines h now).2.recency]
  constructor
  · intro hy
    refine ⟨Recency.before_filter hstays hy, fun j hj => ?_⟩
    obtain ⟨j', hj', rfl⟩ := List.mem_map.1 (Recency.before_subset k _ hy)
    obtain ⟨hj', hfresh⟩ := List.mem_filter.1 hj'
    rw [stored_of_mem h hj', Option.some.injEq] at hj
    rw [← hj]
    simpa [overdue] using hfresh
  · rintro ⟨hy, hfresh⟩
    refine Recency.mem_before_filter hstays hy fun j hj hjy => ?_
    have hkept := hfresh j (hjy ▸ stored_of_mem h hj)
    simpa [overdue] using hkept

/-- A key stays stored through an insertion while few others are used. -/
theorem stored_insert_of_few (h : Sound c) (hi : c.stored k = some i) (hk : x ≠ k) {few : List κ}
    (hx : x ∈ few) (hahead : c.ahead k ⊆ few) (hfew : 0 < c.maxSize → few.length < c.maxSize) (v : ν)
    (now : Nat) : (c.insert x v now).cache.stored k = some i := by
  rw [(insert_refines h x v now).2.stored]
  exact Recency.find?_insert_of_few (distinct_recency h) hi hk hx hahead hfew v now

end Cache

end Overlay
