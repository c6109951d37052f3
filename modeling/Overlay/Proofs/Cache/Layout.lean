import Overlay.Proofs.Cache.Links

/-!
# The layout of a cache

The parts of a cache agree when the links spell the occupied slots in some order, the index names for
each stored key the slot that holds it, and the free slots are the empty ones (`Laid`).  Such a cache can
be read as a list (`Cache.recency`), in which the index finds what the list finds (`find?_recency`).

The steps that operations are made of keep the layout, and each does something simple to the list: an
entry that is used comes to the front (`Laid.use`), a slot that is emptied loses its item
(`Laid.removeAt`), and a slot that is filled has a new item in front (`Laid.fill`).
-/

namespace Overlay

universe u v

namespace Cache

variable {κ : Type u} {ν : Type v} {c d : Cache κ ν} {order : List Nat} {k : κ} {s x now : Nat}

/-- A cache as a list. -/
def recency (c : Cache κ ν) : Recency κ ν :=
  ⟨c.entries.map CacheEntry.item, c.policy, c.ttl, c.maxSize⟩

theorem chain_head? (h : Arranged c order) :
    ∀ (l₂ l₁ : List Nat) (n : Nat), order = l₁ ++ l₂ → l₂.length ≤ n →
      c.chain n l₂.head? = l₂.filterMap c.entryAt := by
  intro l₂
  induction l₂ with
  | nil =>
    intro l₁ n _ _
    cases n <;> rfl
  | cons s r ih =>
    intro l₁ n hl hn
    cases n with
    | zero => simp at hn
    | succ n =>
      obtain ⟨e, he, -, holder⟩ := h.linked l₁ s r hl
      have hr := ih (l₁ ++ [s]) n (by simp [hl]) (by simpa using hn)
      rw [List.head?_cons, chain, he, List.filterMap_cons_some he]
      simp only [holder, hr]

theorem entries_eq (h : Arranged c order) : c.entries = order.filterMap c.entryAt := by
  rw [entries, h.newest]
  exact chain_head? h order [] _ rfl h.length_le

theorem recency_items (h : Arranged c order) : c.recency.items = order.filterMap c.contentAt := by
  have hc : c.contentAt = fun s => (c.entryAt s).map CacheEntry.item := rfl
  rw [recency, entries_eq h, hc, List.map_filterMap]

/-! ### Changes of one slot -/

theorem contentAt_eq_none : c.contentAt s = none ↔ c.entryAt s = none := by
  simp [contentAt]

theorem entryAt_length (c : Cache κ ν) : c.entryAt c.slots.length = none := by
  simp [entryAt]

theorem entryAt_set (c : Cache κ ν) (s x : Nat) (o : Option (CacheEntry κ ν)) :
    entryAt { c with slots := c.slots.set s o } x =
      if s = x ∧ s < c.slots.length then o else c.entryAt x := by
  simp only [entryAt, List.getElem?_set]
  by_cases hx : s = x
  · subst hx
    by_cases hs : s < c.slots.length <;> simp [hs]
  · simp [hx]

theorem Arranged.congr (h : Arranged c order) (hn : d.newest = c.newest) (ho : d.oldest = c.oldest)
    (he : ∀ x ∈ order, d.entryAt x = c.entryAt x) : Arranged d order := by
  refine ⟨h.nodup, ?_, hn.trans h.newest, ho.trans h.oldest⟩
  intro l₁ x l₂ hl
  rw [he x (by simp [hl])]
  exact h.linked l₁ x l₂ hl

/-- A change of one slot that keeps its key and its links. -/
structure InPlace (f : CacheEntry κ ν → CacheEntry κ ν) (g : Item κ ν → Item κ ν) : Prop where
  item : ∀ e, (f e).item = g e.item
  key : ∀ i, (g i).key = i.key
  newer : ∀ e, (f e).newer = e.newer
  older : ∀ e, (f e).older = e.older

variable {f : CacheEntry κ ν → CacheEntry κ ν} {g : Item κ ν → Item κ ν}

theorem contentAt_changeAt (hf : InPlace f g) (c : Cache κ ν) (s x : Nat) :
    (c.changeAt s f).contentAt x = if s = x then (c.contentAt x).map g else c.contentAt x := by
  rw [contentAt, entryAt_changeAt, contentAt]
  by_cases h : s = x
  · simp only [h, if_true, Option.map_map]
    congr 1
    funext e
    exact hf.item e
  · simp only [h, if_false]

theorem inPlace_stamp (now : Nat) :
    InPlace (fun e : CacheEntry κ ν => { e with touchedAt := now })
      (fun i => { i with touchedAt := now }) :=
  ⟨fun _ => rfl, fun _ => rfl, fun _ => rfl, fun _ => rfl⟩

theorem inPlace_value (f : ν → ν) :
    InPlace (fun e : CacheEntry κ ν => { e with value := f e.value })
      (fun i => { i with value := f i.value }) :=
  ⟨fun _ => rfl, fun _ => rfl, fun _ => rfl, fun _ => rfl⟩

theorem filterMap_changeAt_cons {i : Item κ ν} {l : List Nat} (hf : InPlace f g) (hs : s ∉ l)
    (hi : c.contentAt s = some i) :
    (s :: l).filterMap (c.changeAt s f).contentAt = g i :: l.filterMap c.contentAt := by
  have hc : (c.changeAt s f).contentAt s = some (g i) := by
    rw [contentAt_changeAt hf, if_pos rfl, hi, Option.map_some]
  rw [List.filterMap_cons_some hc]
  congr 1
  apply List.filterMap_congr
  intro x hx
  have hsx : s ≠ x := fun hsx => hs (hsx ▸ hx)
  rw [contentAt_changeAt hf, if_neg hsx]

variable [DecidableEq κ]

/-! ### Slots, index and free slots -/

/-- The occupied slots of a cache are those of a list, and its index and its free slots say so. -/
structure Stocked (c : Cache κ ν) (order : List Nat) : Prop where
  occupied : ∀ s i, c.contentAt s = some i → s ∈ order
  indexed : ∀ k s, c.index.get? k = some s ↔ ∃ i, c.contentAt s = some i ∧ i.key = k
  size : c.index.size = order.length
  free_nodup : c.free.Nodup
  mem_free : ∀ s, s ∈ c.free ↔ s < c.slots.length ∧ c.contentAt s = none

theorem Stocked.relinked {order' : List Nat} (h : Stocked c order) (hr : Relinked c d)
    (hp : order.Perm order') : Stocked d order' := by
  refine ⟨?_, ?_, ?_, ?_, ?_⟩
  · intro s i hi
    rw [hr.content] at hi
    exact hp.mem_iff.1 (h.occupied s i hi)
  · intro k s
    rw [hr.index, hr.content]
    exact h.indexed k s
  · rw [hr.index, h.size, hp.length_eq]
  · rw [hr.free]
    exact h.free_nodup
  · intro s
    rw [hr.free, hr.length, hr.content]
    exact h.mem_free s

theorem Stocked.key_inj {i j : Item κ ν} (h : Stocked c order) (hi : c.contentAt s = some i)
    (hj : c.contentAt x = some j) (hk : i.key = j.key) : s = x := by
  have hs := (h.indexed j.key s).2 ⟨i, hi, hk⟩
  have hx := (h.indexed j.key x).2 ⟨j, hj, rfl⟩
  rw [hs] at hx
  exact Option.some.inj hx

/-! ### Sound caches -/

/-- The parts of a cache agree on the order of its slots. -/
structure Laid (c : Cache κ ν) (order : List Nat) : Prop where
  arranged : Arranged c order
  stocked : Stocked c order

def Sound (c : Cache κ ν) : Prop := ∃ order, Laid c order

theorem mem_recency (h : Laid c order) {i : Item κ ν} :
    i ∈ c.recency.items ↔ ∃ s, c.contentAt s = some i := by
  rw [recency_items h.arranged, List.mem_filterMap]
  constructor
  · rintro ⟨s, -, hs⟩
    exact ⟨s, hs⟩
  · rintro ⟨s, hs⟩
    exact ⟨s, h.stocked.occupied s i hs, hs⟩

theorem distinct_recency (h : Sound c) : c.recency.Distinct := by
  obtain ⟨order, h⟩ := h
  rw [Recency.Distinct, recency_items h.arranged, List.map_filterMap]
  apply h.arranged.nodup.filterMap
  intro s x k hs hx
  obtain ⟨i, hi, rfl⟩ := Option.map_eq_some_iff.1 hs
  obtain ⟨j, hj, hk⟩ := Option.map_eq_some_iff.1 hx
  exact h.stocked.key_inj hi hj hk.symm

/-- The index finds what the list finds. -/
theorem find?_recency (h : Laid c order) (k : κ) :
    c.recency.find? k = (c.index.get? k).bind c.contentAt := by
  cases hs : c.index.get? k with
  | none =>
    rw [Option.bind_none, Recency.find?_eq_none]
    intro i hi hk
    obtain ⟨s, hi⟩ := (mem_recency h).1 hi
    rw [(h.stocked.indexed k s).2 ⟨i, hi, hk⟩] at hs
    cases hs
  | some s =>
    obtain ⟨i, hi, hk⟩ := (h.stocked.indexed k s).1 hs
    rw [Option.bind_some, hi]
    exact (distinct_recency ⟨order, h⟩).find?_eq_some.2 ⟨(mem_recency h).2 ⟨s, hi⟩, hk⟩

/-- A stored key splits the order at its slot, and the list at its item. -/
theorem Laid.split (h : Laid c order) (hs : c.index.get? k = some s) :
    ∃ l₁ l₂ e, order = l₁ ++ s :: l₂ ∧ c.entryAt s = some e ∧ e.key = k ∧
      c.recency.find? k = some e.item ∧
      (c.recency.without k).items = (l₁ ++ l₂).filterMap c.contentAt := by
  obtain ⟨i, hi, hk⟩ := (h.stocked.indexed k s).1 hs
  obtain ⟨l₁, l₂, rfl⟩ := List.append_of_mem (h.stocked.occupied s i hi)
  obtain ⟨e, he, rfl⟩ := contentAt_eq_some.1 hi
  refine ⟨l₁, l₂, e, rfl, he, hk, by rw [find?_recency h, hs, Option.bind_some, hi], ?_⟩
  have hnot := (List.nodup_cons.1 (List.nodup_middle.1 h.arranged.nodup)).1
  have hne : ∀ l : List Nat, s ∉ l →
      (l.filterMap c.contentAt).filter (fun j => j.key ≠ k) = l.filterMap c.contentAt := by
    intro l hl
    apply List.filter_eq_self.2
    intro j hj
    obtain ⟨x, hx, hj⟩ := List.mem_filterMap.1 hj
    have : j.key ≠ k := fun hjk => hl (h.stocked.key_inj hi hj (hk.trans hjk.symm) ▸ hx)
    simpa using this
  simp only [List.mem_append, not_or] at hnot
  have hk' : e.key = k := hk
  rw [Recency.without, recency_items h.arranged, List.filterMap_append,
    List.filterMap_cons_some hi, List.filter_append, List.filter_cons_of_neg (by simp [hk']),
    hne l₁ hnot.1, hne l₂ hnot.2, List.filterMap_append]

/-! ### Changes in place -/

theorem Laid.changeAt (h : Laid c order) (hf : InPlace f g) (s : Nat) : Laid (c.changeAt s f) order := by
  refine ⟨⟨h.arranged.nodup, ?_, h.arranged.newest, h.arranged.oldest⟩, ?_, ?_, h.stocked.size,
    h.stocked.free_nodup, ?_⟩
  · intro l₁ x l₂ hl
    obtain ⟨e, he, hnewer, holder⟩ := h.arranged.linked l₁ x l₂ hl
    rw [entryAt_changeAt, he]
    by_cases hx : s = x
    · exact ⟨f e, by simp [hx], (hf.newer e).trans hnewer, (hf.older e).trans holder⟩
    · exact ⟨e, by simp [hx], hnewer, holder⟩
  · intro x i hi
    rw [contentAt_changeAt hf] at hi
    by_cases hx : s = x
    · rw [if_pos hx] at hi
      obtain ⟨j, hj, -⟩ := Option.map_eq_some_iff.1 hi
      exact h.stocked.occupied x j hj
    · rw [if_neg hx] at hi
      exact h.stocked.occupied x i hi
  · intro k x
    rw [contentAt_changeAt hf]
    apply (h.stocked.indexed k x).trans
    by_cases hx : s = x
    · rw [if_pos hx]
      constructor
      · rintro ⟨i, hi, hk⟩
        exact ⟨g i, by simp [hi], (hf.key i).trans hk⟩
      · rintro ⟨i, hi, hk⟩
        obtain ⟨j, hj, rfl⟩ := Option.map_eq_some_iff.1 hi
        exact ⟨j, hj, (hf.key j).symm.trans hk⟩
    · rw [if_neg hx]
  · intro x
    rw [contentAt_changeAt hf]
    apply (h.stocked.mem_free x).trans
    have hlen : (c.changeAt s f).slots.length = c.slots.length := List.length_modify _ _ _
    rw [hlen]
    by_cases hx : s = x <;> simp [hx]

/-! ### Using an entry -/

theorem Laid.moveToFront {l₁ l₂ : List Nat} (h : Laid c (l₁ ++ s :: l₂)) :
    Laid (c.moveToFront s) (s :: (l₁ ++ l₂)) :=
  ⟨h.arranged.moveToFront, h.stocked.relinked (relinked_moveToFront c s) List.perm_middle⟩

/-- A stored entry that is used and changed in place comes to the front of the list. -/
theorem Laid.use {l₁ l₂ : List Nat} {e : CacheEntry κ ν} (h : Laid c (l₁ ++ s :: l₂))
    (he : c.entryAt s = some e) (hf : InPlace f g) :
    Laid ((c.moveToFront s).changeAt s f) (s :: (l₁ ++ l₂)) ∧
      ((c.moveToFront s).changeAt s f).recency =
        { c.recency with items := g e.item :: (l₁ ++ l₂).filterMap c.contentAt } := by
  have hr := relinked_moveToFront c s
  have hm := h.moveToFront.changeAt hf s
  refine ⟨hm, ?_⟩
  have hs := (List.nodup_cons.1 hm.arranged.nodup).1
  have hi : (c.moveToFront s).contentAt s = some e.item := by
    rw [hr.content]
    exact contentAt_eq_some.2 ⟨e, he, rfl⟩
  refine Recency.ext ?_ hr.policy hr.ttl hr.maxSize
  rw [recency_items hm.arranged, filterMap_changeAt_cons hf hs hi]
  congr 1
  exact List.filterMap_congr fun x _ => hr.content x

/-! ### Emptying a slot -/

theorem contentAt_removeAt {e : CacheEntry κ ν} (he : c.entryAt s = some e) (x : Nat) :
    (c.removeAt s).2.contentAt x = if s = x then none else c.contentAt x := by
  have hr := relinked_unlink c s
  have hlt : s < (c.unlink s).slots.length := by
    rw [hr.length]
    exact lt_length_of_entryAt he
  have hx : (c.removeAt s).2.contentAt x =
      (entryAt { c.unlink s with slots := (c.unlink s).slots.set s none } x).map CacheEntry.item := by
    rw [removeAt, he]
    rfl
  rw [hx, entryAt_set]
  by_cases hsx : s = x
  · rw [if_pos ⟨hsx, hlt⟩, if_pos hsx, Option.map_none]
  · rw [if_neg (fun h => hsx h.1), if_neg hsx]
    exact hr.content x

theorem free_removeAt {e : CacheEntry κ ν} (he : c.entryAt s = some e) :
    (c.removeAt s).2.free = s :: c.free := by
  have hr := relinked_unlink c s
  rw [removeAt, he, ← hr.free]

theorem index_removeAt {e : CacheEntry κ ν} (he : c.entryAt s = some e) :
    (c.removeAt s).2.index = c.index.erase e.key := by
  have hr := relinked_unlink c s
  rw [removeAt, he, ← hr.index]

theorem Arranged.removeAt {l₁ l₂ : List Nat} {e : CacheEntry κ ν} (h : Arranged c (l₁ ++ s :: l₂))
    (he : c.entryAt s = some e) : Arranged (c.removeAt s).2 (l₁ ++ l₂) := by
  have hs : s ∉ l₁ ++ l₂ := (List.nodup_cons.1 (List.nodup_middle.1 h.nodup)).1
  rw [Cache.removeAt, he]
  refine h.unlink.congr rfl rfl ?_
  intro x hx
  refine (entryAt_set (c.unlink s) s x none).trans (if_neg ?_)
  rintro ⟨rfl, -⟩
  exact hs hx

theorem Stocked.indexed_removeAt {e : CacheEntry κ ν} (h : Stocked c order) (he : c.entryAt s = some e)
    (k : κ) (x : Nat) :
    (c.removeAt s).2.index.get? k = some x ↔
      ∃ i, (c.removeAt s).2.contentAt x = some i ∧ i.key = k := by
  have hi : c.contentAt s = some e.item := contentAt_eq_some.2 ⟨e, he, rfl⟩
  rw [index_removeAt he, Table.get?_erase, contentAt_removeAt he]
  by_cases hk : k = e.key
  · rw [if_pos hk]
    constructor
    · intro hn
      cases hn
    · rintro ⟨i, hx, hik⟩
      by_cases hsx : s = x
      · rw [if_pos hsx] at hx
        cases hx
      · rw [if_neg hsx] at hx
        exact absurd (h.key_inj hi hx (hk.symm.trans hik.symm)) hsx
  · rw [if_neg hk]
    apply (h.indexed k x).trans
    by_cases hsx : s = x
    · subst hsx
      rw [if_pos rfl, hi]
      constructor
      · rintro ⟨i, hx, hik⟩
        cases hx
        exact absurd hik.symm hk
      · rintro ⟨i, hx, -⟩
        cases hx
    · rw [if_neg hsx]

theorem Stocked.removeAt {l₁ l₂ : List Nat} {e : CacheEntry κ ν} (h : Stocked c (l₁ ++ s :: l₂))
    (he : c.entryAt s = some e) : Stocked (c.removeAt s).2 (l₁ ++ l₂) := by
  have hi : c.contentAt s = some e.item := contentAt_eq_some.2 ⟨e, he, rfl⟩
  refine ⟨?_, h.indexed_removeAt he, ?_, ?_, ?_⟩
  · intro x i hx
    rw [contentAt_removeAt he] at hx
    by_cases hsx : s = x
    · rw [if_pos hsx] at hx
      cases hx
    · rw [if_neg hsx] at hx
      have := h.occupied x i hx
      rw [List.mem_append, List.mem_cons] at this
      rw [List.mem_append]
      rcases this with hx | hx | hx
      · exact Or.inl hx
      · exact absurd hx.symm hsx
      · exact Or.inr hx
  · have herase := Table.size_erase ((h.indexed e.key s).2 ⟨e.item, hi, rfl⟩)
    have hsize := h.size
    rw [index_removeAt he]
    simp only [List.length_append, List.length_cons] at hsize ⊢
    omega
  · rw [free_removeAt he]
    refine List.nodup_cons.2 ⟨?_, h.free_nodup⟩
    intro hsf
    have := ((h.mem_free s).1 hsf).2
    rw [hi] at this
    cases this
  · intro x
    have hlen : (c.removeAt s).2.slots.length = c.slots.length := by
      rw [Cache.removeAt, he, ← (relinked_unlink c s).length]
      exact List.length_set
    rw [free_removeAt he, hlen, contentAt_removeAt he, List.mem_cons, h.mem_free x]
    by_cases hsx : s = x
    · subst hsx
      simp [lt_length_of_entryAt he]
    · have hxs : ¬ x = s := fun hxs => hsx hxs.symm
      simp [hsx, hxs]

/-- An emptied slot is gone from the order, and its item from the list. -/
theorem Laid.removeAt {l₁ l₂ : List Nat} {e : CacheEntry κ ν} (h : Laid c (l₁ ++ s :: l₂))
    (he : c.entryAt s = some e) :
    (c.removeAt s).1 = some (e.key, e.value) ∧ Laid (c.removeAt s).2 (l₁ ++ l₂) ∧
      (c.removeAt s).2.recency =
        { c.recency with items := (l₁ ++ l₂).filterMap c.contentAt } := by
  have hr := relinked_unlink c s
  have hs : s ∉ l₁ ++ l₂ := (List.nodup_cons.1 (List.nodup_middle.1 h.arranged.nodup)).1
  have hlaid : Laid (c.removeAt s).2 (l₁ ++ l₂) := ⟨h.arranged.removeAt he, h.stocked.removeAt he⟩
  refine ⟨by rw [Cache.removeAt, he], hlaid, Recency.ext ?_ ?_ ?_ ?_⟩
  · rw [recency_items hlaid.arranged]
    apply List.filterMap_congr
    intro x hx
    have hsx : s ≠ x := fun hsx => hs (hsx ▸ hx)
    rw [contentAt_removeAt he, if_neg hsx]
  · rw [Cache.removeAt, he]
    exact hr.policy
  · rw [Cache.removeAt, he]
    exact hr.ttl
  · rw [Cache.removeAt, he]
    exact hr.maxSize

/-! ### Filling a slot -/

structure Occupied (c : Cache κ ν) (e : CacheEntry κ ν) (s : Nat) (d : Cache κ ν) : Prop where
  vacant : c.entryAt s = none
  entry : ∀ x, d.entryAt x = if s = x then some e else c.entryAt x
  free_nodup : d.free.Nodup
  mem_free : ∀ x, x ∈ d.free ↔ x < d.slots.length ∧ d.contentAt x = none
  index : d.index = c.index
  newest : d.newest = c.newest
  oldest : d.oldest = c.oldest
  policy : d.policy = c.policy
  ttl : d.ttl = c.ttl
  maxSize : d.maxSize = c.maxSize

theorem Stocked.occupy (h : Stocked c order) (e : CacheEntry κ ν) :
    Occupied c e (c.occupy e).1 (c.occupy e).2 := by
  unfold Cache.occupy
  cases hf : c.free with
  | nil =>
    have hentry : ∀ x, entryAt { c with slots := c.slots ++ [some e], free := [] } x =
        if c.slots.length = x then some e else c.entryAt x := by
      intro x
      simp only [entryAt, List.getElem?_append]
      by_cases hlt : x < c.slots.length
      · have hne : c.slots.length ≠ x := by omega
        simp [hlt, hne]
      · by_cases hx : c.slots.length = x
        · simp [← hx]
        · have h1 : x - c.slots.length ≠ 0 := by omega
          simp [hlt, hx, h1]
    refine ⟨entryAt_length c, hentry, List.nodup_nil, ?_, rfl, rfl, rfl, rfl, rfl, rfl⟩
    intro x
    show x ∈ [] ↔ x < (c.slots ++ [some e]).length ∧ _
    rw [contentAt_eq_none, hentry, List.length_append]
    have := h.mem_free x
    rw [hf, contentAt_eq_none] at this
    rw [this]
    by_cases hx : c.slots.length = x
    · simp [← hx]
    · simp only [hx, if_false, List.length_cons, List.length_nil]
      exact and_congr_left fun _ => by omega
  | cons s free =>
    have hs := (h.mem_free s).1 (by rw [hf]; simp)
    obtain ⟨hnot, hnodup⟩ := List.nodup_cons.1 (hf ▸ h.free_nodup)
    have hentry : ∀ x, entryAt { c with slots := c.slots.set s (some e), free := free } x =
        if s = x then some e else c.entryAt x := by
      intro x
      apply (entryAt_set c s x (some e)).trans
      by_cases hx : s = x
      · rw [if_pos ⟨hx, hs.1⟩, if_pos hx]
      · rw [if_neg fun hh => hx hh.1, if_neg hx]
    refine ⟨contentAt_eq_none.1 hs.2, hentry, hnodup, ?_, rfl, rfl, rfl, rfl, rfl, rfl⟩
    intro x
    show x ∈ free ↔ x < (c.slots.set s (some e)).length ∧ _
    rw [contentAt_eq_none, hentry, List.length_set]
    have := h.mem_free x
    rw [hf, List.mem_cons, contentAt_eq_none] at this
    by_cases hx : s = x
    · subst hx
      simp [hnot]
    · have hx' : ¬ x = s := fun hh => hx hh.symm
      simpa [hx, hx'] using this

omit [DecidableEq κ] in
theorem Occupied.content {v : ν} (hd : Occupied c ⟨k, v, now, none, none⟩ s d) (x : Nat) :
    d.contentAt x = if s = x then some ⟨k, v, now⟩ else c.contentAt x := by
  rw [contentAt, hd.entry]
  split <;> rfl

theorem Stocked.indexed_fill (h : Stocked c order) {v : ν} (hk : c.index.get? k = none)
    (hd : Occupied c ⟨k, v, now, none, none⟩ s d) (y : κ) (x : Nat) :
    (d.index.insert k s).get? y = some x ↔ ∃ i, d.contentAt x = some i ∧ i.key = y := by
  rw [Table.get?_insert, hd.index, hd.content]
  by_cases hy : y = k
  · subst hy
    rw [if_pos rfl, Option.some.injEq]
    constructor
    · rintro rfl
      exact ⟨⟨y, v, now⟩, if_pos rfl, rfl⟩
    · rintro ⟨i, hi, hiy⟩
      by_cases hsx : s = x
      · exact hsx
      · rw [if_neg hsx] at hi
        rw [(h.indexed y x).2 ⟨i, hi, hiy⟩] at hk
        cases hk
  · rw [if_neg hy]
    apply (h.indexed y x).trans
    by_cases hsx : s = x
    · subst hsx
      rw [if_pos rfl, contentAt_eq_none.2 hd.vacant]
      constructor
      · rintro ⟨i, hi, -⟩
        cases hi
      · rintro ⟨i, hi, hiy⟩
        cases hi
        exact absurd hiy.symm hy
    · rw [if_neg hsx]

theorem Stocked.fill (h : Stocked c order) {v : ν} (hk : c.index.get? k = none)
    (hd : Occupied c ⟨k, v, now, none, none⟩ s d) :
    Stocked ({ d with index := d.index.insert k s } : Cache κ ν) (s :: order) := by
  refine ⟨?_, h.indexed_fill hk hd, ?_, hd.free_nodup, hd.mem_free⟩
  · intro x i hx
    have hx' : d.contentAt x = some i := hx
    rw [hd.content] at hx'
    by_cases hsx : s = x
    · simp [hsx]
    · rw [if_neg hsx] at hx'
      exact List.mem_cons_of_mem _ (h.occupied x i hx')
  · show (d.index.insert k s).size = _
    rw [hd.index, Table.size_insert hk, h.size, List.length_cons]

theorem Laid.fill (h : Laid c order) {v : ν} (hk : c.index.get? k = none)
    (hd : Occupied c ⟨k, v, now, none, none⟩ s d) :
    Laid (({ d with index := d.index.insert k s } : Cache κ ν).pushFront s) (s :: order) ∧
      (({ d with index := d.index.insert k s } : Cache κ ν).pushFront s).recency =
        { c.recency with items := ⟨k, v, now⟩ :: c.recency.items } := by
  have hnew := hd.entry s
  rw [if_pos rfl] at hnew
  have hs : s ∉ order := by
    intro hs
    obtain ⟨e, he⟩ := h.arranged.entry_of_mem hs
    rw [hd.vacant] at he
    cases he
  have hne : ∀ x ∈ order, s ≠ x := fun x hx hsx => hs (hsx ▸ hx)
  have harr : Arranged ({ d with index := d.index.insert k s } : Cache κ ν) order := by
    refine h.arranged.congr hd.newest hd.oldest ?_
    intro x hx
    exact (hd.entry x).trans (if_neg (hne x hx))
  have hr := relinked_pushFront ({ d with index := d.index.insert k s } : Cache κ ν) s
  have hlaid : Laid (({ d with index := d.index.insert k s } : Cache κ ν).pushFront s) (s :: order) :=
    ⟨harr.pushFront hs hnew, (h.stocked.fill hk hd).relinked hr (List.Perm.refl _)⟩
  refine ⟨hlaid, Recency.ext ?_ (hr.policy.trans hd.policy) (hr.ttl.trans hd.ttl)
    (hr.maxSize.trans hd.maxSize)⟩
  have hfront := (hr.content s).trans ((hd.content s).trans (if_pos rfl))
  rw [recency_items hlaid.arranged, List.filterMap_cons_some hfront, recency_items h.arranged]
  congr 1
  apply List.filterMap_congr
  intro x hx
  rw [hr.content x]
  exact (hd.content x).trans (if_neg (hne x hx))

end Cache

end Overlay
