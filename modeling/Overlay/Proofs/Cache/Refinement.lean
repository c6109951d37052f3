import Overlay.Proofs.Cache.Layout

/-!
# A cache is its list

Every operation of a cache does to the list that the cache is read as what the operation of the same name
does to a `Recency`: `get_refines`, `insert_refines`, `remove_refines`, `takeExpired_refines`,
`modify_refines`.  They hold of a cache whose parts agree (`Sound`), and each leaves such a cache behind,
so that every cache that operations make from an empty one can be read as a list.
-/

namespace Overlay

universe u v

namespace Cache

variable {κ : Type u} {ν : Type v} [DecidableEq κ] {c d : Cache κ ν} {order : List Nat} {s now : Nat}

/-- The parts of a cache agree, and it reads as a given list. -/
structure Reads (c : Cache κ ν) (r : Recency κ ν) : Prop where
  sound : Sound c
  recency : c.recency = r

theorem reads_empty (policy : ExpiryPolicy) (ttl : Option Nat) (maxSize : Nat) :
    Reads (empty policy ttl maxSize : Cache κ ν) ⟨[], policy, ttl, maxSize⟩ := by
  have hentry : ∀ s, entryAt (empty policy ttl maxSize : Cache κ ν) s = none := fun _ => rfl
  refine ⟨⟨[], ⟨List.nodup_nil, ?_, rfl, rfl⟩, ?_, ?_, rfl, List.nodup_nil, ?_⟩, rfl⟩
  · intro l₁ s l₂ hl
    simp at hl
  · intro s i hi
    rw [contentAt, hentry] at hi
    cases hi
  · intro k s
    constructor
    · intro hk
      cases hk
    · rintro ⟨i, hi, -⟩
      rw [contentAt, hentry] at hi
      cases hi
  · intro s
    simp [empty]

theorem Laid.find?_eq_none (h : Laid c order) {k : κ} (hs : c.index.get? k = none) :
    c.recency.find? k = none := by
  rw [find?_recency h, hs, Option.bind_none]

/-! ### Look-ups -/

theorem peek_eq (h : Sound c) (k : κ) (now : Nat) : c.peek k now = c.recency.peek k now := by
  obtain ⟨order, h⟩ := h
  rw [peek, Recency.peek, find?_recency h]
  cases hs : c.index.get? k with
  | none => rfl
  | some s =>
    rw [Option.bind_some, Option.bind_some, contentAt]
    cases c.entryAt s <;> rfl

theorem get_refines (h : Sound c) (k : κ) (now : Nat) :
    (c.get k now).1 = c.peek k now ∧ Reads (c.get k now).2 (c.recency.get k now).2 := by
  obtain ⟨order, h⟩ := h
  cases hs : c.index.get? k with
  | none =>
    have hf := h.find?_eq_none hs
    have hget : c.get k now = (none, c) := by rw [get, hs]
    have hpeek : c.peek k now = none := by rw [peek, hs, Option.bind_none]
    rw [hget, Recency.get, hf, hpeek]
    exact ⟨rfl, ⟨order, h⟩, rfl⟩
  | some s =>
    obtain ⟨l₁, l₂, e, rfl, he, rfl, hf, hw⟩ := h.split hs
    have hpeek : c.peek e.key now = if c.expired e now then none else some e.value := by
      rw [peek, hs, Option.bind_some, he, Option.bind_some]
    rw [get, hs, hpeek, Recency.get, hf]
    simp only [he]
    have hexp : c.recency.expired e.item now = c.expired e now := rfl
    cases hx : c.expired e now with
    | true =>
      obtain ⟨-, hl, hr⟩ := h.removeAt he
      rw [hexp, hx]
      refine ⟨rfl, ⟨_, hl⟩, ?_⟩
      exact hr.trans (Recency.ext hw.symm rfl rfl rfl)
    | false =>
      rw [hexp, hx]
      refine ⟨rfl, ?_⟩
      have hpolicy : (c.moveToFront s).policy = c.policy := (relinked_moveToFront c s).policy
      simp only [Bool.false_eq_true, if_false, hpolicy]
      by_cases hp : c.policy = .afterAccess
      · obtain ⟨hl, hr⟩ := h.use he (inPlace_stamp now)
        rw [if_pos hp, stamp]
        refine ⟨⟨_, hl⟩, hr.trans (Recency.ext ?_ rfl rfl rfl)⟩
        have hu : c.recency.used e.item now = { e.item with touchedAt := now } := if_pos hp
        rw [hu, hw]
      · obtain ⟨hl, hr⟩ := h.use he (inPlace_stamp now)
        rw [if_neg hp]
        refine ⟨⟨_, h.moveToFront⟩, ?_⟩
        have hm := relinked_moveToFront c s
        refine Recency.ext ?_ hm.policy hm.ttl hm.maxSize
        have hu : c.recency.used e.item now = e.item := if_neg hp
        have hi : c.contentAt s = some e.item := contentAt_eq_some.2 ⟨e, he, rfl⟩
        have hc : (c.moveToFront s).contentAt = c.contentAt := funext hm.content
        rw [recency_items h.moveToFront.arranged, hc, List.filterMap_cons_some hi, hu, hw]

theorem modify_refines (h : Sound c) (k : κ) (f : ν → ν) :
    Reads (c.modify k f) (c.recency.modify k f) := by
  obtain ⟨order, h⟩ := h
  have hnone : ∀ l : List (Item κ ν), (∀ i ∈ l, i.key ≠ k) →
      l.map (fun i => if i.key = k then { i with value := f i.value } else i) = l := by
    intro l hl
    refine (List.map_congr_left ?_).trans (List.map_id l)
    intro i hi
    rw [if_neg (hl i hi), id]
  cases hs : c.index.get? k with
  | none =>
    have hf := h.find?_eq_none hs
    rw [modify, hs]
    refine ⟨⟨order, h⟩, Recency.ext ?_ rfl rfl rfl⟩
    exact (hnone _ (Recency.find?_eq_none.1 hf)).symm
  | some s =>
    have hl := h.changeAt (inPlace_value f) s
    obtain ⟨i, hi, hk⟩ := (h.stocked.indexed k s).1 hs
    rw [modify, hs]
    refine ⟨⟨order, hl⟩, Recency.ext ?_ rfl rfl rfl⟩
    show (c.changeAt s _).recency.items = _
    rw [recency_items hl.arranged, Recency.modify, recency_items h.arranged, List.map_filterMap]
    apply List.filterMap_congr
    intro x _
    rw [contentAt_changeAt (inPlace_value f)]
    by_cases hx : s = x
    · subst hx
      rw [if_pos rfl, hi, Option.map_some, Option.map_some, if_pos hk]
    · rw [if_neg hx]
      cases hj : c.contentAt x with
      | none => rfl
      | some j =>
        have hne : j.key ≠ k := fun hjk => hx (h.stocked.key_inj hi hj (hk.trans hjk.symm))
        rw [Option.map_some, if_neg hne]

/-! ### Removal -/

theorem remove_refines (h : Sound c) (k : κ) :
    (c.remove k).1 = (c.recency.remove k).1 ∧ Reads (c.remove k).2 (c.recency.remove k).2 := by
  obtain ⟨order, h⟩ := h
  cases hs : c.index.get? k with
  | none =>
    have hf := h.find?_eq_none hs
    have hw : c.recency.without k = c.recency := by
      refine Recency.ext (List.filter_eq_self.2 ?_) rfl rfl rfl
      intro i hi
      simpa using Recency.find?_eq_none.1 hf i hi
    rw [remove, hs, Recency.remove, hf, hw]
    exact ⟨rfl, ⟨order, h⟩, rfl⟩
  | some s =>
    obtain ⟨l₁, l₂, e, rfl, he, rfl, hf, hw⟩ := h.split hs
    obtain ⟨hv, hl, hr⟩ := h.removeAt he
    rw [remove, hs, Recency.remove, hf]
    refine ⟨?_, ⟨_, hl⟩, hr.trans (Recency.ext hw.symm rfl rfl rfl)⟩
    show (c.removeAt s).1.map (·.2) = some e.value
    rw [hv, Option.map_some]

theorem filter_notMem_cons {l l₁ l₂ : List Nat} (hs : s ∉ l₁ ++ l₂) :
    (l₁ ++ s :: l₂).filter (· ∉ s :: l) = (l₁ ++ l₂).filter (· ∉ l) := by
  have hdrop : ∀ m : List Nat, s ∉ m → m.filter (· ∉ s :: l) = m.filter (· ∉ l) := by
    intro m hm
    apply List.filter_congr
    intro x hx
    have hxs : x ≠ s := fun hxs => hm (hxs ▸ hx)
    simp [hxs]
  rw [List.mem_append, not_or] at hs
  rw [List.filter_append, List.filter_cons_of_neg (by simp), hdrop l₁ hs.1, hdrop l₂ hs.2,
    List.filter_append]

theorem Laid.removeAll (h : Laid c order) {l : List Nat} (hn : l.Nodup)
    (hl : ∀ s ∈ l, ∃ e, c.entryAt s = some e) :
    (c.removeAll l).1 = l.filterMap (fun s => (c.contentAt s).map fun i => (i.key, i.value)) ∧
      Laid (c.removeAll l).2 (order.filter (· ∉ l)) ∧
      (c.removeAll l).2.recency =
        { c.recency with items := (order.filter (· ∉ l)).filterMap c.contentAt } := by
  induction l generalizing c order with
  | nil =>
    have hf : order.filter (· ∉ ([] : List Nat)) = order := by simp
    rw [hf]
    exact ⟨rfl, h, Recency.ext (recency_items h.arranged) rfl rfl rfl⟩
  | cons s l ih =>
    obtain ⟨hs, hn⟩ := List.nodup_cons.1 hn
    obtain ⟨e, he⟩ := hl s (by simp)
    have hi : c.contentAt s = some e.item := contentAt_eq_some.2 ⟨e, he, rfl⟩
    obtain ⟨l₁, l₂, rfl⟩ := List.append_of_mem (h.stocked.occupied s e.item hi)
    obtain ⟨hv, hlaid, hr⟩ := h.removeAt he
    have hs' : s ∉ l₁ ++ l₂ := (List.nodup_cons.1 (List.nodup_middle.1 h.arranged.nodup)).1
    have hcontent : ∀ x, x ≠ s → (c.removeAt s).2.contentAt x = c.contentAt x := fun x hx => by
      rw [contentAt_removeAt he, if_neg fun hsx => hx hsx.symm]
    have hocc : ∀ x ∈ l, ∃ e, (c.removeAt s).2.entryAt x = some e := by
      intro x hx
      obtain ⟨y, hy⟩ := hl x (by simp [hx])
      have hxs : x ≠ s := fun hxs => hs (hxs ▸ hx)
      have hc := (hcontent x hxs).trans (contentAt_eq_some.2 ⟨y, hy, rfl⟩)
      obtain ⟨z, hz, -⟩ := contentAt_eq_some.1 hc
      exact ⟨z, hz⟩
    obtain ⟨hv', hlaid', hr'⟩ := ih hlaid hn hocc
    rw [filter_notMem_cons hs']
    refine ⟨?_, hlaid', hr'.trans (Recency.ext ?_ ?_ ?_ ?_)⟩
    · show (c.removeAt s).1.toList ++ ((c.removeAt s).2.removeAll l).1 = _
      rw [hv, hv', List.filterMap_cons_some (by rw [hi]; rfl)]
      refine congrArg (_ :: ·) (List.filterMap_congr ?_)
      intro x hx
      rw [hcontent x fun hxs => hs (hxs ▸ hx)]
    · refine List.filterMap_congr fun x hx => hcontent x fun hxs => hs' (hxs ▸ ?_)
      exact List.mem_of_mem_filter hx
    all_goals rw [hr]

omit [DecidableEq κ] in
theorem mem_expiredSlots : s ∈ c.expiredSlots now ↔ ∃ e, c.entryAt s = some e ∧ c.expired e now := by
  simp only [expiredSlots, List.mem_filter, List.mem_range, Option.any_eq_true]
  constructor
  · rintro ⟨-, e, he, hx⟩
    exact ⟨e, he, hx⟩
  · rintro ⟨e, he, hx⟩
    exact ⟨lt_length_of_entryAt he, e, he, hx⟩

omit [DecidableEq κ] in
theorem mem_expiredSlots_content {i : Item κ ν} (hi : c.contentAt s = some i) :
    s ∈ c.expiredSlots now ↔ c.recency.expired i now := by
  obtain ⟨e, he, rfl⟩ := contentAt_eq_some.1 hi
  rw [mem_expiredSlots]
  constructor
  · rintro ⟨e', he', hx⟩
    rw [he, Option.some.injEq] at he'
    subst he'
    exact hx
  · intro hx
    exact ⟨e, he, hx⟩

omit [DecidableEq κ] in
theorem filterMap_filter_content {p : Nat → Bool} {q : Item κ ν → Bool}
    (hpq : ∀ s i, c.contentAt s = some i → p s = q i) (l : List Nat) :
    (l.filter p).filterMap c.contentAt = (l.filterMap c.contentAt).filter q := by
  rw [List.filter_filterMap, List.filterMap_filter]
  apply List.filterMap_congr
  intro s _
  cases hi : c.contentAt s with
  | none => simp
  | some i => by_cases hq : q i <;> simp [hpq s i hi, hq, Option.filter]

/-- The expired entries are handed out, in some order. -/
theorem takeExpired_refines (h : Sound c) (now : Nat) :
    (c.takeExpired now).1.Perm ((c.recency.takeExpired now).1.map fun i => (i.key, i.value)) ∧
      Reads (c.takeExpired now).2 (c.recency.takeExpired now).2 := by
  obtain ⟨order, h⟩ := h
  have hnodup : (c.expiredSlots now).Nodup := List.nodup_range.filter _
  have hocc : ∀ s ∈ c.expiredSlots now, ∃ e, c.entryAt s = some e := fun s hs => by
    obtain ⟨e, he, -⟩ := mem_expiredSlots.1 hs
    exact ⟨e, he⟩
  obtain ⟨hv, hlaid, hr⟩ := h.removeAll hnodup hocc
  refine ⟨?_, ⟨_, hlaid⟩, hr.trans (Recency.ext ?_ rfl rfl rfl)⟩
  · have hperm : (c.expiredSlots now).Perm (order.filter (· ∈ c.expiredSlots now)) := by
      apply (List.perm_ext_iff_of_nodup hnodup (h.arranged.nodup.filter _)).2
      intro s
      rw [List.mem_filter, decide_eq_true_iff]
      refine ⟨fun hs => ⟨?_, hs⟩, fun hs => hs.2⟩
      obtain ⟨e, he⟩ := hocc s hs
      exact h.stocked.occupied s e.item (contentAt_eq_some.2 ⟨e, he, rfl⟩)
    have hitems : (order.filter (· ∈ c.expiredSlots now)).filterMap c.contentAt =
        (c.recency.takeExpired now).1 := by
      rw [Recency.takeExpired, recency_items h.arranged]
      refine filterMap_filter_content ?_ order
      intro s i hi
      rw [Bool.eq_iff_iff, decide_eq_true_iff, mem_expiredSlots_content hi]
    rw [takeExpired, hv, ← hitems, List.map_filterMap]
    exact hperm.filterMap _
  · rw [Recency.takeExpired, recency_items h.arranged]
    refine filterMap_filter_content ?_ order
    intro s i hi
    rw [Bool.eq_iff_iff, decide_eq_true_iff, mem_expiredSlots_content hi]
    simp

/-! ### Insertion -/

theorem length_items (h : Laid c order) : c.recency.items.length = order.length := by
  rw [recency_items h.arranged]
  have hsome : ∀ l : List Nat, l ⊆ order → (l.filterMap c.contentAt).length = l.length := by
    intro l
    induction l with
    | nil => exact fun _ => rfl
    | cons s l ih =>
      intro hl
      obtain ⟨e, he⟩ := h.arranged.entry_of_mem (hl List.mem_cons_self)
      rw [List.filterMap_cons_some (contentAt_eq_some.2 ⟨e, he, rfl⟩), List.length_cons,
        ih fun x hx => hl (by simp [hx]), List.length_cons]
  exact hsome order fun _ hx => hx

theorem Laid.removeOldest (h : Laid c order) (hne : order ≠ []) :
    ∃ o i, c.oldest = some o ∧ (c.removeAt o).1 = some (i.key, i.value) ∧
      c.recency.items.getLast? = some i ∧ Sound (c.removeAt o).2 ∧
      (c.removeAt o).2.recency = { c.recency with items := c.recency.items.dropLast } := by
  obtain ⟨l, o, rfl⟩ : ∃ l o, order = l ++ [o] :=
    ⟨_, _, (List.dropLast_append_getLast hne).symm⟩
  obtain ⟨e, he⟩ := h.arranged.entry_of_mem (List.mem_append_right l (List.mem_singleton_self o))
  obtain ⟨hv, hlaid, hr⟩ := h.removeAt he
  have hi : c.contentAt o = some e.item := contentAt_eq_some.2 ⟨e, he, rfl⟩
  have hitems : c.recency.items = l.filterMap c.contentAt ++ [e.item] := by
    rw [recency_items h.arranged, List.filterMap_append, List.filterMap_cons_some hi]
    rfl
  refine ⟨o, e.item, ?_, hv, ?_, ⟨_, hlaid⟩, hr.trans (Recency.ext ?_ rfl rfl rfl)⟩
  · rw [h.arranged.oldest, List.getLast?_append]
    rfl
  · rw [hitems, List.getLast?_concat]
  · rw [hitems, List.dropLast_concat, List.append_nil]

theorem insert_refines (h : Sound c) (k : κ) (v : ν) (now : Nat) :
    (c.insert k v now).evicted = (c.recency.insert k v now).evicted ∧
      Reads (c.insert k v now).cache (c.recency.insert k v now).list := by
  obtain ⟨order, h⟩ := h
  cases hs : c.index.get? k with
  | some s =>
    obtain ⟨l₁, l₂, e, rfl, he, rfl, hf, hw⟩ := h.split hs
    have hput : InPlace (fun x : CacheEntry κ ν => { x with touchedAt := now, value := v })
        (fun i => { i with touchedAt := now, value := v }) :=
      ⟨fun _ => rfl, fun _ => rfl, fun _ => rfl, fun _ => rfl⟩
    obtain ⟨hl, hr⟩ := h.use he hput
    have hcache : (c.insert e.key v now).cache =
        (c.moveToFront s).changeAt s fun x => { x with touchedAt := now, value := v } := by
      rw [insert, hs]
      simp only [stamp, changeAt, List.modify_modify_eq, Option.map_comp_map]
      rfl
    rw [hcache, Recency.insert, hf]
    refine ⟨by rw [insert, hs], ⟨_, hl⟩, hr.trans (Recency.ext ?_ rfl rfl rfl)⟩
    rw [hw]
    rfl
  | none =>
    have hf := h.find?_eq_none hs
    have hd := h.stocked.occupy ⟨k, v, now, none, none⟩
    obtain ⟨hl, hr⟩ := h.fill hs hd
    generalize ho : c.occupy ⟨k, v, now, none, none⟩ = filled at hl hr
    obtain ⟨s, d⟩ := filled
    generalize hq : (({ d with index := d.index.insert k s } : Cache κ ν).pushFront s) = q at hl hr
    have hins : c.insert k v now =
        if 0 < q.maxSize ∧ q.maxSize < q.size then
          q.oldest.elim ⟨none, none, q⟩ fun o => ⟨none, (q.removeAt o).1, (q.removeAt o).2⟩
        else ⟨none, none, q⟩ := by
      simp only [insert, hs, ho, hq]
      cases q.oldest <;> rfl
    have hmax : q.maxSize = c.recency.maxSize := congrArg Recency.maxSize hr
    have hsize : q.size = (⟨k, v, now⟩ :: c.recency.items : List (Item κ ν)).length := by
      rw [size, hl.stocked.size, List.length_cons, List.length_cons, length_items h]
    rw [hins, Recency.insert, hf, hmax, hsize]
    by_cases hm : 0 < c.recency.maxSize ∧
        c.recency.maxSize < (⟨k, v, now⟩ :: c.recency.items : List (Item κ ν)).length
    · obtain ⟨o, i, ho, hv, hlast, hsound, hr'⟩ := hl.removeOldest (List.cons_ne_nil _ _)
      rw [hr] at hlast hr'
      simp only [hm, and_self, if_true, ho, Option.elim_some, hv, hlast]
      exact ⟨rfl, hsound, hr'⟩
    · simp only [hm, if_false]
      exact ⟨trivial, ⟨_, hl⟩, hr⟩

end Cache

end Overlay
