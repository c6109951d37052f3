import Mathlib.Data.List.Nodup
import Overlay.Cache

/-!
# Caches as lists

What a cache means, without its arena: a list of items in order of recency, most recently used first.
Using an item moves it to the front, an item that has expired is dropped when it is looked up, and an
insertion that makes the list too long drops the last one.

The statements say what each operation does to look-ups: `find?_get`, `find?_insert`, `find?_without`,
`find?_takeExpired`, `find?_modify`.  They need that no key occurs twice (`Distinct`), which every
operation keeps.
-/

namespace Overlay

universe u v

/-- An entry of a cache, links aside. -/
@[ext]
structure Item (κ : Type u) (ν : Type v) where
  key : κ
  value : ν
  touchedAt : Nat
deriving DecidableEq

/-- Values by key in order of recency, most recently used first. -/
@[ext]
structure Recency (κ : Type u) (ν : Type v) where
  items : List (Item κ ν)
  policy : ExpiryPolicy
  ttl : Option Nat
  maxSize : Nat
deriving DecidableEq

namespace Recency

variable {κ : Type u} {ν : Type v}

def expired (r : Recency κ ν) (i : Item κ ν) (now : Nat) : Bool :=
  match r.ttl with
  | some ttl => ttl ≤ now - i.touchedAt
  | none => false

def used (r : Recency κ ν) (i : Item κ ν) (now : Nat) : Item κ ν :=
  if r.policy = .afterAccess then { i with touchedAt := now } else i

theorem used_key (r : Recency κ ν) (i : Item κ ν) (now : Nat) : (r.used i now).key = i.key := by
  unfold used
  split <;> rfl

theorem used_value (r : Recency κ ν) (i : Item κ ν) (now : Nat) : (r.used i now).value = i.value := by
  unfold used
  split <;> rfl

def takeExpired (r : Recency κ ν) (now : Nat) : List (Item κ ν) × Recency κ ν :=
  (r.items.filter fun i => r.expired i now, { r with items := r.items.filter fun i => !r.expired i now })

/-- No key occurs twice. -/
def Distinct (r : Recency κ ν) : Prop := (r.items.map (·.key)).Nodup

theorem Distinct.takeExpired {r : Recency κ ν} (h : r.Distinct) (now : Nat) :
    (r.takeExpired now).2.Distinct := h.sublist (List.filter_sublist.map _)

variable [DecidableEq κ]

def find? (r : Recency κ ν) (k : κ) : Option (Item κ ν) := r.items.find? fun i => i.key = k

def without (r : Recency κ ν) (k : κ) : Recency κ ν :=
  { r with items := r.items.filter fun i => i.key ≠ k }

def peek (r : Recency κ ν) (k : κ) (now : Nat) : Option ν :=
  (r.find? k).bind fun i => if r.expired i now then none else some i.value

/-- The value of a key, whose item comes to the front; an expired item is dropped. -/
def get (r : Recency κ ν) (k : κ) (now : Nat) : Option ν × Recency κ ν :=
  match r.find? k with
  | none => (none, r)
  | some i =>
    if r.expired i now then (none, r.without k)
    else (some i.value, { r with items := r.used i now :: (r.without k).items })

def modify (r : Recency κ ν) (k : κ) (f : ν → ν) : Recency κ ν :=
  { r with items := r.items.map fun i => if i.key = k then { i with value := f i.value } else i }

structure Insertion (κ : Type u) (ν : Type v) where
  previous : Option ν
  evicted : Option (κ × ν)
  list : Recency κ ν

/-- Sets the value of a key, whose item comes to the front; the last item leaves a list that is too long. -/
def insert (r : Recency κ ν) (k : κ) (v : ν) (now : Nat) : Insertion κ ν :=
  match r.find? k with
  | some i => ⟨some i.value, none, { r with items := ⟨k, v, now⟩ :: (r.without k).items }⟩
  | none =>
    let items := ⟨k, v, now⟩ :: r.items
    if 0 < r.maxSize ∧ r.maxSize < items.length then
      ⟨none, items.getLast?.map fun i => (i.key, i.value), { r with items := items.dropLast }⟩
    else ⟨none, none, { r with items := items }⟩

def remove (r : Recency κ ν) (k : κ) : Option ν × Recency κ ν :=
  ((r.find? k).map (·.value), r.without k)

variable {r : Recency κ ν} {k x : κ} {i : Item κ ν} {now : Nat}

/-! ### Look-ups -/

theorem key_of_find? (h : r.find? k = some i) : i.key = k := by
  simpa using List.find?_some h

theorem mem_of_find? (h : r.find? k = some i) : i ∈ r.items := List.mem_of_find?_eq_some h

theorem find?_eq_none : r.find? k = none ↔ ∀ i ∈ r.items, i.key ≠ k := by
  simp [find?]

theorem Distinct.find?_eq_some (h : r.Distinct) : r.find? k = some i ↔ i ∈ r.items ∧ i.key = k := by
  constructor
  · exact fun hf => ⟨mem_of_find? hf, key_of_find? hf⟩
  · rintro ⟨hi, rfl⟩
    obtain ⟨l₁, l₂, hl⟩ := List.append_of_mem hi
    have hd : ((l₁ ++ i :: l₂).map (·.key)).Nodup := hl ▸ h
    rw [find?, hl, List.find?_append, List.find?_cons_of_pos (by simp)]
    have hn : l₁.find? (fun j => j.key = i.key) = none := by
      rw [List.find?_eq_none]
      intro j hj
      rw [List.map_append, List.nodup_append] at hd
      simpa using hd.2.2 j.key (List.mem_map_of_mem hj) i.key (by simp)
    rw [hn, Option.none_or]

theorem find?_without (r : Recency κ ν) (k x : κ) :
    (r.without k).find? x = if x = k then none else r.find? x := by
  simp only [find?, without, List.find?_filter]
  by_cases h : x = k
  · subst h
    simp
  · rw [if_neg h]
    congr 1
    funext i
    by_cases hx : i.key = x
    · simp [hx, h]
    · simp [hx]

theorem Distinct.without (h : r.Distinct) (k : κ) : (r.without k).Distinct :=
  h.sublist (List.filter_sublist.map _)

theorem find?_cons (r : Recency κ ν) (i : Item κ ν) (x : κ) :
    find? { r with items := i :: r.items } x = if x = i.key then some i else r.find? x := by
  by_cases h : x = i.key
  · simp [find?, h]
  · have h' : ¬ i.key = x := fun hx => h hx.symm
    simp [find?, h, h']

theorem Distinct.cons_without (h : r.Distinct) {i : Item κ ν} (hk : i.key = k) :
    Distinct { r with items := i :: (r.without k).items } := by
  refine List.nodup_cons.2 ⟨?_, h.without k⟩
  simp [Recency.without, hk]

/-! ### Operations -/

theorem get_fst (r : Recency κ ν) (k : κ) (now : Nat) : (r.get k now).1 = r.peek k now := by
  unfold get peek
  cases r.find? k with
  | none => rfl
  | some i => by_cases h : r.expired i now <;> simp [h]

theorem find?_get (r : Recency κ ν) (k x : κ) (now : Nat) :
    (r.get k now).2.find? x =
      if x = k then
        (r.find? k).bind fun i => if r.expired i now then none else some (r.used i now)
      else r.find? x := by
  unfold get
  cases hf : r.find? k with
  | none => by_cases h : x = k <;> simp [h, hf]
  | some i =>
    have hk : (r.used i now).key = k := (used_key r i now).trans (key_of_find? hf)
    by_cases he : r.expired i now
    · by_cases h : x = k <;> simp [he, find?_without, h]
    · have hc := find?_cons (r.without k) (r.used i now) x
      rw [hk, find?_without] at hc
      simp only [he, Option.bind_some]
      apply hc.trans
      by_cases h : x = k <;> simp [h]

theorem Distinct.get (h : r.Distinct) (k : κ) (now : Nat) : (r.get k now).2.Distinct := by
  unfold Recency.get
  cases hf : r.find? k with
  | none => exact h
  | some i =>
    by_cases he : r.expired i now
    · simpa [he] using h.without k
    · simpa [he] using h.cons_without ((used_key r i now).trans (key_of_find? hf))

theorem find?_modify (r : Recency κ ν) (k x : κ) (f : ν → ν) :
    (r.modify k f).find? x =
      if x = k then (r.find? x).map fun i => { i with value := f i.value } else r.find? x := by
  obtain ⟨items, policy, ttl, maxSize⟩ := r
  simp only [find?, modify]
  induction items with
  | nil => simp
  | cons i l ih =>
    by_cases hi : i.key = x
    · by_cases hk : i.key = k
      · simp [hi, hk.symm.trans hi]
      · have hxk : ¬ x = k := fun h => hk (hi.trans h)
        simp [hi, hxk]
    · have hi' : (if i.key = k then { i with value := f i.value } else i).key ≠ x := by
        split <;> exact hi
      simp only [List.map_cons, List.find?_cons, hi, hi', decide_false]
      exact ih

theorem Distinct.modify (h : r.Distinct) (k : κ) (f : ν → ν) : (r.modify k f).Distinct := by
  have hm : (r.modify k f).items.map (·.key) = r.items.map (·.key) := by
    simp only [Recency.modify, List.map_map]
    apply List.map_congr_left
    intro i _
    by_cases hi : i.key = k <;> simp [hi]
  rw [Distinct, hm]
  exact h

theorem Distinct.find?_filter (h : r.Distinct) (p : Item κ ν → Bool) (x : κ) :
    find? { r with items := r.items.filter p } x = (r.find? x).filter p := by
  have hd : Distinct { r with items := r.items.filter p } := h.sublist (List.filter_sublist.map _)
  cases hf : r.find? x with
  | none =>
    rw [Option.filter_none, find?_eq_none]
    exact fun i hi => find?_eq_none.1 hf i (List.mem_of_mem_filter hi)
  | some i =>
    obtain ⟨hi, hk⟩ := h.find?_eq_some.1 hf
    by_cases hp : p i
    · rw [Option.filter_some, if_pos hp]
      exact hd.find?_eq_some.2 ⟨List.mem_filter.2 ⟨hi, hp⟩, hk⟩
    · rw [Option.filter_some, if_neg hp, find?_eq_none]
      intro j hj hjx
      obtain ⟨hj, hjp⟩ := List.mem_filter.1 hj
      have hji : r.find? x = some j := h.find?_eq_some.2 ⟨hj, hjx⟩
      rw [hf, Option.some.injEq] at hji
      exact hp (hji ▸ hjp)

theorem find?_takeExpired (h : r.Distinct) (now : Nat) (x : κ) :
    (r.takeExpired now).2.find? x = (r.find? x).filter fun i => !r.expired i now :=
  h.find?_filter _ x

theorem Distinct.find?_init (h : r.Distinct) {l : List (Item κ ν)} {i : Item κ ν}
    (hr : r.items = l ++ [i]) (x : κ) :
    find? { r with items := l } x = if x = i.key then none else r.find? x := by
  by_cases hx : x = i.key
  · subst hx
    rw [if_pos rfl, find?_eq_none]
    intro j hj hji
    have hd : (l.map (·.key) ++ [i.key]).Nodup := by
      have hkeys := h
      rw [Distinct, hr] at hkeys
      simpa using hkeys
    exact (List.nodup_append.1 hd).2.2 j.key (List.mem_map_of_mem hj) i.key (by simp) hji
  · rw [if_neg hx]
    have hx' : ¬ i.key = x := fun he => hx he.symm
    simp only [find?, hr, List.find?_append]
    simp [hx']

/-- **What an insertion does to look-ups.**  The key has its new value.  At most one other key, that of
the last item, loses its item, and the insertion hands that item out. -/
theorem find?_insert (h : r.Distinct) (k : κ) (v : ν) (now : Nat) :
    ((r.insert k v now).evicted = none ∧
      ∀ x, (r.insert k v now).list.find? x = if x = k then some ⟨k, v, now⟩ else r.find? x) ∨
    ∃ i, (r.insert k v now).evicted = some (i.key, i.value) ∧ r.find? i.key = some i ∧ i.key ≠ k ∧
      ∀ x, (r.insert k v now).list.find? x =
        if x = k then some ⟨k, v, now⟩ else if x = i.key then none else r.find? x := by
  unfold insert
  cases hf : r.find? k with
  | some j =>
    refine Or.inl ⟨rfl, ?_⟩
    intro x
    have hc := find?_cons (r.without k) ⟨k, v, now⟩ x
    rw [find?_without] at hc
    apply hc.trans
    by_cases hx : x = k <;> simp [hx]
  | none =>
    by_cases hm : 0 < r.maxSize ∧ r.maxSize < (⟨k, v, now⟩ :: r.items : List (Item κ ν)).length
    · simp only [hm, and_self, if_true]
      rcases List.eq_nil_or_concat r.items with hr | ⟨l, i, hr⟩
      · simp only [hr, List.length_cons, List.length_nil] at hm
        omega
      · rw [List.concat_eq_append] at hr
        have hi : r.find? i.key = some i := h.find?_eq_some.2 ⟨by simp [hr], rfl⟩
        have hik : i.key ≠ k := by
          intro hik
          rw [hik, hf] at hi
          cases hi
        have hdrop : (⟨k, v, now⟩ :: r.items : List (Item κ ν)).dropLast = ⟨k, v, now⟩ :: l := by
          rw [hr, ← List.cons_append, List.dropLast_concat]
        refine Or.inr ⟨i, ?_, hi, hik, ?_⟩
        · rw [hr, List.getLast?_cons, List.getLast?_append]
          simp
        · intro x
          rw [hdrop, ← h.find?_init hr]
          exact find?_cons { r with items := l } ⟨k, v, now⟩ x
    · simp only [hm, if_false]
      exact Or.inl ⟨trivial, fun x => find?_cons r ⟨k, v, now⟩ x⟩

theorem Distinct.insert (h : r.Distinct) (k : κ) (v : ν) (now : Nat) :
    (r.insert k v now).list.Distinct := by
  unfold Recency.insert
  cases hf : r.find? k with
  | some i => exact h.cons_without rfl
  | none =>
    have hk : k ∉ r.items.map (·.key) := by
      intro hk
      obtain ⟨i, hi, hik⟩ := List.mem_map.1 hk
      exact find?_eq_none.1 hf i hi hik
    have hd : Distinct { r with items := ⟨k, v, now⟩ :: r.items } := List.nodup_cons.2 ⟨hk, h⟩
    by_cases hm : 0 < r.maxSize ∧ r.maxSize < (⟨k, v, now⟩ :: r.items : List (Item κ ν)).length
    · simp only [hm, and_self, if_true]
      exact hd.sublist ((List.dropLast_sublist _).map _)
    · simp only [hm, if_false]
      exact hd

end Recency

end Overlay
