/-!
# Tables

A table holds at most one value for each key, in the order in which the keys came.  That no key occurs
twice is part of the type.  Each operation is described by what it does to look-ups: `get?_insert`,
`get?_modify`, `get?_erase`, `get?_filter`.
-/

namespace Overlay

universe u v w

/-- At most one value for each key, in the order in which the keys came. -/
@[ext]
structure Table (κ : Type u) (ν : Type v) where
  entries : List (κ × ν)
  nodup : (entries.map Prod.fst).Nodup

namespace Table

variable {κ : Type u} {ν : Type v} {μ : Type w} [DecidableEq κ]

def empty : Table κ ν := ⟨[], List.nodup_nil⟩

instance : Inhabited (Table κ ν) := ⟨empty⟩

instance [DecidableEq ν] : DecidableEq (Table κ ν) := fun a b =>
  decidable_of_iff (a.entries = b.entries) ⟨Table.ext, fun h => h ▸ rfl⟩

def keys (t : Table κ ν) : List κ := t.entries.map Prod.fst

def size (t : Table κ ν) : Nat := t.entries.length

def find (k : κ) : List (κ × ν) → Option ν
  | [] => none
  | e :: r => if e.1 = k then some e.2 else find k r

def get? (t : Table κ ν) (k : κ) : Option ν := find k t.entries

def contains (t : Table κ ν) (k : κ) : Bool := (t.get? k).isSome

/-! ## Insertion -/

/-- Entries with a value set: in the place of the key's old value, or at the end. -/
def place (k : κ) (v : ν) : List (κ × ν) → List (κ × ν)
  | [] => [(k, v)]
  | e :: r => if e.1 = k then (k, v) :: r else e :: place k v r

theorem mem_keys_place {k x : κ} {v : ν} {l : List (κ × ν)} :
    x ∈ (place k v l).map Prod.fst ↔ x = k ∨ x ∈ l.map Prod.fst := by
  induction l with
  | nil => simp [place]
  | cons e r ih =>
    by_cases h : e.1 = k
    · simp [place, h]
    · simp only [place, h, if_false, List.map_cons, List.mem_cons, ih]
      constructor
      · rintro (h | h | h) <;> simp [h]
      · rintro (h | h | h) <;> simp [h]

theorem nodup_place {k : κ} {v : ν} {l : List (κ × ν)} (h : (l.map Prod.fst).Nodup) :
    ((place k v l).map Prod.fst).Nodup := by
  induction l with
  | nil => simp [place]
  | cons e r ih =>
    simp only [List.map_cons, List.nodup_cons] at h
    by_cases he : e.1 = k
    · simp only [place, he, if_true, List.map_cons, List.nodup_cons]
      exact ⟨he ▸ h.1, h.2⟩
    · simp only [place, he, if_false, List.map_cons, List.nodup_cons]
      refine ⟨fun hm => ?_, ih h.2⟩
      rcases mem_keys_place.1 hm with hk | hk
      · exact he hk
      · exact h.1 hk

def insert (t : Table κ ν) (k : κ) (v : ν) : Table κ ν := ⟨place k v t.entries, nodup_place t.nodup⟩

/-- The table with the given entries; a later entry of a key replaces the earlier value. -/
def ofList (l : List (κ × ν)) : Table κ ν := l.foldl (fun t e => t.insert e.1 e.2) empty

/-! ## Other operations -/

def mapValues (t : Table κ ν) (f : κ → ν → μ) : Table κ μ :=
  ⟨t.entries.map fun e => (e.1, f e.1 e.2), by
    have h : ((t.entries.map fun e => (e.1, f e.1 e.2)).map Prod.fst) = t.entries.map Prod.fst := by
      simp [List.map_map, Function.comp_def]
    rw [h]
    exact t.nodup⟩

def modify (t : Table κ ν) (k : κ) (f : ν → ν) : Table κ ν :=
  t.mapValues fun x v => if x = k then f v else v

def filter (t : Table κ ν) (p : κ → ν → Bool) : Table κ ν :=
  ⟨t.entries.filter fun e => p e.1 e.2,
    t.nodup.sublist ((List.filter_sublist (p := fun e : κ × ν => p e.1 e.2)).map Prod.fst)⟩

def erase (t : Table κ ν) (k : κ) : Table κ ν := t.filter fun x _ => x ≠ k

/-! ## Look-ups -/

theorem find_place (k x : κ) (v : ν) (l : List (κ × ν)) :
    find x (place k v l) = if x = k then some v else find x l := by
  induction l with
  | nil => by_cases h : k = x <;> simp [place, find, h, eq_comm]
  | cons e r ih =>
    by_cases he : e.1 = k
    · by_cases hx : x = k
      · simp [place, find, he, hx]
      · have hx' : ¬ k = x := fun h => hx h.symm
        simp [place, find, he, hx, hx']
    · by_cases hx : e.1 = x
      · have hxk : ¬ x = k := fun h => he (hx.trans h)
        simp [place, find, hx, hxk]
      · simp [place, find, he, hx, ih]

theorem get?_insert (t : Table κ ν) (k x : κ) (v : ν) :
    (t.insert k v).get? x = if x = k then some v else t.get? x := find_place k x v t.entries

theorem get?_mapValues (f : κ → ν → μ) (t : Table κ ν) (x : κ) :
    (t.mapValues f).get? x = (t.get? x).map (f x) := by
  obtain ⟨l, hl⟩ := t
  simp only [get?, mapValues]
  clear hl
  induction l with
  | nil => rfl
  | cons e r ih =>
    by_cases h : e.1 = x
    · simp [find, h]
    · simp [find, h, ih]

theorem get?_modify (t : Table κ ν) (k x : κ) (f : ν → ν) :
    (t.modify k f).get? x = if x = k then (t.get? x).map f else t.get? x := by
  rw [modify, get?_mapValues]
  by_cases h : x = k <;> simp [h]

theorem find_eq_none {x : κ} {l : List (κ × ν)} : find x l = none ↔ x ∉ l.map Prod.fst := by
  induction l with
  | nil => simp [find]
  | cons e r ih =>
    by_cases h : e.1 = x
    · simp [find, h]
    · have h' : ¬ x = e.1 := fun hx => h hx.symm
      simp only [find, h, if_false, ih, List.map_cons, List.mem_cons, h', false_or]

theorem get?_filter (p : κ → ν → Bool) (t : Table κ ν) (x : κ) :
    (t.filter p).get? x = (t.get? x).filter (p x) := by
  obtain ⟨l, hl⟩ := t
  simp only [get?, filter]
  induction l with
  | nil => rfl
  | cons e r ih =>
    simp only [List.map_cons, List.nodup_cons] at hl
    by_cases h : e.1 = x
    · subst h
      by_cases hp : p e.1 e.2
      · simp [find, Option.filter, hp]
      · have hn : find e.1 r = none := find_eq_none.2 hl.1
        simp [find, Option.filter, hp, ih hl.2, hn]
    · by_cases hp : p e.1 e.2
      · simp [find, hp, h, ih hl.2]
      · simp [find, hp, h, ih hl.2]

theorem mem_of_find {x : κ} {v : ν} {l : List (κ × ν)} (h : find x l = some v) : (x, v) ∈ l := by
  induction l with
  | nil => cases h
  | cons e r ih =>
    rw [find] at h
    split at h
    · rename_i he
      cases h
      rw [← he]
      exact List.mem_cons_self
    · exact List.mem_cons_of_mem e (ih h)

theorem find_of_mem {e : κ × ν} {l : List (κ × ν)} (hl : (l.map Prod.fst).Nodup) (h : e ∈ l) :
    find e.1 l = some e.2 := by
  induction l with
  | nil => cases h
  | cons e' r ih =>
    rw [List.map_cons, List.nodup_cons] at hl
    rcases List.mem_cons.1 h with rfl | hr
    · exact if_pos rfl
    · have hne : e'.1 ≠ e.1 := fun he => hl.1 (he ▸ List.mem_map_of_mem hr)
      rw [find, if_neg hne, ih hl.2 hr]

theorem mem_entries {t : Table κ ν} {e : κ × ν} : e ∈ t.entries ↔ t.get? e.1 = some e.2 :=
  ⟨find_of_mem t.nodup, mem_of_find⟩

theorem get?_erase (t : Table κ ν) (k x : κ) :
    (t.erase k).get? x = if x = k then none else t.get? x := by
  rw [erase, get?_filter]
  by_cases h : x = k <;> cases t.get? x <;> simp [h, Option.filter]

/-! ## Size -/

theorem place_of_notMem {k : κ} {v : ν} {l : List (κ × ν)} (h : k ∉ l.map Prod.fst) :
    place k v l = l ++ [(k, v)] := by
  induction l with
  | nil => rfl
  | cons e r ih =>
    simp only [List.map_cons, List.mem_cons, not_or] at h
    rw [place, if_neg (Ne.symm h.1), ih h.2, List.cons_append]

theorem size_insert {t : Table κ ν} {k : κ} (h : t.get? k = none) (v : ν) :
    (t.insert k v).size = t.size + 1 := by
  have hk := place_of_notMem (v := v) (find_eq_none.1 h)
  simp [size, insert, hk]

theorem size_insert_known {t : Table κ ν} {k : κ} {v : ν} (h : t.get? k = some v) (v' : ν) :
    (t.insert k v').size = t.size := by
  obtain ⟨l, hl⟩ := t
  simp only [get?, insert, size] at h ⊢
  clear hl
  induction l with
  | nil => cases h
  | cons e r ih =>
    by_cases he : e.1 = k
    · rw [place, if_pos he, List.length_cons, List.length_cons]
    · rw [find, if_neg he] at h
      rw [place, if_neg he, List.length_cons, List.length_cons, ih h]

theorem size_erase {t : Table κ ν} {k : κ} {v : ν} (h : t.get? k = some v) :
    (t.erase k).size + 1 = t.size := by
  have hmem : k ∈ t.entries.map Prod.fst := by
    refine Decidable.byContradiction fun hk => ?_
    rw [get?, find_eq_none.2 hk] at h
    cases h
  have hkeys : (t.erase k).entries.map Prod.fst = (t.entries.map Prod.fst).erase k := by
    rw [t.nodup.erase_eq_filter, List.filter_map, erase, filter]
    congr 1
    exact List.filter_congr fun e _ => by by_cases he : e.1 = k <;> simp [he]
  have hlen := congrArg List.length hkeys
  have hpos := List.length_pos_of_mem hmem
  rw [List.length_erase_of_mem hmem, List.length_map, List.length_map] at hlen
  rw [List.length_map] at hpos
  simp only [size]
  omega

end Table

end Overlay
