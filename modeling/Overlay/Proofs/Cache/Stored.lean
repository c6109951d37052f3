import Overlay.Proofs.Cache.Refinement

/-!
# What a cache stores

The item that a cache stores for a key, expired or not (`Cache.stored`), and what each operation does to it.
Nothing above this module looks at slots, links or lists: an operation of a sound cache is known by the
items that it leaves stored, by its answer, and by keeping the bounds of the cache (`Cache.bounds`).
-/

namespace Overlay

universe u v

namespace Cache

variable {κ : Type u} {ν : Type v} [DecidableEq κ] {c : Cache κ ν} {k x : κ} {v : ν} {now : Nat}

/-- The item of a key, expired or not. -/
def stored (c : Cache κ ν) (k : κ) : Option (Item κ ν) := c.recency.find? k

/-- The policy, the age at which items expire, and the most items that are kept. -/
def bounds (c : Cache κ ν) : ExpiryPolicy × Option Nat × Nat := (c.policy, c.ttl, c.maxSize)

def overdue (c : Cache κ ν) (i : Item κ ν) (now : Nat) : Bool := c.recency.expired i now

omit [DecidableEq κ] in
theorem overdue_eq (c : Cache κ ν) (i : Item κ ν) (now : Nat) :
    c.overdue i now = c.ttl.any fun ttl => ttl ≤ now - i.touchedAt := by
  have httl : c.recency.ttl = c.ttl := rfl
  unfold overdue Recency.expired
  rw [httl]
  cases c.ttl <;> rfl

theorem key_of_stored {i : Item κ ν} (h : c.stored k = some i) : i.key = k := Recency.key_of_find? h

theorem sound_empty (policy : ExpiryPolicy) (ttl : Option Nat) (maxSize : Nat) :
    Sound (empty policy ttl maxSize : Cache κ ν) := (reads_empty policy ttl maxSize).sound

theorem Reads.stored {r : Recency κ ν} (h : Reads c r) (k : κ) : c.stored k = r.find? k := by
  rw [Cache.stored, h.recency]

theorem Reads.bounds {r : Recency κ ν} (h : Reads c r) : c.bounds = (r.policy, r.ttl, r.maxSize) := by
  rw [← h.recency]
  rfl

/-! ### Look-ups -/

theorem peek_stored (h : Sound c) (k : κ) (now : Nat) :
    c.peek k now = (c.stored k).bind fun i => if c.overdue i now then none else some i.value :=
  peek_eq h k now

theorem contains_stored (h : Sound c) (k : κ) (now : Nat) :
    c.contains k now = (c.stored k).any fun i => !c.overdue i now := by
  rw [contains, peek_stored h]
  cases c.stored k with
  | none => rfl
  | some i => cases hi : c.overdue i now <;> simp [hi]

/-- A look-up drops an overdue item and leaves every other key alone. -/
theorem stored_get (h : Sound c) (k x : κ) (now : Nat) :
    (c.get k now).2.stored x =
      if x = k then
        (c.stored k).bind fun i => if c.overdue i now then none else some (c.recency.used i now)
      else c.stored x := by
  rw [(get_refines h k now).2.stored, Recency.find?_get]
  rfl

theorem get_fst (h : Sound c) (k : κ) (now : Nat) : (c.get k now).1 = c.peek k now :=
  (get_refines h k now).1

theorem Sound.get (h : Sound c) (k : κ) (now : Nat) : Sound (c.get k now).2 :=
  (get_refines h k now).2.sound

theorem bounds_get (h : Sound c) (k : κ) (now : Nat) : (c.get k now).2.bounds = c.bounds := by
  rw [(get_refines h k now).2.bounds, Recency.get]
  cases c.recency.find? k with
  | none => rfl
  | some i =>
    simp only
    split <;> rfl

omit [DecidableEq κ] in
theorem used_of_afterWrite (h : c.policy = .afterWrite) (i : Item κ ν) (now : Nat) :
    c.recency.used i now = i := by
  have hp : c.recency.policy ≠ .afterAccess := by
    show c.policy ≠ _
    rw [h]
    exact fun hh => by cases hh
  exact if_neg hp

omit [DecidableEq κ] in
theorem overdue_mono {i : Item κ ν} {moment : Nat} (hle : now ≤ moment) (h : c.overdue i now = true) :
    c.overdue i moment = true := by
  rw [overdue_eq] at h ⊢
  cases hb : c.ttl with
  | none =>
    rw [hb] at h
    cases h
  | some ttl =>
    rw [hb] at h
    simp only [Option.any_some, decide_eq_true_eq] at h ⊢
    omega

/-- Where age counts from insertion, a look-up is not noticed by any later one. -/
theorem peek_get (h : Sound c) (hp : c.policy = .afterWrite) {moment : Nat} (hle : now ≤ moment)
    (k x : κ) : (c.get k now).2.peek x moment = c.peek x moment := by
  have httl : (c.get k now).2.ttl = c.ttl := congrArg (·.2.1) (bounds_get h k now)
  have hover : ∀ i, (c.get k now).2.overdue i moment = c.overdue i moment := by
    intro i
    rw [overdue_eq, overdue_eq, httl]
  rw [peek_stored (h.get k now), peek_stored h, stored_get h]
  by_cases hx : x = k
  · subst hx
    rw [if_pos rfl]
    cases c.stored x with
    | none => rfl
    | some i =>
      cases ho : c.overdue i now with
      | true => simp [ho, overdue_mono hle ho]
      | false => simp [ho, used_of_afterWrite hp, hover]
  · rw [if_neg hx]
    simp only [hover]

/-! ### Changes -/

theorem stored_modify (h : Sound c) (k x : κ) (f : ν → ν) :
    (c.modify k f).stored x =
      if x = k then (c.stored x).map fun i => { i with value := f i.value } else c.stored x := by
  rw [(modify_refines h k f).stored, Recency.find?_modify]
  rfl

theorem Sound.modify (h : Sound c) (k : κ) (f : ν → ν) : Sound (c.modify k f) :=
  (modify_refines h k f).sound

theorem bounds_modify (h : Sound c) (k : κ) (f : ν → ν) : (c.modify k f).bounds = c.bounds :=
  (modify_refines h k f).bounds

/-! ### Insertion and removal -/

theorem stored_remove (h : Sound c) (k x : κ) :
    (c.remove k).2.stored x = if x = k then none else c.stored x := by
  rw [(remove_refines h k).2.stored]
  exact Recency.find?_without c.recency k x

theorem remove_fst (h : Sound c) (k : κ) : (c.remove k).1 = (c.stored k).map (·.value) :=
  (remove_refines h k).1

theorem Sound.remove (h : Sound c) (k : κ) : Sound (c.remove k).2 := (remove_refines h k).2.sound

theorem bounds_remove (h : Sound c) (k : κ) : (c.remove k).2.bounds = c.bounds :=
  (remove_refines h k).2.bounds

/-- An insertion stores the item, and hands out the item of another key or drops nothing. -/
theorem stored_insert (h : Sound c) (k : κ) (v : ν) (now : Nat) :
    ((c.insert k v now).evicted = none ∧
      ∀ x, (c.insert k v now).cache.stored x = if x = k then some ⟨k, v, now⟩ else c.stored x) ∨
    ∃ i, (c.insert k v now).evicted = some (i.key, i.value) ∧ c.stored i.key = some i ∧ i.key ≠ k ∧
      ∀ x, (c.insert k v now).cache.stored x =
        if x = k then some ⟨k, v, now⟩ else if x = i.key then none else c.stored x := by
  have hr := insert_refines h k v now
  rw [hr.1]
  rcases Recency.find?_insert (distinct_recency h) k v now with ⟨he, hx⟩ | ⟨i, he, hi, hk, hx⟩
  · exact Or.inl ⟨he, fun x => (hr.2.stored x).trans (hx x)⟩
  · exact Or.inr ⟨i, he, hi, hk, fun x => (hr.2.stored x).trans (hx x)⟩

theorem stored_insert_self (h : Sound c) (k : κ) (v : ν) (now : Nat) :
    (c.insert k v now).cache.stored k = some ⟨k, v, now⟩ := by
  rcases stored_insert h k v now with ⟨-, hx⟩ | ⟨i, -, -, -, hx⟩
  · rw [hx, if_pos rfl]
  · rw [hx, if_pos rfl]

theorem stored_of_insert {i : Item κ ν} (h : Sound c) (hx : x ≠ k)
    (hi : (c.insert k v now).cache.stored x = some i) : c.stored x = some i := by
  rcases stored_insert h k v now with ⟨-, hs⟩ | ⟨j, -, -, -, hs⟩
  · rwa [hs, if_neg hx] at hi
  · rw [hs, if_neg hx] at hi
    by_cases hj : x = j.key
    · rw [if_pos hj] at hi
      cases hi
    · rwa [if_neg hj] at hi

theorem Sound.insert (h : Sound c) (k : κ) (v : ν) (now : Nat) : Sound (c.insert k v now).cache :=
  (insert_refines h k v now).2.sound

theorem bounds_insert (h : Sound c) (k : κ) (v : ν) (now : Nat) :
    (c.insert k v now).cache.bounds = c.bounds := by
  rw [(insert_refines h k v now).2.bounds, Recency.insert]
  cases c.recency.find? k with
  | some i => rfl
  | none =>
    simp only
    split <;> rfl

theorem stored_takeExpired (h : Sound c) (now : Nat) (x : κ) :
    (c.takeExpired now).2.stored x = (c.stored x).filter fun i => !c.overdue i now := by
  rw [(takeExpired_refines h now).2.stored]
  exact Recency.find?_takeExpired (distinct_recency h) now x

theorem filter_map_item {l : List (Item κ ν)} (hd : (l.map (·.key)).Nodup) :
    (l.map fun i => (i.key, i.value)).filter (fun e => e.1 = x) =
      ((l.find? fun i => i.key = x).map fun i => (i.key, i.value)).toList := by
  induction l with
  | nil => rfl
  | cons i l ih =>
    obtain ⟨hi, hd⟩ := List.nodup_cons.1 hd
    rw [List.map_cons, List.filter_cons, List.find?_cons, ih hd]
    by_cases hx : i.key = x
    · have hn : l.find? (fun i => i.key = x) = none := by
        rw [List.find?_eq_none]
        intro j hj hjx
        exact hi (List.mem_map.2 ⟨j, hj, (of_decide_eq_true hjx).trans hx.symm⟩)
      simp [hx, hn]
    · simp [hx]

/-- What a sweep hands out for a key: the overdue item of that key, once. -/
theorem filter_takeExpired (h : Sound c) (now : Nat) (x : κ) :
    (c.takeExpired now).1.filter (fun e => e.1 = x) =
      (((c.stored x).filter fun i => c.overdue i now).map fun i => (i.key, i.value)).toList := by
  have hd := distinct_recency h
  have hperm := (takeExpired_refines h now).1.filter fun e => e.1 = x
  have hgone : (c.recency.takeExpired now).1.find? (fun i => i.key = x) =
      (c.stored x).filter fun i => c.overdue i now := hd.find?_filter _ x
  have hkeys : ((c.recency.takeExpired now).1.map (·.key)).Nodup :=
    hd.sublist (List.filter_sublist.map _)
  rw [filter_map_item hkeys, hgone] at hperm
  cases hs : ((c.stored x).filter fun i => c.overdue i now) with
  | none =>
    rw [hs] at hperm
    exact List.perm_nil.1 hperm
  | some i =>
    rw [hs] at hperm
    exact List.perm_singleton.1 hperm

theorem Sound.takeExpired (h : Sound c) (now : Nat) : Sound (c.takeExpired now).2 :=
  (takeExpired_refines h now).2.sound

theorem bounds_takeExpired (h : Sound c) (now : Nat) : (c.takeExpired now).2.bounds = c.bounds :=
  (takeExpired_refines h now).2.bounds

/-- A sweep is not noticed by any look-up. -/
theorem peek_takeExpired (h : Sound c) (now : Nat) (x : κ) : (c.takeExpired now).2.peek x now = c.peek x now := by
  have httl : (c.takeExpired now).2.ttl = c.ttl := congrArg (·.2.1) (bounds_takeExpired h now)
  have hover : ∀ i, (c.takeExpired now).2.overdue i now = c.overdue i now := by
    intro i
    rw [overdue_eq, overdue_eq, httl]
  rw [peek_stored (h.takeExpired now), peek_stored h, stored_takeExpired h]
  cases c.stored x with
  | none => rfl
  | some i => cases ho : c.overdue i now <;> simp [Option.filter, ho, hover]

theorem peek_modify (h : Sound c) (k : κ) (f : ν → ν) (now : Nat) :
    (c.modify k f).peek k now = (c.peek k now).map f := by
  have httl : (c.modify k f).ttl = c.ttl := congrArg (·.2.1) (bounds_modify h k f)
  rw [peek_stored (h.modify k f), peek_stored h, stored_modify h, if_pos rfl]
  simp only [overdue_eq, httl]
  cases c.stored k with
  | none => rfl
  | some i =>
    simp only [Option.map_some, Option.bind_some]
    split <;> rfl

end Cache

end Overlay
