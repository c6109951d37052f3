import Mathlib.Data.Finset.Card
import Overlay.Proofs.Cache.Ahead
import Overlay.Proofs.Cache.Bounded

/-!
# What was inserted lately

A bounded cache whose ages count from the insertion can serve as the memory of what was done lately.  What such a
memory is worth is told by the log of all insertions, each with its moment: a key is `Free` if, however lately it was
inserted, as many other keys as there is room for have been inserted since.  The cache lacks exactly the keys that
are free (`Remembers.contains_eq_false`).

The invariant `Remembers` compares what stands ahead of a stored key with what the log has since.  Nothing else is
ahead (`kept`), so the key is not forced out before its time; all of it is ahead (`logged`), so the key is forced out
once there is too much of it.  Insertions and sweeps keep the invariant while the clock is not set back.
-/

namespace Overlay

universe u v

variable {κ : Type u} {π : Type v} [DecidableEq κ] [DecidableEq π]

/-- How many keys other than one a part of a log has. -/
def others (k : κ) (log : List (Nat × κ)) : Nat := ((log.map Prod.snd).toFinset.erase k).card

/-- A key was not inserted within the interval, or so many others were inserted since that there is no room for it. -/
def Free (interval room : Nat) (log : List (Nat × κ)) (k : κ) (now : Nat) : Prop :=
  ∀ before t since, log = before ++ (t, k) :: since → now - t < interval → room ≤ others k since

theorem others_le {k : κ} {since : List (Nat × κ)} {l : List κ} (h : since.map Prod.snd ⊆ l) :
    others k since ≤ l.length := by
  refine (Finset.card_le_card fun x hx => ?_).trans l.toFinset_card_le
  exact List.mem_toFinset.2 (h (List.mem_toFinset.1 (Finset.mem_of_mem_erase hx)))

theorem others_le_append (k : κ) (since later : List (Nat × κ)) : others k since ≤ others k (since ++ later) := by
  refine Finset.card_le_card (Finset.erase_subset_erase k fun x hx => ?_)
  rw [List.map_append, List.toFinset_append]
  exact Finset.mem_union_left _ hx

omit [DecidableEq κ] in
/-- In a log in order of time, what stands before an entry is not later, and what stands after it is not earlier. -/
theorem ordered_split {before since : List (Nat × κ)} {t : Nat} {k : κ}
    (h : ((before ++ (t, k) :: since).map Prod.fst).Pairwise (· ≤ ·)) :
    (∀ e ∈ before, e.1 ≤ t) ∧ ∀ e ∈ since, t ≤ e.1 := by
  rw [List.pairwise_map, List.pairwise_append, List.pairwise_cons] at h
  exact ⟨fun e he => h.2.2 e he _ List.mem_cons_self, h.2.1.1⟩

/-- Keys may go by other names, as long as different keys have different names. -/
theorem free_map {f : π → κ} (hf : Function.Injective f) {interval room : Nat} {log : List (Nat × π)} {k : π}
    {now : Nat} : Free interval room (log.map (Prod.map id f)) (f k) now ↔ Free interval room log k now := by
  have hothers : ∀ since : List (Nat × π), others (f k) (since.map (Prod.map id f)) = others k since := by
    intro since
    have hnames : ((since.map (Prod.map id f)).map Prod.snd).toFinset = (since.map Prod.snd).toFinset.image f := by
      rw [List.map_map, show Prod.snd ∘ Prod.map id f = f ∘ Prod.snd from rfl, ← List.map_map]
      exact Multiset.toFinset_map f (since.map Prod.snd : List π)
    rw [others, hnames, ← Finset.image_erase hf, Finset.card_image_of_injective _ hf, others]
  constructor
  · rintro h before t since rfl hlate
    rw [← hothers]
    exact h (before.map (Prod.map id f)) t _ (by simp) hlate
  · intro h before t since hlog hlate
    obtain ⟨before, rest, rfl, rfl, hrest⟩ := List.map_eq_append_iff.1 hlog
    obtain ⟨⟨t', k'⟩, since, rfl, hkey, rfl⟩ := List.map_eq_cons_iff.1 hrest
    obtain ⟨rfl, hk⟩ := Prod.mk.inj hkey
    obtain rfl := hf hk
    rw [hothers]
    exact h before t' since rfl hlate

namespace Cache

variable {ν : Type v} {c : Cache κ ν} {interval room now moment : Nat} {log : List (Nat × κ)} {k : κ} {v : ν}

/-- A cache that remembers the insertions of a log, for an interval and up to a number. -/
structure Remembers (c : Cache κ ν) (interval room : Nat) (log : List (Nat × κ)) (now : Nat) : Prop where
  sound : Sound c
  bounded : Bounded c
  bounds : c.bounds = (.afterWrite, some interval, room)
  ordered : (log.map Prod.fst).Pairwise (· ≤ ·)
  past : ∀ e ∈ log, e.1 ≤ now
  /-- What was inserted lately is stored, and only what was inserted since stands ahead of it. -/
  kept : ∀ before t k since, log = before ++ (t, k) :: since → now - t < interval → others k since < room →
    ∃ i, c.stored k = some i ∧ t ≤ i.touchedAt ∧ c.ahead k ⊆ since.map Prod.snd
  /-- What is stored was inserted, and all that was inserted since stands ahead of it. -/
  logged : ∀ k i, c.stored k = some i →
    ∃ before since, log = before ++ (i.touchedAt, k) :: since ∧ since.map Prod.snd ⊆ c.ahead k

theorem remembers_empty (interval room now : Nat) :
    Remembers (empty .afterWrite (some interval) room : Cache κ ν) interval room [] now where
  sound := sound_empty _ _ _
  bounded := bounded_empty _ _ _
  bounds := rfl
  ordered := .nil
  past _ h := absurd h List.not_mem_nil
  kept before t k since h := absurd h.symm (List.append_ne_nil_of_right_ne_nil _ (List.cons_ne_nil _ _))
  logged k i h := by
    rw [(reads_empty _ _ _).stored] at h
    cases h

namespace Remembers

theorem overdue_iff (h : Remembers c interval room log now) {i : Item κ ν} :
    c.overdue i moment = true ↔ interval ≤ moment - i.touchedAt := by
  have httl : c.ttl = some interval := congrArg (·.2.1) h.bounds
  rw [overdue_eq, httl]
  exact decide_eq_true_iff

theorem later (h : Remembers c interval room log now) (hle : now ≤ moment) :
    Remembers c interval room log moment where
  sound := h.sound
  bounded := h.bounded
  bounds := h.bounds
  ordered := h.ordered
  past e he := Nat.le_trans (h.past e he) hle
  kept before t k since hlog hlate := h.kept before t k since hlog (by omega)
  logged := h.logged

theorem maxSize_eq (h : Remembers c interval room log now) : c.maxSize = room := congrArg (·.2.2) h.bounds

/-- **The keys that a cache lacks are those that are free.** -/
theorem contains_eq_false (h : Remembers c interval room log now) (hroom : 0 < room) :
    c.contains k now = false ↔ Free interval room log k now := by
  rw [contains_stored h.sound]
  constructor
  · intro hlacks before t since hlog hlate
    by_contra hfew
    obtain ⟨i, hi, hle, -⟩ := h.kept before t k since hlog hlate (Nat.lt_of_not_le hfew)
    have hover : c.overdue i now = true := by simpa [hi] using hlacks
    have hlong := h.overdue_iff.1 hover
    omega
  · intro hfree
    cases hi : c.stored k with
    | none => rfl
    | some i =>
      obtain ⟨before, since, hlog, hahead⟩ := h.logged k i hi
      have hover : c.overdue i now = true := by
        by_contra hfresh
        have hlate : now - i.touchedAt < interval := Nat.lt_of_not_le fun hlong => hfresh (h.overdue_iff.2 hlong)
        have hmany : room ≤ others k since := hfree before i.touchedAt since hlog hlate
        have hothers : others k since ≤ (c.ahead k).length := others_le hahead
        have hless : (c.ahead k).length < c.recency.items.length := length_ahead_lt hi
        have hfits : c.recency.items.length ≤ c.maxSize := h.bounded.list (Nat.lt_of_lt_of_eq hroom h.maxSize_eq.symm)
        rw [h.maxSize_eq] at hfits
        omega
      simp [hover]

/-! ### Operations -/

theorem kept_insert (h : Remembers c interval room log now) (k : κ) (v : ν) {before since : List (Nat × κ)} {t : Nat}
    {x : κ} (hlog : log ++ [(now, k)] = before ++ (t, x) :: since) (hlate : now - t < interval)
    (hfew : others x since < room) : ∃ i, (c.insert k v now).cache.stored x = some i ∧ t ≤ i.touchedAt ∧
      (c.insert k v now).cache.ahead x ⊆ since.map Prod.snd := by
  have hself : ∀ t ≤ now, ∃ i, (c.insert k v now).cache.stored k = some i ∧ t ≤ i.touchedAt ∧
      (c.insert k v now).cache.ahead k ⊆ since.map Prod.snd := by
    intro t ht
    refine ⟨⟨k, v, now⟩, stored_insert_self h.sound k v now, ht, ?_⟩
    rw [ahead_insert_self h.sound]
    exact List.nil_subset _
  rcases List.eq_nil_or_concat since with rfl | ⟨since, e, rfl⟩
  · obtain ⟨-, heq⟩ := List.append_inj' hlog rfl
    cases heq
    exact hself now (Nat.le_refl now)
  rw [List.concat_eq_append, ← List.cons_append, ← List.append_assoc] at hlog
  obtain ⟨rfl, heq⟩ := List.append_inj' hlog rfl
  cases heq
  by_cases hx : k = x
  · subst hx
    exact hself t (h.past _ (List.mem_append_right _ List.mem_cons_self))
  rw [List.concat_eq_append] at hfew ⊢
  obtain ⟨i, hi, hle, hahead⟩ :=
    h.kept before t x since rfl hlate (Nat.lt_of_le_of_lt (others_le_append x since _) hfew)
  -- The keys inserted since, the new one included, are all that the insertion can put in front.
  let few := (((since ++ [(now, k)]).map Prod.snd).toFinset.erase x).toList
  have hk : k ∈ few := by simp [few, hx]
  have hsince : c.ahead x ⊆ few := by
    intro y hy
    have hyx : y ≠ x := fun heq => notMem_ahead c x (heq ▸ hy)
    have hmem := hahead hy
    simp only [few, Finset.mem_toList, Finset.mem_erase, List.mem_toFinset, List.map_append, List.mem_append]
    exact ⟨hyx, .inl hmem⟩
  have hlength : few.length < c.maxSize := by
    rw [Finset.length_toList, h.maxSize_eq]
    exact hfew
  refine ⟨i, stored_insert_of_few h.sound hi hx hk hsince (fun _ => hlength) v now, hle, ?_⟩
  intro y hy
  rw [List.map_append, List.mem_append]
  rcases List.mem_cons.1 (ahead_insert h.sound hx v now hy) with rfl | hy
  · exact .inr List.mem_cons_self
  · exact .inl (hahead hy)

theorem logged_insert (h : Remembers c interval room log now) (k : κ) (v : ν) {x : κ} {i : Item κ ν}
    (hi : (c.insert k v now).cache.stored x = some i) : ∃ before since,
      log ++ [(now, k)] = before ++ (i.touchedAt, x) :: since ∧
        since.map Prod.snd ⊆ (c.insert k v now).cache.ahead x := by
  by_cases hx : x = k
  · subst hx
    rw [stored_insert_self h.sound] at hi
    cases hi
    exact ⟨log, [], rfl, List.nil_subset _⟩
  · obtain ⟨before, since, rfl, hsince⟩ := h.logged x i (stored_of_insert h.sound hx hi)
    have hahead := ahead_subset_insert h.sound (Ne.symm hx) hi
    refine ⟨before, since ++ [(now, k)], List.append_assoc _ _ _, ?_⟩
    intro y hy
    rw [List.map_append, List.mem_append] at hy
    rcases hy with hy | hy
    · exact hahead (List.mem_cons_of_mem _ (hsince hy))
    · rw [List.mem_singleton.1 hy]
      exact hahead List.mem_cons_self

theorem insert (h : Remembers c interval room log now) (k : κ) (v : ν) :
    Remembers (c.insert k v now).cache interval room (log ++ [(now, k)]) now where
  sound := h.sound.insert k v now
  bounded := h.bounded.insert h.sound k v now
  bounds := (bounds_insert h.sound k v now).trans h.bounds
  ordered := by
    rw [List.map_append, List.pairwise_append]
    refine ⟨h.ordered, List.pairwise_singleton _ _, ?_⟩
    intro t ht u hu
    obtain ⟨e, he, rfl⟩ := List.mem_map.1 ht
    rw [List.mem_singleton.1 hu]
    exact h.past e he
  past e he := by
    rcases List.mem_append.1 he with he | he
    · exact h.past e he
    · rw [List.mem_singleton.1 he]
  kept _ _ _ _ := h.kept_insert k v
  logged _ _ := h.logged_insert k v

theorem takeExpired (h : Remembers c interval room log now) :
    Remembers (c.takeExpired now).2 interval room log now where
  sound := h.sound.takeExpired now
  bounded := h.bounded.takeExpired h.sound now
  bounds := (bounds_takeExpired h.sound now).trans h.bounds
  ordered := h.ordered
  past := h.past
  kept before t k since hlog hlate hfew := by
    obtain ⟨i, hi, hle, hahead⟩ := h.kept before t k since hlog hlate hfew
    have hfresh : c.overdue i now = false := by
      refine Bool.eq_false_iff.2 fun hover => ?_
      have hlong := h.overdue_iff.1 hover
      omega
    refine ⟨i, ?_, hle, fun y hy => hahead ((mem_ahead_takeExpired h.sound hi hfresh).1 hy).1⟩
    rw [stored_takeExpired h.sound, hi]
    simp [hfresh]
  logged k i hi := by
    rw [stored_takeExpired h.sound] at hi
    obtain ⟨hi, hfresh⟩ := Option.filter_eq_some_iff.1 hi
    have hfresh : c.overdue i now = false := by simpa using hfresh
    obtain ⟨before, since, hlog, hahead⟩ := h.logged k i hi
    refine ⟨before, since, hlog, ?_⟩
    intro y hy
    refine (mem_ahead_takeExpired h.sound hi hfresh).2 ⟨hahead hy, fun j hj => ?_⟩
    -- The other key was inserted later, so it has not expired either.
    obtain ⟨⟨u, y⟩, hu, rfl⟩ := List.mem_map.1 hy
    obtain ⟨before', since', hlog', hahead'⟩ := h.logged y j hj
    have hafter : i.touchedAt ≤ u := (ordered_split (hlog ▸ h.ordered)).2 _ hu
    have hlast : u ≤ j.touchedAt := by
      have hmem : (u, y) ∈ log := hlog ▸ List.mem_append_right _ (List.mem_cons_of_mem _ hu)
      rw [hlog'] at hmem
      rcases List.mem_append.1 hmem with hmem | hmem
      · exact (ordered_split (hlog' ▸ h.ordered)).1 _ hmem
      rcases List.mem_cons.1 hmem with heq | hmem
      · exact Nat.le_of_eq (Prod.mk.inj heq).1
      · exact absurd (hahead' (List.mem_map_of_mem hmem)) (notMem_ahead c y)
    refine Bool.eq_false_iff.2 fun hover => ?_
    have hlong := h.overdue_iff.1 hover
    have hshort : ¬ interval ≤ now - i.touchedAt := fun hle => by
      rw [h.overdue_iff.2 hle] at hfresh
      cases hfresh
    omega

end Remembers

end Cache

end Overlay
