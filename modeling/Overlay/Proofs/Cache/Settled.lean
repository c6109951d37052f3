import Overlay.Proofs.Cache.Stored

/-!
# Looking up again

A key that was found is found again at the same moment, and then nothing in the cache changes, not even a link
(`Settled.get`): its entry is in front already, and its age counts from this moment, or is not counted anew.  The links
are those that the order of the slots spells, so two caches that agree on that order and on everything else are the same
(`Laid.eq_of_relinked`).

Neither does it matter when the value changes in between (`Settled.modify`).
-/

namespace Overlay

universe u v

namespace Cache

variable {κ : Type u} {ν : Type v} {c d : Cache κ ν} {order : List Nat} {s : Nat}

theorem entry_ext {e e' : CacheEntry κ ν} (hitem : e.item = e'.item) (hnewer : e.newer = e'.newer)
    (holder : e.older = e'.older) : e = e' := by
  cases e
  cases e'
  cases hitem
  cases hnewer
  cases holder
  rfl

theorem slots_ext (hlength : d.slots.length = c.slots.length) (h : ∀ x, d.entryAt x = c.entryAt x) :
    d.slots = c.slots := by
  refine List.ext_getElem hlength fun x hd hc => ?_
  have hx := h x
  rwa [entryAt, entryAt, List.getElem?_eq_getElem hd, List.getElem?_eq_getElem hc, Option.join_some,
    Option.join_some] at hx

theorem changeAt_self {e : CacheEntry κ ν} {f : CacheEntry κ ν → CacheEntry κ ν} (he : c.entryAt s = some e)
    (hf : f e = e) : c.changeAt s f = c := by
  have hslots : (c.changeAt s f).slots = c.slots := by
    refine slots_ext (List.length_modify _ _ _) fun x => ?_
    rw [entryAt_changeAt]
    split
    · rename_i hx
      rw [← hx, he, Option.map_some, hf]
    · rfl
  exact congrArg (fun slots => { c with slots := slots }) hslots

variable [DecidableEq κ]

/-- **The order of the slots determines the links.** -/
theorem Laid.eq_of_relinked (h : Laid c order) (hd : Laid d order) (hr : Relinked c d) : d = c := by
  have hentry : ∀ x, d.entryAt x = c.entryAt x := by
    intro x
    by_cases hx : x ∈ order
    · obtain ⟨l₁, l₂, rfl⟩ := List.append_of_mem hx
      obtain ⟨e, he, hnewer, holder⟩ := h.arranged.linked l₁ x l₂ rfl
      obtain ⟨e', he', hnewer', holder'⟩ := hd.arranged.linked l₁ x l₂ rfl
      have hitem := hr.content x
      rw [contentAt, contentAt, he, he'] at hitem
      rw [he, he', entry_ext (Option.some.inj hitem) (hnewer'.trans hnewer.symm) (holder'.trans holder.symm)]
    · have hempty : c.contentAt x = none :=
        Option.eq_none_iff_forall_ne_some.2 fun i hi => hx (h.stocked.occupied x i hi)
      rw [contentAt_eq_none.1 hempty, contentAt_eq_none.1 ((hr.content x).trans hempty)]
  have hslots := slots_ext hr.length hentry
  have hnewest := hd.arranged.newest.trans h.arranged.newest.symm
  have holdest := hd.arranged.oldest.trans h.arranged.oldest.symm
  obtain ⟨-, -, hfree, hindex, hpolicy, httl, hmax⟩ := hr
  cases c
  cases d
  cases hslots
  cases hnewest
  cases holdest
  cases hfree
  cases hindex
  cases hpolicy
  cases httl
  cases hmax
  rfl

theorem Laid.moveToFront_newest (h : Laid c (s :: order)) : c.moveToFront s = c := by
  have hsplit : Laid c ([] ++ s :: order) := h
  exact h.eq_of_relinked hsplit.moveToFront (relinked_moveToFront c s)

/-! ### Keys that were just found -/

/-- The entry of a key is in front, has not expired, and its age counts from this moment if it counts from the last
look-up. -/
def Settled (c : Cache κ ν) (k : κ) (now : Nat) (v : ν) : Prop :=
  ∃ s order e, Laid c (s :: order) ∧ c.index.get? k = some s ∧ c.entryAt s = some e ∧ e.value = v ∧
    c.expired e now = false ∧ (c.policy = .afterAccess → e.touchedAt = now)

variable {k : κ} {now : Nat} {v : ν}

/-- **What was just found is found again, and nothing changes.** -/
theorem Settled.get (h : Settled c k now v) : c.get k now = (some v, c) := by
  obtain ⟨s, order, e, hlaid, hs, he, rfl, hlive, hage⟩ := h
  rw [Cache.get, hs]
  simp only [he, hlive, Bool.false_eq_true, if_false, hlaid.moveToFront_newest]
  split
  · rename_i hpolicy
    have hstamp : c.stamp s now = c := changeAt_self he (by rw [← hage hpolicy])
    rw [hstamp]
  · rfl

theorem Settled.peek (h : Settled c k now v) : c.peek k now = some v := by
  obtain ⟨s, order, e, -, hs, he, rfl, hlive, -⟩ := h
  rw [Cache.peek, hs, Option.bind_some, he, Option.bind_some, hlive]
  rfl

theorem Settled.modify (h : Settled c k now v) (f : ν → ν) : Settled (c.modify k f) k now (f v) := by
  obtain ⟨s, order, e, hlaid, hs, he, rfl, hlive, hage⟩ := h
  rw [Cache.modify, hs]
  refine ⟨s, order, { e with value := f e.value }, hlaid.changeAt (inPlace_value f) s, hs, ?_, rfl, hlive, hage⟩
  rw [changeAt?, entryAt_changeAt, if_pos rfl, he, Option.map_some]

theorem Settled.modify_self (h : Settled c k now v) : c.modify k (fun _ => v) = c := by
  obtain ⟨s, order, e, -, hs, he, rfl, -⟩ := h
  rw [Cache.modify, hs]
  exact changeAt_self he rfl

theorem Settled.sound (h : Settled c k now v) : Sound c := by
  obtain ⟨s, order, -, hlaid, -⟩ := h
  exact ⟨s :: order, hlaid⟩

/-- A key that is found has settled then. -/
theorem settled_get (h : Sound c) (hv : c.peek k now = some v) : Settled (c.get k now).2 k now v := by
  obtain ⟨order, h⟩ := h
  obtain ⟨s, hs, hv⟩ := Option.bind_eq_some_iff.1 hv
  obtain ⟨l₁, l₂, e, rfl, he, -⟩ := h.split hs
  rw [he, Option.bind_some] at hv
  cases hlive : c.expired e now with
  | true =>
    rw [hlive] at hv
    cases hv
  | false =>
    rw [hlive] at hv
    obtain rfl : e.value = v := Option.some.inj hv
    have hr := relinked_moveToFront c s
    -- The entry has new links and nothing else.
    have hcontent : (c.moveToFront s).contentAt s = some e.item :=
      (hr.content s).trans (contentAt_eq_some.2 ⟨e, he, rfl⟩)
    obtain ⟨e', he', hitem⟩ := contentAt_eq_some.1 hcontent
    have hvalue : e'.value = e.value := congrArg Item.value hitem
    have hage : e'.touchedAt = e.touchedAt := congrArg Item.touchedAt hitem
    have hindex : (c.moveToFront s).index.get? k = some s := by rw [hr.index, hs]
    have hlater : ∀ i : CacheEntry κ ν, i.touchedAt = e.touchedAt ∨ i.touchedAt = now →
        (c.moveToFront s).expired i now = false := by
      intro i hi
      unfold expired at hlive ⊢
      rw [hr.ttl]
      cases hb : c.ttl with
      | none => rfl
      | some ttl =>
        rw [hb] at hlive
        rw [decide_eq_false_iff_not] at hlive ⊢
        omega
    rw [Cache.get, hs]
    simp only [he, hlive, Bool.false_eq_true, if_false]
    split
    · refine ⟨s, l₁ ++ l₂, { e' with touchedAt := now }, h.moveToFront.changeAt (inPlace_stamp now) s, hindex, ?_,
        hvalue, hlater _ (Or.inr rfl), fun _ => rfl⟩
      rw [stamp, entryAt_changeAt, if_pos rfl, he', Option.map_some]
    · rename_i hpolicy
      exact ⟨s, l₁ ++ l₂, e', h.moveToFront, hindex, he', hvalue, hlater e' (Or.inl hage), fun hp => absurd hp hpolicy⟩

theorem modify_modify (c : Cache κ ν) (k : κ) (f g : ν → ν) :
    (c.modify k f).modify k g = c.modify k (g ∘ f) := by
  cases hs : c.index.get? k with
  | none => simp only [Cache.modify, changeAt?, hs]
  | some s =>
    simp only [Cache.modify, changeAt?, changeAt, hs, List.modify_modify_eq, Option.map_comp_map]
    rfl

end Cache

end Overlay
