import Overlay.Proofs.Cache.Run

/-!
# What lazy expiry lets show

An expired entry stays in its slot until something removes it.  A sweep (`Recency.swept`) commutes with every look-up,
so no look-up tells whether there was one before it (`get_swept`, `swept_modify`).  An insertion goes by what is
stored, and can tell, in two ways.  It hands out the value that it replaces, expired or not; and where a new key
comes into a full cache, the entry used least recently leaves and is handed out, although a sweep would have made
room (`Recency.Crowded`).  The entry that leaves may be live while an expired one stays.

`unnoticed_run` says that nothing else shows: for every insertion and every look-up it tells exactly when a sweep
before it changes the answer (`Reveals`), and when it changes the live entries (`Displaces`).  Where age counts from
the last look-up and the clock is not set back, the order of recency is that of age (`Aging`), so what leaves has
expired if anything has, and no live entry is lost.
-/

namespace Overlay

universe u v

variable {κ : Type u} {ν : Type v}

/-! ### Calls at a moment -/

def Call.Uses (now : Nat) : Call κ ν → Prop
  | .insert _ _ t | .insertEvicting _ _ t | .get _ t | .getMut _ _ t | .peek _ t | .contains _ t | .iter t
  | .keys t => t = now
  | .remove _ | .evictExpired _ | .takeExpired _ | .clear | .size => False

def Call.moment? : Call κ ν → Option Nat
  | .insert _ _ t | .insertEvicting _ _ t | .get _ t | .getMut _ _ t | .peek _ t | .contains _ t | .iter t
  | .keys t | .evictExpired t | .takeExpired t => some t
  | .remove _ | .clear | .size => none

namespace Recency

variable {r : Recency κ ν} {i : Item κ ν} {now : Nat}

/-! ### Sweeps -/

abbrev swept (r : Recency κ ν) (now : Nat) : Recency κ ν := (r.takeExpired now).2

theorem live_swept (r : Recency κ ν) (now : Nat) : (r.swept now).live now = r.live now := by
  have hfilter : (r.items.filter fun i => !r.expired i now).filter (fun i => !r.expired i now) =
      r.items.filter fun i => !r.expired i now := by
    rw [List.filter_filter]
    simp only [Bool.and_self]
  exact congrArg (List.map fun i => (i.key, i.value)) hfilter

theorem swept_eq_self (h : ∀ i ∈ r.items, r.expired i now = false) : r.swept now = r :=
  Recency.ext (List.filter_eq_self.2 fun i hi => by rw [h i hi]; rfl) rfl rfl rfl

theorem length_swept_lt (hi : i ∈ r.items) (he : r.expired i now = true) :
    (r.swept now).items.length < r.items.length :=
  List.length_filter_lt_length_iff_exists.2 ⟨i, hi, by simp [he]⟩

theorem expired_used (h : r.expired i now = false) : r.expired (r.used i now) now = false := by
  unfold used
  split
  · unfold expired at h ⊢
    cases ht : r.ttl with
    | none => rfl
    | some ttl =>
      rw [ht] at h
      simp only [decide_eq_false_iff_not] at h ⊢
      omega
  · exact h

theorem expired_mono {j : Item κ ν} (hle : i.touchedAt ≤ j.touchedAt) (h : r.expired j now = true) :
    r.expired i now = true := by
  unfold expired at h ⊢
  cases ht : r.ttl with
  | none =>
    rw [ht] at h
    cases h
  | some ttl =>
    rw [ht] at h
    simp only [decide_eq_true_eq] at h ⊢
    omega

variable [DecidableEq κ] {k : κ} {v : ν}

theorem swept_without (r : Recency κ ν) (k : κ) (now : Nat) :
    (r.without k).swept now = (r.swept now).without k :=
  Recency.ext (List.filter_comm _ _ r.items) rfl rfl rfl

theorem without_eq_self (h : r.find? k = none) : r.without k = r :=
  Recency.ext (List.filter_eq_self.2 fun i hi => by simpa using find?_eq_none.1 h i hi) rfl rfl rfl

theorem peek_swept (h : r.Distinct) (k : κ) (now : Nat) : (r.swept now).peek k now = r.peek k now := by
  unfold peek
  rw [find?_takeExpired h]
  cases r.find? k with
  | none => rfl
  | some i =>
    have hsame : (r.swept now).expired i now = r.expired i now := rfl
    cases he : r.expired i now <;> simp [Option.filter_some, he, hsame]

/-- **A sweep commutes with a look-up.** -/
theorem get_swept (h : r.Distinct) (k : κ) (now : Nat) :
    (r.swept now).get k now = ((r.get k now).1, (r.get k now).2.swept now) := by
  unfold get
  rw [find?_takeExpired h]
  cases hf : r.find? k with
  | none => rfl
  | some i =>
    cases he : r.expired i now with
    | true =>
      have hgone : (r.swept now).find? k = none := by
        rw [find?_takeExpired h, hf, Option.filter_some, he]
        rfl
      simp only [Option.filter_some, he, Bool.not_true, Bool.false_eq_true, if_false, if_true]
      rw [swept_without, without_eq_self hgone]
    | false =>
      have hlive : (r.swept now).expired i now = false := he
      simp only [Option.filter_some, he, Bool.not_false, if_true, hlive, Bool.false_eq_true, if_false]
      refine Prod.ext rfl (Recency.ext ?_ rfl rfl rfl)
      show r.used i now :: ((r.swept now).without k).items =
        (r.used i now :: (r.without k).items).filter fun j => !r.expired j now
      rw [← swept_without, List.filter_cons_of_pos (by rw [expired_used he]; rfl)]
      rfl

theorem swept_modify (r : Recency κ ν) (k : κ) (f : ν → ν) (now : Nat) :
    (r.modify k f).swept now = (r.swept now).modify k f := by
  refine Recency.ext ?_ rfl rfl rfl
  show (r.items.map _).filter _ = (r.items.filter _).map _
  rw [List.filter_map]
  congr 1
  apply List.filter_congr
  intro i _
  show (!(r.modify k f).expired (if i.key = k then _ else i) now) = _
  split <;> rfl

/-! ### Insertions -/

/-- A new key would come into a full list that holds something expired. -/
structure Crowded (r : Recency κ ν) (k : κ) (now : Nat) : Prop where
  absent : r.find? k = none
  bound : 0 < r.maxSize
  full : r.maxSize ≤ r.items.length
  expired : ∃ i ∈ r.items, r.expired i now = true

/-- A sweep before the call changes its answer. -/
def Reveals (r : Recency κ ν) (now : Nat) : Call κ ν → Prop
  | .insert k _ _ => ∃ i, r.find? k = some i ∧ r.expired i now = true
  | .insertEvicting k _ _ => r.Crowded k now
  | _ => False

/-- The call costs a live item its place, which a sweep before it would have saved. -/
def Displaces (r : Recency κ ν) (now : Nat) : Call κ ν → Prop
  | .insert k _ _ | .insertEvicting k _ _ =>
    r.Crowded k now ∧ ∃ i, r.items.getLast? = some i ∧ r.expired i now = false
  | _ => False

theorem previous_insert (r : Recency κ ν) (k : κ) (v : ν) (now : Nat) :
    (r.insert k v now).previous = (r.find? k).map (·.value) := by
  unfold insert
  cases r.find? k with
  | some i => rfl
  | none =>
    simp only
    split <;> rfl

theorem insert_of_room (h : r.find? k = none → 0 < r.maxSize → r.items.length < r.maxSize) (v : ν) (now : Nat) :
    r.insert k v now =
      ⟨(r.find? k).map (·.value), none, { r with items := ⟨k, v, now⟩ :: (r.without k).items }⟩ := by
  unfold insert
  cases hf : r.find? k with
  | some i => rfl
  | none =>
    have hroom : ¬ (0 < r.maxSize ∧ r.maxSize < (⟨k, v, now⟩ :: r.items : List (Item κ ν)).length) := by
      rintro ⟨hpos, hlt⟩
      exact absurd (h hf hpos) (Nat.not_lt.2 (Nat.le_of_lt_succ hlt))
    simp only [hroom, if_false]
    rw [without_eq_self hf]
    rfl

theorem insert_of_full (hf : r.find? k = none) (hpos : 0 < r.maxSize) (hfull : r.maxSize ≤ r.items.length)
    {l : List (Item κ ν)} (hl : r.items = l ++ [i]) (v : ν) (now : Nat) :
    r.insert k v now = ⟨none, some (i.key, i.value), { r with items := ⟨k, v, now⟩ :: l }⟩ := by
  have hm : 0 < r.maxSize ∧ r.maxSize < (⟨k, v, now⟩ :: r.items : List (Item κ ν)).length :=
    ⟨hpos, Nat.lt_succ_of_le hfull⟩
  unfold insert
  rw [hf]
  simp only [hm, and_self, if_true]
  rw [hl, ← List.cons_append, List.getLast?_concat, List.dropLast_concat]
  rfl

/-- Once something expired is swept out, an insertion drops nothing. -/
theorem insert_swept (hfits : r.Fits) (hi : i ∈ r.items) (he : r.expired i now = true) (k : κ) (v : ν) :
    (r.swept now).insert k v now =
      ⟨((r.swept now).find? k).map (·.value), none,
        { r with items := ⟨k, v, now⟩ :: ((r.swept now).without k).items }⟩ := by
  refine insert_of_room (fun _ hpos => ?_) v now
  exact Nat.lt_of_lt_of_le (length_swept_lt hi he) (hfits hpos)

theorem Crowded.insert (h : r.Crowded k now) (v : ν) :
    ∃ l i, r.items = l ++ [i] ∧
      r.insert k v now = ⟨none, some (i.key, i.value), { r with items := ⟨k, v, now⟩ :: l }⟩ := by
  rcases List.eq_nil_or_concat r.items with hnil | ⟨l, i, hl⟩
  · obtain ⟨i, hi, -⟩ := h.expired
    rw [hnil] at hi
    cases hi
  · rw [List.concat_eq_append] at hl
    exact ⟨l, i, hl, insert_of_full h.absent h.bound h.full hl v now⟩

omit [DecidableEq κ] in
theorem live_append (r : Recency κ ν) (l₁ l₂ : List (Item κ ν)) (now : Nat) :
    live { r with items := l₁ ++ l₂ } now =
      live { r with items := l₁ } now ++ live { r with items := l₂ } now := by
  unfold live
  rw [List.filter_append, List.map_append]
  rfl

omit [DecidableEq κ] in
theorem live_singleton (r : Recency κ ν) (i : Item κ ν) (now : Nat) :
    live { r with items := [i] } now = if r.expired i now then [] else [(i.key, i.value)] := by
  have hsame : expired { r with items := [i] } i now = r.expired i now := rfl
  cases he : r.expired i now <;> simp [live, hsame, he]

/-- What is live once something expired is swept out and a key set: that key, and what was live of the others. -/
theorem live_insert_swept (hfits : r.Fits) (hi : i ∈ r.items) (he : r.expired i now = true) (k : κ) (v : ν) :
    ((r.swept now).insert k v now).list.live now =
      live { r with items := ⟨k, v, now⟩ :: (r.without k).items } now := by
  rw [insert_swept hfits hi he, ← swept_without]
  show live { r with items := [⟨k, v, now⟩] ++ ((r.without k).swept now).items } now =
    live { r with items := [⟨k, v, now⟩] ++ (r.without k).items } now
  rw [live_append, live_append]
  exact congrArg _ (live_swept (r.without k) now)

/-- **What an insertion lets show.**  A sweep before it changes what leaves exactly if the list is crowded, and
what is live afterwards exactly if moreover the item to leave is live. -/
theorem insert_swept_iff (hfits : r.Fits) (k : κ) (v : ν) (now : Nat) :
    (((r.swept now).insert k v now).evicted = (r.insert k v now).evicted ↔ ¬ r.Crowded k now) ∧
      (((r.swept now).insert k v now).list.live now = (r.insert k v now).list.live now ↔
        ¬ (r.Crowded k now ∧ ∃ i, r.items.getLast? = some i ∧ r.expired i now = false)) := by
  by_cases hany : ∃ i ∈ r.items, r.expired i now = true
  · obtain ⟨j, hj, he⟩ := hany
    rw [live_insert_swept hfits hj he, insert_swept hfits hj he]
    by_cases hc : r.Crowded k now
    · obtain ⟨l, i, hl, hins⟩ := hc.insert v
      have hitems : ⟨k, v, now⟩ :: (r.without k).items = (⟨k, v, now⟩ :: l) ++ [i] := by
        rw [without_eq_self hc.absent, hl, List.cons_append]
      rw [hins, hitems, live_append, hl, List.getLast?_concat]
      refine ⟨by simp [hc], ?_⟩
      cases hlast : r.expired i now <;> simp [hc, hlast, live_singleton]
    · have hroom : r.find? k = none → 0 < r.maxSize → r.items.length < r.maxSize := fun hf hpos =>
        Nat.lt_of_not_le fun hfull => hc ⟨hf, hpos, hfull, j, hj, he⟩
      rw [insert_of_room hroom]
      exact ⟨iff_of_true rfl hc, iff_of_true rfl fun h => hc h.1⟩
  · have hc : ¬ r.Crowded k now := fun h => hany h.expired
    have hlive : ∀ i ∈ r.items, r.expired i now = false := fun i hi =>
      Bool.eq_false_iff.2 fun he => hany ⟨i, hi, he⟩
    rw [swept_eq_self hlive]
    exact ⟨iff_of_true rfl hc, iff_of_true rfl fun h => hc h.1⟩

theorem previous_swept_iff (h : r.Distinct) (k : κ) (v : ν) (now : Nat) :
    ((r.swept now).insert k v now).previous = (r.insert k v now).previous ↔
      ¬ ∃ i, r.find? k = some i ∧ r.expired i now = true := by
  rw [previous_insert, previous_insert, find?_takeExpired h]
  cases r.find? k with
  | none => simp
  | some i => cases he : r.expired i now <;> simp [Option.filter_some, he]

/-! ### Every use -/

/-- A sweep before a look-up or an insertion shows where `Reveals` and `Displaces` say, and nowhere else. -/
theorem unnoticed (h : r.Distinct) (hfits : r.Fits) {call : Call κ ν} (hu : call.Uses now) :
    (((r.swept now).serve call).1 = (r.serve call).1 ↔ ¬ r.Reveals now call) ∧
      (((r.swept now).serve call).2.live now = (r.serve call).2.live now ↔ ¬ r.Displaces now call) := by
  cases call with
  | insert k v t =>
    obtain rfl : t = now := hu
    refine ⟨?_, (insert_swept_iff hfits k v t).2⟩
    rw [Reveals, ← previous_swept_iff h k v t, serve, serve]
    exact ⟨fun ha => by injection ha, congrArg _⟩
  | insertEvicting k v t =>
    obtain rfl : t = now := hu
    refine ⟨?_, (insert_swept_iff hfits k v t).2⟩
    rw [Reveals, ← (insert_swept_iff hfits k v t).1, serve, serve]
    exact ⟨fun ha => by injection ha, congrArg _⟩
  | get k t =>
    obtain rfl : t = now := hu
    simp only [serve, get_swept h, live_swept, Reveals, Displaces, not_false_eq_true, and_self]
  | getMut k f t =>
    obtain rfl : t = now := hu
    simp only [serve, get_swept h, ← swept_modify, live_swept, Reveals, Displaces, not_false_eq_true, and_self]
  | peek k t | contains k t =>
    obtain rfl : t = now := hu
    simp only [serve, peek_swept h, live_swept, Reveals, Displaces, not_false_eq_true, and_self]
  | iter t | keys t =>
    obtain rfl : t = now := hu
    simp only [serve, live_swept, Reveals, Displaces, not_false_eq_true, and_self]
  | remove | evictExpired | takeExpired | clear | size => exact hu.elim

/-! ### Age in order of recency -/

/-- Age counts from the last use, and what was used less recently is older. -/
structure Aging (r : Recency κ ν) (now : Nat) : Prop where
  policy : r.policy = .afterAccess
  ordered : r.items.Pairwise fun newer older => older.touchedAt ≤ newer.touchedAt
  past : ∀ i ∈ r.items, i.touchedAt ≤ now

variable {moment : Nat}

omit [DecidableEq κ] in
theorem Aging.later (h : r.Aging now) (hle : now ≤ moment) : r.Aging moment :=
  ⟨h.policy, h.ordered, fun i hi => Nat.le_trans (h.past i hi) hle⟩

omit [DecidableEq κ] in
theorem Aging.sublist (h : r.Aging now) {l : List (Item κ ν)} (hl : l.Sublist r.items) :
    Aging { r with items := l } now :=
  ⟨h.policy, h.ordered.sublist hl, fun i hi => h.past i (hl.subset hi)⟩

omit [DecidableEq κ] in
theorem Aging.cons (h : r.Aging now) {l : List (Item κ ν)} (hl : l.Sublist r.items) (hi : i.touchedAt = now) :
    Aging { r with items := i :: l } now := by
  have hrest := h.sublist hl
  refine ⟨h.policy, List.pairwise_cons.2 ⟨?_, hrest.ordered⟩, ?_⟩
  · intro j hj
    rw [hi]
    exact hrest.past j hj
  · rintro j (_ | ⟨_, hj⟩)
    · exact Nat.le_of_eq hi
    · exact hrest.past j hj

theorem Aging.get (h : r.Aging now) (k : κ) : (r.get k now).2.Aging now := by
  unfold Recency.get
  cases r.find? k with
  | none => exact h
  | some i =>
    simp only
    split
    · exact h.sublist List.filter_sublist
    · refine h.cons List.filter_sublist ?_
      rw [used, if_pos h.policy]

theorem Aging.modify (h : r.Aging now) (k : κ) (f : ν → ν) : (r.modify k f).Aging now := by
  have hsame : ∀ i : Item κ ν, (if i.key = k then { i with value := f i.value } else i).touchedAt = i.touchedAt := by
    intro i
    split <;> rfl
  refine ⟨h.policy, ?_, ?_⟩
  · refine List.pairwise_map.2 (h.ordered.imp fun {a b} hab => ?_)
    rw [hsame, hsame]
    exact hab
  · intro j hj
    obtain ⟨i, hi, rfl⟩ := List.mem_map.1 hj
    rw [hsame]
    exact h.past i hi

theorem Aging.insert (h : r.Aging now) (k : κ) (v : ν) : (r.insert k v now).list.Aging now := by
  unfold Recency.insert
  cases r.find? k with
  | some i => exact h.cons List.filter_sublist rfl
  | none =>
    have hnew : Aging { r with items := ⟨k, v, now⟩ :: r.items } now := h.cons (List.Sublist.refl _) rfl
    simp only
    split
    · exact hnew.sublist (List.dropLast_sublist _)
    · exact hnew

/-- A call at a moment that is not earlier keeps the order of age. -/
theorem Aging.serve (h : r.Aging now) (call : Call κ ν) (hle : ∀ t, call.moment? = some t → now ≤ t) :
    (r.serve call).2.Aging (call.moment?.getD now) := by
  cases call with
  | insert k v t | insertEvicting k v t => exact (h.later (hle t rfl)).insert k v
  | get k t => exact (h.later (hle t rfl)).get k
  | getMut k f t => exact ((h.later (hle t rfl)).get k).modify k f
  | remove k => exact h.sublist List.filter_sublist
  | evictExpired t | takeExpired t => exact (h.later (hle t rfl)).sublist List.filter_sublist
  | clear => exact h.sublist (List.nil_sublist _)
  | peek k t | contains k t | iter t | keys t => exact h.later (hle t rfl)
  | size => exact h

/-- While the clock is not set back, the order of recency is that of age. -/
theorem Aging.serveAll (h : r.Aging now) (calls : List (Call κ ν))
    (hclock : (now :: (calls.filterMap Call.moment? ++ [moment])).Pairwise (· ≤ ·)) :
    (r.serveAll calls).2.Aging moment := by
  induction calls generalizing r now with
  | nil => exact h.later (List.rel_of_pairwise_cons hclock (List.mem_singleton.2 rfl))
  | cons call rest ih =>
    cases ht : call.moment? with
    | none =>
      rw [List.filterMap_cons_none ht] at hclock
      have hnext := h.serve call fun t hm => by rw [ht] at hm; cases hm
      rw [ht] at hnext
      exact ih hnext hclock
    | some t =>
      rw [List.filterMap_cons_some ht, List.cons_append] at hclock
      have hle : now ≤ t := List.rel_of_pairwise_cons hclock List.mem_cons_self
      have hnext := h.serve call fun u hm => by
        rw [ht, Option.some.injEq] at hm
        exact hm ▸ hle
      rw [ht] at hnext
      exact ih hnext hclock.of_cons

/-- Where the order of recency is that of age, the last item has expired if any has. -/
theorem Aging.not_displaces (h : r.Aging now) (call : Call κ ν) : ¬ r.Displaces moment call := by
  have hlast : ∀ k, ¬ (r.Crowded k moment ∧ ∃ i, r.items.getLast? = some i ∧ r.expired i moment = false) := by
    rintro k ⟨hc, i, hi, hlive⟩
    obtain ⟨j, hj, he⟩ := hc.expired
    obtain ⟨l, hl⟩ := List.getLast?_eq_some_iff.1 hi
    have holder : i.touchedAt ≤ j.touchedAt := by
      have hordered := h.ordered
      rw [hl] at hj hordered
      rcases List.mem_append.1 hj with hj | hj
      · exact (List.pairwise_append.1 hordered).2.2 j hj i (List.mem_singleton.2 rfl)
      · exact Nat.le_of_eq (congrArg Item.touchedAt (List.mem_singleton.1 hj).symm)
    rw [expired_mono holder he] at hlive
    cases hlive
  cases call with
  | insert k v t | insertEvicting k v t => exact hlast k
  | _ => exact not_false

end Recency

namespace Cache

variable [DecidableEq κ] {c : Cache κ ν} {now : Nat}

theorem serve_fst (h : Sound c) {call : Call κ ν} (hu : call.Uses now) :
    (c.serve call).1 = (c.recency.serve call).1 := by
  have hsame := (serve_refines h call).1
  generalize hb : (c.recency.serve call).1 = b at hsame
  cases call with
  | remove | evictExpired | takeExpired | clear | size => exact hu.elim
  | _ => cases hsame; rfl

/-- **What lazy expiry lets show.**  After any calls, a sweep before a look-up changes neither its answer nor what
is live.  Before an insertion it changes the answer exactly if the value replaced has expired, or the entry that
leaves had an expired one beside it, and it changes what is live exactly if that entry is live.  With ages that
count from the last use and a clock that is not set back, it never does the latter. -/
theorem unnoticed_run (policy : ExpiryPolicy) (ttl : Option Nat) (maxSize : Nat) (calls : List (Call κ ν))
    (now : Nat) :
    let c := ((empty policy ttl maxSize : Cache κ ν).serveAll calls).2
    let swept := (c.serve (.evictExpired now)).2
    (∀ call : Call κ ν, call.Uses now →
      ((swept.serve call).1 = (c.serve call).1 ↔ ¬ c.recency.Reveals now call) ∧
        ((swept.serve call).2.live now = (c.serve call).2.live now ↔ ¬ c.recency.Displaces now call)) ∧
      (policy = .afterAccess → (calls.filterMap Call.moment? ++ [now]).Pairwise (· ≤ ·) →
        ∀ call, ¬ c.recency.Displaces now call) := by
  intro c swept
  have hempty := reads_empty (κ := κ) (ν := ν) policy ttl maxSize
  obtain ⟨-, hreads, hbounded⟩ := serveAll_refines hempty.sound (bounded_empty policy ttl maxSize) calls
  have hsound : Sound c := hreads.sound
  have hswept : Reads swept (c.recency.swept now) := (serve_refines hsound (.evictExpired now)).2
  constructor
  · intro call hu
    have hserved := (serve_refines hsound call).2
    have hafter := (serve_refines hswept.sound call).2
    rw [serve_fst hsound hu, serve_fst hswept.sound hu, live_eq, live_eq, hserved.recency, hafter.recency,
      hswept.recency]
    exact Recency.unnoticed (distinct_recency hsound) hbounded.list hu
  · intro hpolicy hclock call
    have hstart : (⟨[], policy, ttl, maxSize⟩ : Recency κ ν).Aging 0 :=
      ⟨hpolicy, .nil, fun i hi => by cases hi⟩
    have hclock' : (0 :: (calls.filterMap Call.moment? ++ [now])).Pairwise (· ≤ ·) :=
      List.pairwise_cons.2 ⟨fun _ _ => Nat.zero_le _, hclock⟩
    rw [show c.recency = _ from hreads.recency, hempty.recency]
    exact (hstart.serveAll calls hclock').not_displaces call

/-- Of two entries the older has expired.  It is also the one used less recently, so it is the one that leaves. -/
theorem unnoticed_two :
    let c := ((empty .afterAccess (some 10) 2 : Cache Nat Nat).serveAll [.insert 1 10 0, .insert 2 20 5]).2
    let swept := (c.serve (.evictExpired 12)).2
    c.recency.Crowded 3 12 ∧ (swept.serve (.insert 3 30 12)).1 = (c.serve (.insert 3 30 12)).1 ∧
      (swept.serve (.insert 3 30 12)).2.live 12 = (c.serve (.insert 3 30 12)).2.live 12 ∧
      (c.serve (.insert 3 30 12)).2.live 12 = [(3, 30), (2, 20)] := by
  intro c swept
  obtain ⟨hiff, hnever⟩ := unnoticed_run .afterAccess (some 10) 2
    ([.insert 1 10 0, .insert 2 20 5] : List (Call Nat Nat)) 12
  obtain ⟨hanswer, hlive⟩ := hiff (.insert 3 30 12) rfl
  refine ⟨⟨by decide, by decide, by decide, ⟨1, 10, 0⟩, by decide, by decide⟩, hanswer.2 ?_,
    hlive.2 (hnever rfl (by decide) _), by decide⟩
  rintro ⟨i, hf, -⟩
  cases hf

/-- Age counts from insertion, so the look-up of the key 1 leaves its entry as old as it was.  At 10 it has expired,
yet the key 2, which is live, was used less recently: a new key costs it its place.  Setting the key 1 again hands
out what had expired. -/
theorem noticed_two :
    let c := ((empty .afterWrite (some 10) 2 : Cache Nat Nat).serveAll
      [.insert 1 10 0, .insert 2 20 5, .get 1 6]).2
    let swept := (c.serve (.evictExpired 10)).2
    (swept.serve (.insertEvicting 3 30 10)).1 = .entry none ∧
      (c.serve (.insertEvicting 3 30 10)).1 = .entry (some (2, 20)) ∧
      (swept.serve (.insert 3 30 10)).2.live 10 = [(3, 30), (2, 20)] ∧
      (c.serve (.insert 3 30 10)).2.live 10 = [(3, 30)] ∧
      (swept.serve (.insert 1 11 10)).1 = .value none ∧ (c.serve (.insert 1 11 10)).1 = .value (some 10) := by
  refine ⟨?_, ?_, ?_, ?_, ?_, ?_⟩ <;> rfl

end Cache

end Overlay
