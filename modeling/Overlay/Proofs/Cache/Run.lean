import Mathlib.Data.List.Induction
import Overlay.Proofs.Cache.Bounded

/-!
# A cache under any sequence of calls

`faithful_run` puts the arena and the list side by side.  Whatever calls (`Call`) a cache serves from its
creation on, at whatever times, the answers are those of the list (`Answer.Same`: a sweep may hand its
entries out in another order), the cache reads as that list afterwards, and its parts are in order
(`Tidy`).  The list never has a key twice (`Recency.Distinct.serveAll`).  The links can be walked in both
directions and the walks end (`Walk`), so an iteration over the cache visits each stored entry once.

One call is treated in `serve_refines` and `Bounded.serve`, and a run follows by induction on the calls.
-/

namespace Overlay

universe u v

inductive Call (κ : Type u) (ν : Type v) where
  /-- Sets a value; answers the one replaced. -/
  | insert (k : κ) (v : ν) (now : Nat)
  /-- Sets a value; answers the entry that had to leave. -/
  | insertEvicting (k : κ) (v : ν) (now : Nat)
  | get (k : κ) (now : Nat)
  /-- Looks a value up and changes it in place. -/
  | getMut (k : κ) (f : ν → ν) (now : Nat)
  | peek (k : κ) (now : Nat)
  | contains (k : κ) (now : Nat)
  | remove (k : κ)
  /-- Drops the expired entries; answers how many there were. -/
  | evictExpired (now : Nat)
  /-- Drops the expired entries; answers them. -/
  | takeExpired (now : Nat)
  | clear
  /-- Lists what has not expired, most recently used first. -/
  | iter (now : Nat)
  | keys (now : Nat)
  | size

inductive Answer (κ : Type u) (ν : Type v) where
  | value (v : Option ν)
  | entry (e : Option (κ × ν))
  | flag (b : Bool)
  | count (n : Nat)
  | listed (l : List (κ × ν))
  | keys (l : List κ)
  | swept (l : List (κ × ν))
  | done

/-- Answers agree when they are equal, those of a sweep when they are equal up to order. -/
inductive Answer.Same {κ : Type u} {ν : Type v} : Answer κ ν → Answer κ ν → Prop where
  | refl (a : Answer κ ν) : Same a a
  | swept {l m : List (κ × ν)} : l.Perm m → Same (.swept l) (.swept m)

variable {κ : Type u} {ν : Type v} [DecidableEq κ]

namespace Recency

def live (r : Recency κ ν) (now : Nat) : List (κ × ν) :=
  (r.items.filter fun i => !r.expired i now).map fun i => (i.key, i.value)

def serve (r : Recency κ ν) : Call κ ν → Answer κ ν × Recency κ ν
  | .insert k v now => (.value (r.insert k v now).previous, (r.insert k v now).list)
  | .insertEvicting k v now => (.entry (r.insert k v now).evicted, (r.insert k v now).list)
  | .get k now => (.value (r.get k now).1, (r.get k now).2)
  | .getMut k f now => (.value (r.get k now).1, (r.get k now).2.modify k f)
  | .peek k now => (.value (r.peek k now), r)
  | .contains k now => (.flag (r.peek k now).isSome, r)
  | .remove k => (.value (r.remove k).1, (r.remove k).2)
  | .evictExpired now => (.count (r.takeExpired now).1.length, (r.takeExpired now).2)
  | .takeExpired now =>
    (.swept ((r.takeExpired now).1.map fun i => (i.key, i.value)), (r.takeExpired now).2)
  | .clear => (.done, { r with items := [] })
  | .iter now => (.listed (r.live now), r)
  | .keys now => (.keys ((r.live now).map Prod.fst), r)
  | .size => (.count r.items.length, r)

def serveAll (r : Recency κ ν) : List (Call κ ν) → List (Answer κ ν) × Recency κ ν
  | [] => ([], r)
  | call :: rest => ((r.serve call).1 :: ((r.serve call).2.serveAll rest).1, ((r.serve call).2.serveAll rest).2)

theorem Distinct.serve {r : Recency κ ν} (h : r.Distinct) (call : Call κ ν) : (r.serve call).2.Distinct := by
  cases call with
  | insert k v now | insertEvicting k v now => exact h.insert k v now
  | get k now => exact h.get k now
  | getMut k f now => exact (h.get k now).modify k f
  | remove k => exact h.without k
  | evictExpired now | takeExpired now => exact h.takeExpired now
  | clear => exact List.nodup_nil
  | peek | contains | iter | keys | size => exact h

theorem Distinct.serveAll {r : Recency κ ν} (h : r.Distinct) (calls : List (Call κ ν)) :
    (r.serveAll calls).2.Distinct := by
  induction calls generalizing r with
  | nil => exact h
  | cons call rest ih => exact ih (h.serve call)

end Recency

namespace Cache

variable {c : Cache κ ν} {order : List Nat} {k : κ} {s now : Nat}

def serve (c : Cache κ ν) : Call κ ν → Answer κ ν × Cache κ ν
  | .insert k v now => (.value (c.insert k v now).previous, (c.insert k v now).cache)
  | .insertEvicting k v now => (.entry (c.insert k v now).evicted, (c.insert k v now).cache)
  | .get k now => (.value (c.get k now).1, (c.get k now).2)
  | .getMut k f now => (.value (c.get k now).1, (c.get k now).2.modify k f)
  | .peek k now => (.value (c.peek k now), c)
  | .contains k now => (.flag (c.contains k now), c)
  | .remove k => (.value (c.remove k).1, (c.remove k).2)
  | .evictExpired now => (.count (c.takeExpired now).1.length, (c.takeExpired now).2)
  | .takeExpired now => (.swept (c.takeExpired now).1, (c.takeExpired now).2)
  | .clear => (.done, c.clear)
  | .iter now => (.listed (c.live now), c)
  | .keys now => (.keys ((c.live now).map Prod.fst), c)
  | .size => (.count c.size, c)

def serveAll (c : Cache κ ν) : List (Call κ ν) → List (Answer κ ν) × Cache κ ν
  | [] => ([], c)
  | call :: rest => ((c.serve call).1 :: ((c.serve call).2.serveAll rest).1, ((c.serve call).2.serveAll rest).2)

/-! ### Answers that the refinement of each operation leaves open -/

theorem insert_previous (h : Sound c) (k : κ) (v : ν) (now : Nat) :
    (c.insert k v now).previous = (c.recency.insert k v now).previous := by
  obtain ⟨order, h⟩ := h
  cases hs : c.index.get? k with
  | none =>
    have hr : (c.recency.insert k v now).previous = none := by
      rw [Recency.insert, h.find?_eq_none hs]
      simp only
      split <;> rfl
    rw [hr, insert, hs]
    simp only
    split
    · split <;> rfl
    · rfl
  | some s =>
    obtain ⟨l₁, l₂, e, rfl, he, rfl, hf, -⟩ := h.split hs
    rw [Recency.insert, hf, insert, hs]
    -- The slot was moved and stamped before its value is read.
    have hi : ((c.moveToFront s).stamp s now).contentAt s =
        (c.contentAt s).map fun i => { i with touchedAt := now } := by
      rw [stamp, contentAt_changeAt (inPlace_stamp now), if_pos rfl,
        (relinked_moveToFront c s).content]
    have hv : ∀ d : Cache κ ν, (d.entryAt s).map (·.value) = (d.contentAt s).map (·.value) := by
      intro d
      rw [contentAt, Option.map_map]
      rfl
    show (((c.moveToFront s).stamp s now).entryAt s).map (·.value) = some e.value
    rw [hv, hi, contentAt, he]
    rfl

omit [DecidableEq κ] in
theorem live_eq (c : Cache κ ν) (now : Nat) : c.live now = c.recency.live now := by
  have hf : c.recency.items.filter (fun i => !c.recency.expired i now) =
      (c.entries.filter fun e => !c.expired e now).map CacheEntry.item := List.filter_map
  rw [live, Recency.live, hf, List.map_map]
  rfl

/-! ### One call -/

/-- A call does to the cache what it does to the list. -/
theorem serve_refines (h : Sound c) (call : Call κ ν) :
    Answer.Same (c.serve call).1 (c.recency.serve call).1 ∧
      Reads (c.serve call).2 (c.recency.serve call).2 := by
  cases call with
  | insert k v now =>
    simp only [serve, Recency.serve, insert_previous h]
    exact ⟨.refl _, (insert_refines h k v now).2⟩
  | insertEvicting k v now =>
    simp only [serve, Recency.serve, (insert_refines h k v now).1]
    exact ⟨.refl _, (insert_refines h k v now).2⟩
  | get k now =>
    simp only [serve, Recency.serve, get_fst h, peek_eq h, Recency.get_fst]
    exact ⟨.refl _, (get_refines h k now).2⟩
  | getMut k f now =>
    have hg := (get_refines h k now).2
    simp only [serve, Recency.serve, get_fst h, peek_eq h, Recency.get_fst, ← hg.recency]
    exact ⟨.refl _, modify_refines hg.sound k f⟩
  | peek k now =>
    simp only [serve, Recency.serve, peek_eq h]
    exact ⟨.refl _, h, rfl⟩
  | contains k now =>
    simp only [serve, Recency.serve, contains, peek_eq h]
    exact ⟨.refl _, h, rfl⟩
  | remove k =>
    simp only [serve, Recency.serve, (remove_refines h k).1]
    exact ⟨.refl _, (remove_refines h k).2⟩
  | evictExpired now =>
    have ht := takeExpired_refines h now
    simp only [serve, Recency.serve, ht.1.length_eq, List.length_map]
    exact ⟨.refl _, ht.2⟩
  | takeExpired now => exact ⟨.swept (takeExpired_refines h now).1, (takeExpired_refines h now).2⟩
  | clear => exact ⟨.refl _, reads_empty c.policy c.ttl c.maxSize⟩
  | iter now =>
    simp only [serve, Recency.serve, live_eq]
    exact ⟨.refl _, h, rfl⟩
  | keys now =>
    simp only [serve, Recency.serve, live_eq]
    exact ⟨.refl _, h, rfl⟩
  | size =>
    simp only [serve, Recency.serve, h.size_eq]
    exact ⟨.refl _, h, rfl⟩

theorem Bounded.serve (h : Bounded c) (hs : Sound c) (call : Call κ ν) : Bounded (c.serve call).2 := by
  cases call with
  | insert k v now => exact h.insert hs k v now
  | insertEvicting k v now => exact h.insert hs k v now
  | get k now => exact h.get hs k now
  | getMut k f now => exact (h.get hs k now).modify (hs.get k now) k f
  | remove k => exact h.remove hs k
  | evictExpired now => exact h.takeExpired hs now
  | takeExpired now => exact h.takeExpired hs now
  | clear => exact bounded_empty c.policy c.ttl c.maxSize
  | peek | contains | iter | keys | size => exact h

/-! ### The parts of a cache -/

/-- The slots on the way from one slot along some link, up to where the links end. -/
inductive Walk (c : Cache κ ν) (link : CacheEntry κ ν → Option Nat) : Option Nat → List Nat → Prop where
  | done : Walk c link none []
  | next {s : Nat} {e : CacheEntry κ ν} {rest : List Nat} :
      c.entryAt s = some e → Walk c link (link e) rest → Walk c link (some s) (s :: rest)

omit [DecidableEq κ] in
theorem Arranged.walk_older (h : Arranged c order) :
    ∀ l₂ l₁ : List Nat, order = l₁ ++ l₂ → Walk c CacheEntry.older l₂.head? l₂ := by
  intro l₂
  induction l₂ with
  | nil => exact fun _ _ => .done
  | cons s r ih =>
    intro l₁ hl
    obtain ⟨e, he, -, holder⟩ := h.linked l₁ s r hl
    have hr := ih (l₁ ++ [s]) (by simp [hl])
    exact .next he (holder ▸ hr)

omit [DecidableEq κ] in
theorem Arranged.walk_newer (h : Arranged c order) :
    ∀ l₁ l₂ : List Nat, order = l₁ ++ l₂ → Walk c CacheEntry.newer l₁.getLast? l₁.reverse := by
  intro l₁
  induction l₁ using List.reverseRecOn with
  | nil => exact fun _ _ => .done
  | append_singleton l s ih =>
    intro l₂ hl
    obtain ⟨e, he, hnewer, -⟩ := h.linked l s l₂ (by simp [hl])
    have hr := ih (s :: l₂) (by simp [hl])
    rw [List.getLast?_concat, List.reverse_concat]
    exact .next he (hnewer ▸ hr)

/-- The parts of a cache in order: every stored key is in one slot, the links lead through the occupied
slots and end, the free slots are the empty ones, and the bound is respected. -/
structure Tidy (c : Cache κ ν) (order : List Nat) : Prop where
  index : ∀ k s, c.index.get? k = some s ↔ ∃ e, c.entryAt s = some e ∧ e.key = k
  nodup : order.Nodup
  occupied : ∀ s, s ∈ order ↔ ∃ e, c.entryAt s = some e
  older : Walk c CacheEntry.older c.newest order
  newer : Walk c CacheEntry.newer c.oldest order.reverse
  /-- An iteration visits the slots in order and then stops. -/
  entries : c.entries.map some = order.map c.entryAt
  size : c.size = order.length
  free_nodup : c.free.Nodup
  free : ∀ s, s ∈ c.free ↔ s < c.slots.length ∧ c.entryAt s = none
  bounded : 0 < c.maxSize → c.size ≤ c.maxSize
  arena : 0 < c.maxSize → c.slots.length ≤ c.maxSize + 1

theorem Laid.tidy (h : Laid c order) (hb : Bounded c) : Tidy c order where
  index k s := by
    apply (h.stocked.indexed k s).trans
    constructor
    · rintro ⟨i, hi, hk⟩
      obtain ⟨e, he, rfl⟩ := contentAt_eq_some.1 hi
      exact ⟨e, he, hk⟩
    · rintro ⟨e, he, hk⟩
      exact ⟨e.item, contentAt_eq_some.2 ⟨e, he, rfl⟩, hk⟩
  nodup := h.arranged.nodup
  occupied s := by
    constructor
    · exact h.arranged.entry_of_mem
    · rintro ⟨e, he⟩
      exact h.stocked.occupied s e.item (contentAt_eq_some.2 ⟨e, he, rfl⟩)
  older := h.arranged.newest ▸ h.arranged.walk_older order [] rfl
  newer := h.arranged.oldest ▸ h.arranged.walk_newer order [] (List.append_nil _).symm
  entries := by
    rw [entries_eq h.arranged]
    have hsome : ∀ l : List Nat, l ⊆ order → (l.filterMap c.entryAt).map some = l.map c.entryAt := by
      intro l
      induction l with
      | nil => exact fun _ => rfl
      | cons s l ih =>
        intro hl
        obtain ⟨e, he⟩ := h.arranged.entry_of_mem (hl List.mem_cons_self)
        rw [List.filterMap_cons_some he, List.map_cons, List.map_cons, he,
          ih fun x hx => hl (List.mem_cons_of_mem s hx)]
    exact hsome order fun _ hx => hx
  size := h.stocked.size
  free_nodup := h.stocked.free_nodup
  free s := by
    rw [h.stocked.mem_free, contentAt_eq_none]
  bounded := (Sound.size_eq ⟨order, h⟩) ▸ hb.list
  arena := hb.arena

/-! ### Any number of calls -/

/-- Whatever calls are served, the cache answers as the list does and stays like it. -/
theorem serveAll_refines (h : Sound c) (hb : Bounded c) (calls : List (Call κ ν)) :
    List.Forall₂ Answer.Same (c.serveAll calls).1 (c.recency.serveAll calls).1 ∧
      Reads (c.serveAll calls).2 (c.recency.serveAll calls).2 ∧ Bounded (c.serveAll calls).2 := by
  induction calls generalizing c with
  | nil => exact ⟨.nil, ⟨h, rfl⟩, hb⟩
  | cons call rest ih =>
    obtain ⟨hanswer, hreads⟩ := serve_refines h call
    obtain ⟨hanswers, hrest, hbounded⟩ := ih hreads.sound (hb.serve h call)
    rw [hreads.recency] at hanswers hrest
    exact ⟨.cons hanswer hanswers, hrest, hbounded⟩

/-- No look-up and no iteration hands out an expired value. -/
theorem fresh_of_answer (h : Sound c) {v : ν}
    (hv : (c.get k now).1 = some v ∨ c.peek k now = some v ∨ (k, v) ∈ c.live now) :
    ∃ i ∈ c.recency.items, i.key = k ∧ i.value = v ∧ c.recency.expired i now = false := by
  have hpeek : c.peek k now = some v →
      ∃ i ∈ c.recency.items, i.key = k ∧ i.value = v ∧ c.recency.expired i now = false := by
    intro hp
    rw [peek_eq h, Recency.peek] at hp
    obtain ⟨i, hf, hi⟩ := Option.bind_eq_some_iff.1 hp
    cases he : c.recency.expired i now with
    | true => simp [he] at hi
    | false =>
      simp only [he, Bool.false_eq_true, if_false, Option.some.injEq] at hi
      exact ⟨i, Recency.mem_of_find? hf, Recency.key_of_find? hf, hi, he⟩
  rcases hv with hv | hv | hv
  · exact hpeek (get_fst h k now ▸ hv)
  · exact hpeek hv
  · rw [live_eq, Recency.live, List.mem_map] at hv
    obtain ⟨i, hi, heq⟩ := hv
    obtain ⟨hi, he⟩ := List.mem_filter.1 hi
    obtain ⟨rfl, rfl⟩ := Prod.mk.inj heq
    exact ⟨i, hi, rfl, rfl, by simpa using he⟩

/-- **A cache is a list in order of recency.**  After any calls from its creation on, each answer is that
of the list, the cache reads as the list, its parts are in order, and nothing expired is handed out. -/
theorem faithful_run (policy : ExpiryPolicy) (ttl : Option Nat) (maxSize : Nat)
    (calls : List (Call κ ν)) :
    let run := (empty policy ttl maxSize : Cache κ ν).serveAll calls
    let list := (⟨[], policy, ttl, maxSize⟩ : Recency κ ν).serveAll calls
    List.Forall₂ Answer.Same run.1 list.1 ∧ run.2.recency = list.2 ∧ (∃ order, Tidy run.2 order) ∧
      (∀ now, run.2.live now = list.2.live now) ∧
      ∀ k v now, (run.2.get k now).1 = some v ∨ run.2.peek k now = some v ∨ (k, v) ∈ run.2.live now →
        ∃ i ∈ list.2.items, i.key = k ∧ i.value = v ∧ list.2.expired i now = false := by
  intro run list
  have hempty := reads_empty (κ := κ) (ν := ν) policy ttl maxSize
  obtain ⟨hanswers, hreads, hbounded⟩ :=
    serveAll_refines hempty.sound (bounded_empty policy ttl maxSize) calls
  obtain ⟨order, hlaid⟩ := hreads.sound
  rw [hempty.recency] at hanswers hreads
  have hlist : run.2.recency = list.2 := hreads.recency
  refine ⟨hanswers, hlist, ⟨order, hlaid.tidy hbounded⟩, ?_, ?_⟩
  · intro now
    rw [live_eq, hlist]
  · intro k v now hv
    rw [← hlist]
    exact fresh_of_answer hreads.sound hv

end Cache

end Overlay
