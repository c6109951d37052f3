import Mathlib.Data.Prod.Lex
import Mathlib.Order.Basic
import Overlay.Proofs.Discovery.Gateway

/-!
# Which super peer is chosen

Going through some super peers with the better one of two keeps a least one (`foldl_better_le`).  Merits end with the key,
and so the least one is unique: what `bestOf` finds is said by membership alone (`bestOf_eq_some_iff`), and the order in
which the super peers are gone through does not matter (`bestOf_perm`).

`gateway_least` describes what a choice makes of any state (`Selection`), compares two orders of the same super peers, and
says that a second choice at the same moment changes nothing.
-/

namespace Overlay

namespace ChildSide

variable {c : ChildSide} {now : Nat} {k : PublicKey} {p : SuperPeer}

/-! ### The least of some super peers -/

/-- The merit of a super peer in its order: by latency first, and then by key. -/
def weight (e : PublicKey × SuperPeer) : Nat ×ₗ Nat := toLex (merit e.1 e.2)

theorem precedes_iff (a b : Nat × Nat) : precedes a b = true ↔ toLex a < toLex b := by
  rw [Prod.Lex.toLex_lt_toLex]
  simp [precedes]

theorem key_eq_of_weight_eq {e e' : PublicKey × SuperPeer} (h : weight e = weight e') : e.1 = e'.1 :=
  PublicKey.rank_injective (congrArg Prod.snd (toLex_inj.1 h))

theorem better_le {best : Option (PublicKey × SuperPeer)} {e e' : PublicKey × SuperPeer}
    (h : better best e = some e') : weight e' ≤ weight e ∧ ∀ b, best = some b → weight e' ≤ weight b := by
  unfold better at h
  split at h
  · cases h
    exact ⟨le_rfl, fun b hb => by cases hb⟩
  rename_i b
  split at h
  · rename_i hlt
    cases h
    refine ⟨le_rfl, fun b' hb => ?_⟩
    cases hb
    exact ((precedes_iff _ _).1 hlt).le
  · rename_i hge
    cases h
    refine ⟨not_lt.1 (mt (precedes_iff _ _).2 hge), fun b' hb => ?_⟩
    cases hb
    exact le_rfl

theorem foldl_better_le {entries : List (PublicKey × SuperPeer)} {best : Option (PublicKey × SuperPeer)}
    {e : PublicKey × SuperPeer} (h : entries.foldl better best = some e) :
    (∀ e' ∈ entries, weight e ≤ weight e') ∧ ∀ b, best = some b → weight e ≤ weight b := by
  induction entries generalizing best with
  | nil => exact ⟨fun _ he' => absurd he' List.not_mem_nil, fun b hb => by rw [Option.some.inj (h.symm.trans hb)]⟩
  | cons e' entries ih =>
    obtain ⟨hlater, hnext⟩ := ih h
    have hsome : ([e'].foldl better best).isSome = true := foldl_better_isSome (.inl (List.cons_ne_nil _ _))
    obtain ⟨next, hbetter⟩ := Option.isSome_iff_exists.1 hsome
    obtain ⟨hle, hbest⟩ := better_le hbetter
    refine ⟨fun e'' he'' => ?_, fun b hb => (hnext next hbetter).trans (hbest b hb)⟩
    obtain rfl | htail := List.mem_cons.1 he''
    · exact (hnext next hbetter).trans hle
    · exact hlater e'' htail

/-- The best of some super peers is the one with the least merit. -/
theorem bestOf_eq_some_iff {entries : List (PublicKey × SuperPeer)} :
    bestOf entries = some k ↔ ∃ e ∈ entries, e.1 = k ∧ ∀ e' ∈ entries, weight e ≤ weight e' := by
  have hfound : ∀ e, entries.foldl better none = some e → e ∈ entries ∧ ∀ e' ∈ entries, weight e ≤ weight e' :=
    fun e he => ⟨(foldl_better_mem he).resolve_right nofun, (foldl_better_le he).1⟩
  constructor
  · intro h
    obtain ⟨e, he, rfl⟩ := Option.map_eq_some_iff.1 h
    exact ⟨e, (hfound e he).1, rfl, (hfound e he).2⟩
  · rintro ⟨e, hmem, rfl, hleast⟩
    have hsome : (entries.foldl better none).isSome = true := foldl_better_isSome (.inl (List.ne_nil_of_mem hmem))
    obtain ⟨e', he'⟩ := Option.isSome_iff_exists.1 hsome
    obtain ⟨hmem', hleast'⟩ := hfound e' he'
    -- Two least merits are equal, and they end with the keys.
    rw [bestOf, he', Option.map_some, key_eq_of_weight_eq ((hleast' e hmem).antisymm (hleast e' hmem'))]

theorem bestOf_eq_none_iff {entries : List (PublicKey × SuperPeer)} : bestOf entries = none ↔ entries = [] := by
  refine ⟨fun h => ?_, fun h => h ▸ rfl⟩
  by_contra hne
  have hsome : (entries.foldl better none).isSome = true := foldl_better_isSome (.inl hne)
  rw [Option.map_eq_none_iff.1 h] at hsome
  cases hsome

/-- The order in which super peers are gone through does not matter. -/
theorem bestOf_perm {l l' : List (PublicKey × SuperPeer)} (h : l.Perm l') : bestOf l = bestOf l' := by
  refine Option.ext fun k => ?_
  simp only [bestOf_eq_some_iff, h.mem_iff]

/-! ### What a choice makes of the state -/

def Fresh (c : ChildSide) (now : Nat) (k : PublicKey) (p : SuperPeer) : Prop :=
  c.superPeers.get? k = some p ∧ c.isStaleSuperPeer now p = false

/-- The super peers that are lost by a choice: those that are stale and count as reachable. -/
def losses (c : ChildSide) (now : Nat) : List PublicKey :=
  (c.superPeers.entries.filter fun e => c.isStaleSuperPeer now e.2 && e.2.reachable).map (·.1)

/-- What a choice of the gateway at a moment makes of a child's state. -/
structure Selection (c : ChildSide) (now : Nat) (c' : ChildSide) : Prop where
  /-- The gateway is the super peer of least merit among those that are not stale. -/
  best : ∀ k, c'.best = some k ↔
    ∃ p, c.Fresh now k p ∧ ∀ k' p', c.Fresh now k' p' → toLex (merit k p) ≤ toLex (merit k' p')
  none : c'.best = none ↔ ∀ k p, ¬ c.Fresh now k p
  /-- What is stale is not reachable any more, and what is fresh stays as it is. -/
  marked : ∀ k, c'.superPeers.get? k = (c.superPeers.get? k).map fun p =>
    if c.isStaleSuperPeer now p then { p with reachable := false } else p
  /-- The loss of a path is reported once for each stale super peer that was reachable, and then the gateway if it is
  another one. -/
  reported : ∃ lost : List PublicKey, lost.Nodup ∧
    (∀ k, k ∈ lost ↔ ∃ p, c.superPeers.get? k = some p ∧ c.isStaleSuperPeer now p = true ∧ p.reachable = true) ∧
    c'.events = c.events ++ (lost.map (fun k => .pathRemoved k .superPeer) ++
      if c'.best = c.best then [] else [.superPeerChanged c'.best])
  others : { c' with superPeers := c.superPeers, best := c.best, events := c.events } = c

theorem mem_fresh {e : PublicKey × SuperPeer} :
    e ∈ c.superPeers.entries.filter (fun e => !c.isStaleSuperPeer now e.2) ↔ c.Fresh now e.1 e.2 := by
  rw [List.mem_filter, Table.mem_entries, Bool.not_eq_true', Fresh]

theorem nodup_losses (c : ChildSide) (now : Nat) : (c.losses now).Nodup :=
  c.superPeers.nodup.sublist (List.filter_sublist.map _)

theorem mem_losses : k ∈ c.losses now ↔
    ∃ p, c.superPeers.get? k = some p ∧ c.isStaleSuperPeer now p = true ∧ p.reachable = true := by
  rw [losses, List.mem_map]
  constructor
  · rintro ⟨e, he, rfl⟩
    obtain ⟨hmem, hlost⟩ := List.mem_filter.1 he
    exact ⟨e.2, Table.mem_entries.1 hmem, Bool.and_eq_true_iff.1 hlost⟩
  · rintro ⟨p, hp, hlost⟩
    exact ⟨(k, p), List.mem_filter.2 ⟨Table.mem_entries.2 hp, Bool.and_eq_true_iff.2 hlost⟩, rfl⟩

theorem events_chooseGateway (c : ChildSide) (now : Nat) : (c.chooseGateway now).events =
    c.events ++ ((c.losses now).map (fun k => .pathRemoved k .superPeer) ++
      if (c.chooseGateway now).best = c.best then [] else [.superPeerChanged (c.chooseGateway now).best]) := by
  simp only [chooseGateway, announce, losses, List.map_map, Function.comp_def]
  rfl

theorem selection_chooseGateway (c : ChildSide) (now : Nat) : Selection c now (c.chooseGateway now) where
  best k := by
    refine bestOf_eq_some_iff.trans ⟨?_, ?_⟩
    · rintro ⟨e, he, rfl, hleast⟩
      exact ⟨e.2, mem_fresh.1 he, fun k' p' hp' => hleast (k', p') (mem_fresh.2 hp')⟩
    · rintro ⟨p, hp, hleast⟩
      exact ⟨(k, p), mem_fresh.2 hp, rfl, fun e' he' => hleast e'.1 e'.2 (mem_fresh.1 he')⟩
  none := by
    refine bestOf_eq_none_iff.trans ?_
    rw [List.eq_nil_iff_forall_not_mem]
    exact ⟨fun h k p hp => h (k, p) (mem_fresh.2 hp), fun h e he => h e.1 e.2 (mem_fresh.1 he)⟩
  marked := get?_chooseGateway c now
  reported := ⟨c.losses now, nodup_losses c now, fun _ => mem_losses, events_chooseGateway c now⟩
  others := rfl

/-! ### Another order, and a second choice -/

def reorder (c : ChildSide) (t : Table PublicKey SuperPeer) : ChildSide := { c with superPeers := t }

theorem best_reorder {t : Table PublicKey SuperPeer} (h : t.entries.Perm c.superPeers.entries) (now : Nat) :
    ((c.reorder t).chooseGateway now).best = (c.chooseGateway now).best :=
  bestOf_perm (h.filter _)

theorem losses_reorder {t : Table PublicKey SuperPeer} (h : t.entries.Perm c.superPeers.entries) (now : Nat) :
    ((c.reorder t).losses now).Perm (c.losses now) :=
  (h.filter _).map _

def marked (c : ChildSide) (now : Nat) (p : SuperPeer) : SuperPeer :=
  if c.isStaleSuperPeer now p then { p with reachable := false } else p

theorem marked_stale (h : c.isStaleSuperPeer now p = true) : c.marked now p = { p with reachable := false } := if_pos h

theorem marked_fresh (h : c.isStaleSuperPeer now p = false) : c.marked now p = p := if_neg (ne_true_of_eq_false h)

theorem isStale_marked (c : ChildSide) (now : Nat) (p : SuperPeer) :
    c.isStaleSuperPeer now (c.marked now p) = c.isStaleSuperPeer now p := by
  unfold marked
  split <;> rfl

theorem marked_marked (c : ChildSide) (now : Nat) (p : SuperPeer) :
    c.marked now (c.marked now p) = c.marked now p := by
  cases h : c.isStaleSuperPeer now p with
  | true => rw [marked_stale ((isStale_marked c now p).trans h), marked_stale h]
  | false => rw [marked_fresh h, marked_fresh h]

theorem get?_marked (h : (c.chooseGateway now).superPeers.get? k = some p) :
    ∃ p', c.superPeers.get? k = some p' ∧ p = c.marked now p' := by
  rw [get?_chooseGateway] at h
  obtain ⟨p', hp', rfl⟩ := Option.map_eq_some_iff.1 h
  exact ⟨p', hp', rfl⟩

theorem fresh_again : (c.chooseGateway now).Fresh now k p ↔ c.Fresh now k p := by
  constructor
  · rintro ⟨hp, hfresh⟩
    obtain ⟨p', hp', rfl⟩ := get?_marked hp
    have h : c.isStaleSuperPeer now p' = false := (isStale_marked c now p').symm.trans hfresh
    rw [marked_fresh h]
    exact ⟨hp', h⟩
  · rintro ⟨hp, hfresh⟩
    refine ⟨?_, hfresh⟩
    rw [get?_chooseGateway, hp]
    exact congrArg some (marked_fresh hfresh)

theorem superPeers_again (c : ChildSide) (now : Nat) :
    ((c.chooseGateway now).chooseGateway now).superPeers = (c.chooseGateway now).superPeers :=
  Table.ext ((List.map_map ..).trans
    (List.map_congr_left fun e _ => Prod.ext rfl (marked_marked c now e.2)))

theorem best_again (c : ChildSide) (now : Nat) :
    ((c.chooseGateway now).chooseGateway now).best = (c.chooseGateway now).best := by
  refine Option.ext fun k => ?_
  rw [(selection_chooseGateway _ now).best, (selection_chooseGateway c now).best]
  simp only [fresh_again]

theorem losses_again (c : ChildSide) (now : Nat) : (c.chooseGateway now).losses now = [] := by
  rw [List.eq_nil_iff_forall_not_mem]
  intro k hk
  obtain ⟨p, hp, hstale, hreachable⟩ := mem_losses.1 hk
  obtain ⟨p', -, rfl⟩ := get?_marked hp
  rw [marked_stale ((isStale_marked c now p').symm.trans hstale)] at hreachable
  cases hreachable

theorem chooseGateway_again (c : ChildSide) (now : Nat) :
    (c.chooseGateway now).chooseGateway now = c.chooseGateway now := by
  have hevents : ((c.chooseGateway now).chooseGateway now).events = (c.chooseGateway now).events := by
    rw [events_chooseGateway, losses_again, if_pos (best_again c now), List.map_nil, List.append_nil, List.append_nil]
  have hothers := (selection_chooseGateway (c.chooseGateway now) now).others
  rw [← superPeers_again, ← best_again, ← hevents] at hothers
  exact hothers

/-- A choice of the gateway takes the super peer of least merit among those that are not stale, and reports what was lost.
The order of the super peers only shows in the order of these reports, and a second choice at the same moment changes
nothing. -/
theorem gateway_least (c : ChildSide) (now : Nat) :
    Selection c now (c.chooseGateway now) ∧
    (∀ t : Table PublicKey SuperPeer, t.entries.Perm c.superPeers.entries →
      let c' := c.chooseGateway now
      let d := (c.reorder t).chooseGateway now
      d.superPeers.entries.Perm c'.superPeers.entries ∧ d.best = c'.best ∧
      (∃ lost lost' : List PublicKey, lost.Perm lost' ∧
        d.events = c.events ++ (lost.map (fun k => .pathRemoved k .superPeer) ++
          if c'.best = c.best then [] else [.superPeerChanged c'.best]) ∧
        c'.events = c.events ++ (lost'.map (fun k => .pathRemoved k .superPeer) ++
          if c'.best = c.best then [] else [.superPeerChanged c'.best])) ∧
      { d with superPeers := c'.superPeers, events := c'.events } = c') ∧
    (c.chooseGateway now).chooseGateway now = c.chooseGateway now := by
  refine ⟨selection_chooseGateway c now, ?_, chooseGateway_again c now⟩
  intro t ht c' d
  have hbest : d.best = c'.best := best_reorder ht now
  refine ⟨ht.map _, hbest, ⟨_, _, losses_reorder ht now, ?_, events_chooseGateway c now⟩, ?_⟩
  · rw [← hbest]
    exact events_chooseGateway (c.reorder t) now
  · show { c' with best := d.best } = c'
    rw [hbest]

/-- A super peer that was reachable is stale, and the other two are equally good except for their keys. -/
theorem gateway_least_ties :
    let p : PublicKey := ⟨.filled 32 2⟩
    let q : PublicKey := ⟨.filled 32 3⟩
    let r : PublicKey := ⟨.filled 32 4⟩
    let heard (t : Nat) : SuperPeer := { SuperPeer.ofAddress default with lastAckAt := t, reachable := true }
    let entries := [(r, heard 100000), (p, heard 50000), (q, heard 90000)]
    let superPeers : Table PublicKey SuperPeer := ⟨entries, by decide⟩
    let c : ChildSide := ⟨⟨.filled 32 1⟩, {}, superPeers, some p, .empty, [], []⟩
    let t : Table PublicKey SuperPeer := ⟨entries.reverse, by decide⟩
    t.entries.Perm c.superPeers.entries ∧ (c.chooseGateway 100000).best = some q ∧
      (c.chooseGateway 100000).events = [.pathRemoved p .superPeer, .superPeerChanged (some q)] ∧
      ((c.reorder t).chooseGateway 100000).best = some q := by
  intro p q r heard entries superPeers c t
  have hperm : t.entries.Perm c.superPeers.entries := List.reverse_perm _
  have hbest : (c.chooseGateway 100000).best = some q := by decide +kernel
  have hevents : (c.chooseGateway 100000).events = [.pathRemoved p .superPeer, .superPeerChanged (some q)] := by
    decide +kernel
  exact ⟨hperm, hbest, hevents, ((gateway_least c 100000).2.1 t hperm).2.1.trans hbest⟩

end ChildSide

end Overlay
