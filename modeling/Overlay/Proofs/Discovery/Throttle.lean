import Mathlib.Data.Finset.Order
import Overlay.Proofs.Cache.Lately
import Overlay.Proofs.Crypto.Key
import Overlay.Proofs.Discovery.Rendezvous
import Overlay.Proofs.Discovery.SuperPeerSide

/-!
# How often a super peer introduces the same two children

A super peer remembers whom it has introduced in a bounded cache, under the two keys in their order
(`PublicKey.orderedPair`).  What an operation does to this memory is said once (`perform_cases`).  The invariant of a run
is that the cache remembers the log of the introductions (`Recalls`), and so an envelope between two children
introduces them exactly if they are free.

`throttled` puts this together: the same two are introduced again within the interval only if as many others as the
cache has room for were introduced in between, and an introduction tells each of two children where the other one is
registered.
-/

namespace Overlay

/-- The two that a message introduces to each other: the one that gets it, and the one that it names. -/
def Outbound.pair? (m : Outbound) : Option (Sym2 PublicKey) :=
  match m.message with
  | .unite peer _ => some s(m.recipient, peer)
  | _ => none

namespace SuperPeerSide

open Cache

variable {s : SuperPeerSide} {w : Watched SuperPeerSide} {c : Cache (PublicKey × PublicKey) Unit} {e : Envelope}
  {a b : Address} {interval now moment : Nat} {log : List (Nat × Sym2 PublicKey)} {op : Operation}
  {messages : List Outbound}

/-! ### Introductions -/

def posted (now : Nat) (w : Watched SuperPeerSide) (op : Operation) : List Outbound :=
  (perform now w op).side.outbox.drop w.side.outbox.length

def introduced? (now : Nat) (w : Watched SuperPeerSide) (op : Operation) : Option (Sym2 PublicKey) :=
  (posted now w op).findSome? Outbound.pair?

def introductions : Watched SuperPeerSide → List (Nat × Operation) → List (Nat × Sym2 PublicKey)
  | _, [] => []
  | w, (now, op) :: ops =>
    ((introduced? now w op).map (now, ·)).toList ++ introductions (perform now w op) ops

structure Connects (s : SuperPeerSide) (e : Envelope) (a b : Address) : Prop where
  own : e.recipient ≠ s.own
  hops : e.hopCount < s.config.hopLimit
  distinct : e.sender ≠ e.recipient
  sender : s.route e.sender = some a
  recipient : s.route e.recipient = some b

def introduction (e : Envelope) (a b : Address) : List Outbound :=
  [⟨e.sender, a, .unite e.recipient b⟩, ⟨e.recipient, b, .unite e.sender a⟩]

theorem introductions_append (w : Watched SuperPeerSide) (ops ops' : List (Nat × Operation)) :
    introductions w (ops ++ ops') =
      introductions w ops ++ introductions (ops.foldl (fun w o => perform o.1 w o.2) w) ops' := by
  induction ops generalizing w with
  | nil => rfl
  | cons o ops ih => rw [List.cons_append, introductions, introductions, ih, List.append_assoc, List.foldl_cons]

theorem posted_eq (h : (perform now w op).side.outbox = w.side.outbox ++ messages) : posted now w op = messages := by
  rw [posted, h, List.drop_left]

theorem posted_eq_nil (h : (perform now w op).side.outbox = w.side.outbox) : posted now w op = [] :=
  posted_eq (h.trans (List.append_nil _).symm)

theorem pair?_of_posted_nil (h : posted now w op = []) : ∀ m ∈ posted now w op, m.pair? = none := by
  rw [h]
  exact fun _ hm => absurd hm List.not_mem_nil

theorem introduced?_eq (h : (perform now w op).side.outbox = w.side.outbox ++ introduction e a b) :
    introduced? now w op = some s(e.sender, e.recipient) := by
  rw [introduced?, posted_eq h]
  rfl

theorem relay_unconnected (h : ∀ a b, ¬ s.Connects e a b) (now : Nat) : (s.relay now e).2 = s := by
  unfold relay
  split
  · rfl
  rename_i hown
  split
  · rfl
  rename_i y hy
  split
  · rfl
  rename_i hhops
  have hends : (!s.children.contains e.sender || decide (e.sender = e.recipient)) = true := by
    by_contra hends
    simp only [Bool.or_eq_true, Bool.not_eq_true', decide_eq_true_eq, not_or, Bool.not_eq_false] at hends
    obtain ⟨x, hx⟩ := Option.isSome_iff_exists.1 hends.1
    exact h x.addr y.addr ⟨hown, UInt8.not_le.1 hhops, hends.2, Option.map_eq_some_iff.2 ⟨x, hx, rfl⟩,
      Option.map_eq_some_iff.2 ⟨y, hy, rfl⟩⟩
  simp [shouldUnite, hends]

/-- Relaying introduces the ends of an envelope if they are two children that are not remembered, and does nothing
otherwise. -/
theorem relay_cases (hc : s.attempts = some c) (now : Nat) (e : Envelope) :
    (∃ a b, s.Connects e a b ∧ c.contains (PublicKey.ordered e.sender e.recipient) now = false ∧
      (s.relay now e).2 = post { s with
        attempts := some (c.insert (PublicKey.ordered e.sender e.recipient) () now).cache } (introduction e a b)) ∨
    (s.relay now e).2 = s ∧
      ∀ a b, s.Connects e a b → c.contains (PublicKey.ordered e.sender e.recipient) now = true := by
  by_cases hconnects : ∃ a b, s.Connects e a b
  · obtain ⟨a, b, h⟩ := hconnects
    obtain ⟨x, hx, rfl⟩ := Option.map_eq_some_iff.1 h.sender
    obtain ⟨y, hy, rfl⟩ := Option.map_eq_some_iff.1 h.recipient
    have hends : (!s.children.contains e.sender || decide (e.sender = e.recipient)) = false := by
      simp [Table.contains, hx, h.distinct]
    cases hlacks : c.contains (PublicKey.ordered e.sender e.recipient) now with
    | false =>
      refine .inl ⟨x.addr, y.addr, h, rfl, ?_⟩
      simp [relay, if_neg h.own, hy, if_neg (UInt8.not_le.2 h.hops), shouldUnite, hends, hc, hlacks, unite, hx,
        introduction]
    | true =>
      refine .inr ⟨?_, fun _ _ _ => rfl⟩
      simp [relay, if_neg h.own, hy, if_neg (UInt8.not_le.2 h.hops), shouldUnite, hends, hc, hlacks]
  · have hnone : ∀ a b, ¬ s.Connects e a b := fun a b h => hconnects ⟨a, b, h⟩
    exact .inr ⟨relay_unconnected hnone now, fun a b h => absurd h (hnone a b)⟩

theorem attempts_greeted (s : SuperPeerSide) (now : Nat) (sender : PublicKey) (time childrenTime : UInt64)
    (addr : Address) : (s.greeted now sender time childrenTime addr).2.attempts = s.attempts := by
  unfold greeted
  split <;> rfl

theorem posted_greeted (now : Nat) (w : Watched SuperPeerSide) (sender : PublicKey) (time childrenTime : UInt64)
    (addr : Address) : ∀ m ∈ posted now w (.greeted sender time childrenTime addr), m.pair? = none := by
  rcases w.side.outbox_greeted now sender time childrenTime addr with h | h
  · exact pair?_of_posted_nil (posted_eq_nil h)
  · have hposted : posted now w (.greeted sender time childrenTime addr) = [⟨sender, addr, .acknowledgement time⟩] :=
      posted_eq h
    rw [hposted]
    exact List.forall_mem_singleton.2 rfl

/-- **What an operation does to the memory.**  Either it introduces two children that are not remembered, and remembers
them from now on; or it introduces nobody, and forgets at most what has expired. -/
theorem perform_cases (hc : w.side.attempts = some c) (now : Nat) (op : Operation) :
    (∃ e a b, op = .relay e ∧ w.side.Connects e a b ∧
      (perform now w op).side.outbox = w.side.outbox ++ introduction e a b ∧
      c.contains (PublicKey.ordered e.sender e.recipient) now = false ∧
      (perform now w op).side.attempts = some (c.insert (PublicKey.ordered e.sender e.recipient) () now).cache) ∨
    (∀ m ∈ posted now w op, m.pair? = none) ∧
      (∀ e a b, op = .relay e → w.side.Connects e a b →
        c.contains (PublicKey.ordered e.sender e.recipient) now = true) ∧
      ((perform now w op).side.attempts = some c ∨ (perform now w op).side.attempts = some (c.takeExpired now).2) := by
  cases op with
  | greeted sender time childrenTime addr =>
    refine .inr ⟨posted_greeted now w sender time childrenTime addr, (fun _ _ _ hop => nomatch hop), .inl ?_⟩
    exact (attempts_greeted _ _ _ _ _ _).trans hc
  | checkStale =>
    refine .inr ⟨pair?_of_posted_nil (posted_eq_nil rfl), (fun _ _ _ hop => nomatch hop), .inr ?_⟩
    exact congrArg (Option.map fun a => (a.takeExpired now).2) hc
  | relay e =>
    rcases relay_cases hc now e with ⟨a, b, hends, hlacks, hrelay⟩ | ⟨hrelay, hholds⟩
    · refine .inl ⟨e, a, b, rfl, hends, ?_, hlacks, ?_⟩ <;> rw [perform, hrelay] <;> rfl
    · refine .inr ⟨pair?_of_posted_nil (posted_eq_nil ?_), ?_, .inl ?_⟩
      · rw [perform, hrelay]
      · rintro e' a b heq hends
        cases heq
        exact hholds a b hends
      · rw [perform, hrelay, hc]
  | drainOutbox => exact .inr ⟨pair?_of_posted_nil List.drop_nil, (fun _ _ _ hop => nomatch hop), .inl hc⟩
  | drainEvents => exact .inr ⟨pair?_of_posted_nil (posted_eq_nil rfl), (fun _ _ _ hop => nomatch hop), .inl hc⟩

/-! ### Memory -/

/-- A super peer remembers the introductions so far, none of which was made while the two were not free. -/
structure Recalls (interval : Nat) (log : List (Nat × Sym2 PublicKey)) (now : Nat) (s : SuperPeerSide) : Prop where
  remembers : ∃ c, s.attempts = some c ∧
    c.Remembers interval maxAttempts (log.map (Prod.map id PublicKey.orderedPair)) now
  free : ∀ before t pair after, log = before ++ (t, pair) :: after → Free interval maxAttempts before pair t

theorem Recalls.later (h : s.Recalls interval log now) (hle : now ≤ moment) : s.Recalls interval log moment where
  remembers := h.remembers.imp fun _ hc => ⟨hc.1, hc.2.later hle⟩
  free := h.free

theorem recalls_start (own : PublicKey) {config : DiscoveryConfig} (h : 1 ≤ config.uniteMinInterval.millis)
    (now : Nat) : (start own config).Recalls config.uniteMinInterval.millis [] now where
  remembers := by
    have hbound : config.uniteMinInterval.bound? = some config.uniteMinInterval.millis := by
      refine if_neg fun hzero => ?_
      have hnanos : config.uniteMinInterval.nanos = 0 := of_decide_eq_true hzero
      rw [Duration.millis, hnanos] at h
      omega
    exact ⟨_, by rw [start, hbound]; rfl, remembers_empty _ _ now⟩
  free before _ _ _ h := absurd h.symm (List.append_ne_nil_of_right_ne_nil before (List.cons_ne_nil _ _))

theorem Recalls.lacks_iff (h : s.Recalls interval log now) (hc : s.attempts = some c) (p q : PublicKey) :
    c.contains (PublicKey.ordered p q) now = false ↔ Free interval maxAttempts log s(p, q) now := by
  obtain ⟨c', hc', hmem⟩ := h.remembers
  obtain rfl : c' = c := Option.some.inj (hc'.symm.trans hc)
  exact (hmem.contains_eq_false (by decide)).trans (free_map (k := s(p, q)) PublicKey.orderedPair_injective)

/-- **Relaying introduces the two children that it connects exactly if they are free.** -/
theorem Recalls.introduced?_relay (h : w.side.Recalls interval log now) (hends : w.side.Connects e a b) :
    introduced? now w (.relay e) = some s(e.sender, e.recipient) ↔
      Free interval maxAttempts log s(e.sender, e.recipient) now := by
  obtain ⟨c, hc, -⟩ := h.remembers
  rw [← h.lacks_iff hc]
  rcases perform_cases hc now (.relay e) with ⟨e', a', b', heq, -, hposts, hlacks, -⟩ | ⟨hquiet, hholds, -⟩
  · cases heq
    exact iff_of_true (introduced?_eq hposts) hlacks
  · rw [introduced?, List.findSome?_eq_none_iff.2 hquiet, hholds e a b rfl hends]
    exact iff_of_false nofun nofun

/-- Every operation adds what it introduces to the log. -/
theorem Recalls.perform (h : w.side.Recalls interval log now) (op : Operation) :
    (perform now w op).side.Recalls interval (log ++ ((introduced? now w op).map (now, ·)).toList) now := by
  obtain ⟨c, hc, hmem⟩ := h.remembers
  rcases perform_cases hc now op with ⟨e, a, b, rfl, -, hposts, hlacks, hattempts⟩ | ⟨hquiet, -, hattempts⟩
  · rw [introduced?_eq hposts]
    refine ⟨⟨_, hattempts, ?_⟩, ?_⟩
    · rw [List.map_append]
      exact hmem.insert _ ()
    · intro before t pair after hlog
      rcases List.eq_nil_or_concat after with rfl | ⟨after, last, rfl⟩
      · obtain ⟨rfl, heq⟩ := List.append_inj' hlog rfl
        cases heq
        exact (h.lacks_iff hc _ _).1 hlacks
      · rw [List.concat_eq_append, ← List.cons_append, ← List.append_assoc] at hlog
        obtain ⟨rfl, -⟩ := List.append_inj' hlog rfl
        exact h.free before t pair after rfl
  · rw [introduced?, List.findSome?_eq_none_iff.2 hquiet, Option.map_none, Option.toList_none, List.append_nil]
    refine ⟨?_, h.free⟩
    rcases hattempts with hattempts | hattempts
    · exact ⟨c, hattempts, hmem⟩
    · exact ⟨_, hattempts, hmem.takeExpired⟩

/-! ### Runs -/

def introductionsOf (own : PublicKey) (config : DiscoveryConfig) (ops : List (Nat × Operation)) :
    List (Nat × Sym2 PublicKey) := introductions ⟨start own config, []⟩ ops

/-- **In every run a super peer remembers the introductions.** -/
theorem recalls_run (own : PublicKey) {config : DiscoveryConfig} (hinterval : 1 ≤ config.uniteMinInterval.millis)
    {ops : List (Nat × Operation)} (hclock : (ops.map Prod.fst).Pairwise (· ≤ ·)) (hnow : ∀ o ∈ ops, o.1 ≤ now) :
    (run own config ops).side.Recalls config.uniteMinInterval.millis (introductionsOf own config ops) now := by
  induction ops using List.reverseRecOn generalizing now with
  | nil => exact recalls_start own hinterval now
  | append_singleton ops o ih =>
    rw [List.map_append, List.pairwise_append] at hclock
    have hbefore : ∀ o' ∈ ops, o'.1 ≤ o.1 := fun o' ho' =>
      hclock.2.2 _ (List.mem_map_of_mem ho') _ (List.mem_singleton.2 rfl)
    have hle : o.1 ≤ now := hnow o (List.mem_append_right _ (List.mem_singleton.2 rfl))
    have hstep := ((ih hclock.1 hbefore).perform o.2).later hle
    rw [run, List.foldl_append, introductionsOf, introductions_append, introductions, introductions, List.append_nil]
    exact hstep

/-- **A super peer introduces the same two children again within the interval only if there was no room to remember
them.**  In every run with a clock that is not set back: between two introductions of the same two within the interval,
at least as many others were introduced as there is room for.  Every introduction is due to an envelope, in one
direction or the other, and consists of two messages that tell each of two different registered children the key of the
other one and where it is registered.  And whenever an envelope connects two children, they are introduced exactly
if they are free. -/
theorem throttled (own : PublicKey) (config : DiscoveryConfig) (ops : List (Nat × Operation))
    (hinterval : 1 ≤ config.uniteMinInterval.millis) (hclock : (ops.map Prod.fst).Pairwise (· ≤ ·)) :
    (∀ before t pair between t' after,
      introductionsOf own config ops = before ++ (t, pair) :: (between ++ (t', pair) :: after) →
      t' - t < config.uniteMinInterval.millis → maxAttempts ≤ others pair between) ∧
    ∀ past now op later, ops = past ++ (now, op) :: later →
      let w := run own config past
      (∀ pair, introduced? now w op = some pair → ∃ e a b, op = .relay e ∧ pair = s(e.sender, e.recipient) ∧
        w.side.Connects e a b ∧ (perform now w op).side.outbox = w.side.outbox ++ introduction e a b) ∧
      ∀ e a b, op = .relay e → w.side.Connects e a b →
        (introduced? now w op = some s(e.sender, e.recipient) ↔
          Free config.uniteMinInterval.millis maxAttempts (introductionsOf own config past)
            s(e.sender, e.recipient) now) := by
  constructor
  · intro before t pair between t' after hlog hlate
    obtain ⟨last, hlast⟩ := (ops.map Prod.fst).toFinset.exists_le
    have hnow : ∀ o ∈ ops, o.1 ≤ last := fun o ho => hlast o.1 (List.mem_toFinset.2 (List.mem_map_of_mem ho))
    rw [← List.cons_append, ← List.append_assoc] at hlog
    exact (recalls_run own hinterval hclock hnow).free _ t' pair after hlog before t between rfl hlate
  · rintro past now op later rfl w
    rw [List.map_append, List.map_cons, List.pairwise_append] at hclock
    have hpast : ∀ o ∈ past, o.1 ≤ now := fun o ho => hclock.2.2 _ (List.mem_map_of_mem ho) _ List.mem_cons_self
    have h : w.side.Recalls config.uniteMinInterval.millis (introductionsOf own config past) now :=
      recalls_run own hinterval hclock.1 hpast
    constructor
    · intro pair hpair
      obtain ⟨c, hc, -⟩ := h.remembers
      rcases perform_cases hc now op with ⟨e, a, b, hop, hends, hposts, -⟩ | ⟨hquiet, -⟩
      · rw [introduced?_eq hposts] at hpair
        exact ⟨e, a, b, hop, (Option.some.inj hpair).symm, hends, hposts⟩
      · rw [introduced?, List.findSome?_eq_none_iff.2 hquiet] at hpair
        cases hpair
    · rintro e a b rfl hends
      exact h.introduced?_relay hends

/-- Three children write to each other; the first two are introduced twice. -/
theorem throttled_triangle :
    let p : PublicKey := ⟨.filled 32 2⟩
    let q : PublicKey := ⟨.filled 32 3⟩
    let r : PublicKey := ⟨.filled 32 4⟩
    let own : PublicKey := ⟨.filled 32 1⟩
    let letter (sender recipient : PublicKey) : Operation :=
      .relay ⟨1, 0, sender, recipient, ⟨⟨.filled 32 0⟩, .filled 24 0, []⟩⟩
    let ops : List (Nat × Operation) :=
      [(1, .greeted p 1 1 (.ofV4 10 0 0 2 7)), (1, .greeted q 1 1 (.ofV4 10 0 0 3 7)),
        (1, .greeted r 1 1 (.ofV4 10 0 0 4 7)), (2, letter p q), (3, letter q p), (4, letter r p), (5, .checkStale),
        (20001, letter p q), (20002, letter q p)]
    introductionsOf own {} ops = [(2, s(p, q)), (4, s(p, r)), (20002, s(p, q))] ∧
      ∀ before t pair between t' after,
        introductionsOf own {} ops = before ++ (t, pair) :: (between ++ (t', pair) :: after) →
        t' - t < 20000 → maxAttempts ≤ others pair between :=
  ⟨by decide +kernel, (throttled _ _ _ (by decide) (by decide)).1⟩

end SuperPeerSide

end Overlay
