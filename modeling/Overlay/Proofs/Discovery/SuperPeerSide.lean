import Overlay.Discovery.SuperPeerSide
import Overlay.Proofs.Discovery.ChildSide

/-!
# The events of a super peer, and of discovery as a whole

A view shows a super peer's part of discovery (`SuperPeerSide.Shown`) if its paths to children are the registered
children, each with the address that messages for it go to.  As on the side of the child, every operation reports
what it changes.

`discovery_reconstructed` puts both sides together: an application that replays the events of a run knows the
super peers that are reachable, the confirmed direct paths, the gateway and the children, and no event ever comes
unexpected.
-/

namespace Overlay

namespace SuperPeerSide

open Watched

variable {s : SuperPeerSide} {v : View} {now : Nat}

/-- A view shows what the application has to know of a super peer's part of discovery, and nothing else. -/
structure Shown (v : View) (s : SuperPeerSide) : Prop where
  children : ∀ p, v.paths p .children = s.route p
  others : ∀ p k, k ≠ .children → v.paths p k = none
  gateway : v.gateway = none

abbrev Reports (s s' : SuperPeerSide) : Prop := Watched.Reports SuperPeerSide.events Shown s s'

theorem reports_silent {s' : SuperPeerSide} (he : s'.events = s.events) (hr : ∀ p, s'.route p = s.route p) :
    s.Reports s' := by
  refine Reports.silent he ?_
  intro v hv
  exact ⟨fun p => (hv.children p).trans (hr p).symm, hv.others, hv.gateway⟩

/-! ### Children come and go -/

theorem route_insert (s : SuperPeerSide) (sender : PublicKey) (c : Child) (p : PublicKey) :
    route { s with children := s.children.insert sender c } p = if p = sender then some c.addr else s.route p := by
  simp only [route, Table.get?_insert]
  split <;> rfl

theorem reports_greeted (s : SuperPeerSide) (now : Nat) (sender : PublicKey) (time childrenTime : UInt64)
    (addr : Address) : s.Reports (s.greeted now sender time childrenTime addr).2 := by
  unfold greeted
  split
  · exact .refl s
  · simp only
    suffices hnews : s.Reports (SuperPeerSide.announce { s with children := s.children.insert sender ⟨addr, now⟩ }
        (if (s.children.get? sender).map (·.addr) = some addr then [] else [.pathAdded sender addr .children])) from
      hnews.trans (reports_silent rfl fun _ => rfl)
    split
    · rename_i hsame
      refine reports_silent (List.append_nil _) ?_
      intro p
      refine (s.route_insert sender ⟨addr, now⟩ p).trans ?_
      split
      · rename_i hp
        rw [hp]
        exact hsame.symm
      · rfl
    · refine ⟨[.pathAdded sender addr .children], rfl, ?_⟩
      intro v hv
      refine ⟨View.orderly_cons.2 ⟨fun h => absurd h (by decide), View.orderly_nil _⟩, ?_, ?_, hv.gateway⟩
      · intro p
        refine Eq.trans ?_ (s.route_insert sender ⟨addr, now⟩ p).symm
        rw [View.paths_added, hv.children p]
        simp only [and_true]
      · intro p k hk
        rw [View.paths_added, if_neg fun h => hk h.2]
        exact hv.others p k hk

theorem reports_checkStale (s : SuperPeerSide) (now : Nat) : s.Reports (s.checkStale now).2 := by
  refine ⟨View.removals s.children .children fun c => c.isStale now s.config.helloTimeout.millis, rfl, ?_⟩
  intro v hv
  have hpaths := v.paths_removals s.children .children fun c => c.isStale now s.config.helloTimeout.millis
  refine ⟨View.orderly_removals ?_, ?_, ?_, (v.gateway_removals _ _ _).trans hv.gateway⟩
  · intro p c hc _ hnone
    rw [hv.children p, route, hc] at hnone
    cases hnone
  · intro p
    rw [hpaths, hv.children p]
    simp only [route, checkStale, announce, Table.get?_filter, true_and]
    cases s.children.get? p with
    | none => rfl
    | some c => cases hs : c.isStale now s.config.helloTimeout.millis <;> simp [Option.filter, hs]
  · intro p k hk
    rw [hpaths, if_neg fun h => hk h.1]
    exact hv.others p k hk

/-! ### Relaying -/

theorem reports_shouldUnite (s : SuperPeerSide) (now : Nat) (sender recipient : PublicKey) :
    s.Reports (s.shouldUnite now sender recipient).2 := by
  unfold shouldUnite
  split
  · exact .refl s
  · split
    · exact .refl s
    · simp only
      split
      · exact .refl s
      · exact reports_silent rfl fun _ => rfl

theorem reports_unite (s : SuperPeerSide) (sender recipient : PublicKey) :
    s.Reports (s.unite sender recipient) := by
  unfold unite
  split
  · exact reports_silent rfl fun _ => rfl
  · exact .refl s

theorem reports_relay (s : SuperPeerSide) (now : Nat) (e : Envelope) : s.Reports (s.relay now e).2 := by
  unfold relay
  split
  · exact .refl s
  · split
    · exact .refl s
    · split
      · exact .refl s
      · simp only
        refine (reports_shouldUnite s now e.sender e.recipient).trans ?_
        split
        · exact reports_unite _ _ _
        · exact .refl _

theorem shouldUnite_snd (s : SuperPeerSide) (now : Nat) (sender recipient : PublicKey) :
    ∃ attempts, (s.shouldUnite now sender recipient).2 = { s with attempts := attempts } := by
  unfold shouldUnite
  split
  · exact ⟨s.attempts, rfl⟩
  · split
    · exact ⟨s.attempts, rfl⟩
    · simp only
      split
      · exact ⟨s.attempts, rfl⟩
      · exact ⟨_, rfl⟩

/-- Relaying posts introductions, and changes nothing else but what is remembered of them. -/
theorem relay_snd (s : SuperPeerSide) (now : Nat) (e : Envelope) :
    ∃ attempts messages, (s.relay now e).2 = post { s with attempts := attempts } messages ∧
      ∀ m ∈ messages, ∃ peer addr, m.message = .unite peer addr := by
  have hsame : s = post { s with attempts := s.attempts } [] := by simp only [post, List.append_nil]
  have hnone : ∀ m ∈ ([] : List Outbound), ∃ peer addr, m.message = .unite peer addr :=
    fun _ h => absurd h List.not_mem_nil
  unfold relay
  split
  · exact ⟨_, _, hsame, hnone⟩
  split
  · exact ⟨_, _, hsame, hnone⟩
  split
  · exact ⟨_, _, hsame, hnone⟩
  obtain ⟨attempts, hasked⟩ := s.shouldUnite_snd now e.sender e.recipient
  have hquiet : ({ s with attempts := attempts } : SuperPeerSide) = post { s with attempts := attempts } [] := by
    simp only [post, List.append_nil]
  simp only [hasked]
  split
  · unfold unite
    split
    · refine ⟨attempts, _, rfl, ?_⟩
      intro m hm
      rcases List.mem_cons.1 hm with rfl | hm
      · exact ⟨_, _, rfl⟩
      · rw [List.mem_singleton.1 hm]
        exact ⟨_, _, rfl⟩
    · exact ⟨_, _, hquiet, hnone⟩
  · exact ⟨_, _, hquiet, hnone⟩

/-! ### Runs -/

inductive Operation where
  | greeted (sender : PublicKey) (time childrenTime : UInt64) (addr : Address)
  | checkStale
  | relay (e : Envelope)
  | drainOutbox
  | drainEvents
deriving DecidableEq

def perform (now : Nat) (w : Watched SuperPeerSide) : Operation → Watched SuperPeerSide
  | .greeted sender time childrenTime addr =>
    { w with side := (w.side.greeted now sender time childrenTime addr).2 }
  | .checkStale => { w with side := (w.side.checkStale now).2 }
  | .relay e => { w with side := (w.side.relay now e).2 }
  | .drainOutbox => { w with side := w.side.drainOutbox.2 }
  | .drainEvents => ⟨w.side.drainEvents.2, w.handedOut ++ w.side.drainEvents.1⟩

def run (own : PublicKey) (config : DiscoveryConfig) (ops : List (Nat × Operation)) : Watched SuperPeerSide :=
  ops.foldl (fun w o => perform o.1 w o.2) ⟨start own config, []⟩

theorem faithful_perform {w : Watched SuperPeerSide} (h : w.Faithful SuperPeerSide.events Shown) (now : Nat)
    (op : Operation) : (perform now w op).Faithful SuperPeerSide.events Shown := by
  cases op with
  | greeted sender time childrenTime addr =>
    exact h.reported (reports_greeted w.side now sender time childrenTime addr)
  | checkStale => exact h.reported (reports_checkStale w.side now)
  | relay e => exact h.reported (reports_relay w.side now e)
  | drainOutbox => exact h.reported (reports_silent rfl fun _ => rfl)
  | drainEvents => exact h.handOut rfl fun v hv => ⟨hv.children, hv.others, hv.gateway⟩

theorem faithful_start (own : PublicKey) (config : DiscoveryConfig) :
    Faithful SuperPeerSide.events Shown ⟨start own config, []⟩ :=
  ⟨View.orderly_nil _, fun _ => rfl, fun _ _ _ => rfl, rfl⟩

/-- **The events of a super peer are faithful** in every run. -/
theorem events_faithful (own : PublicKey) (config : DiscoveryConfig) (ops : List (Nat × Operation)) :
    (run own config ops).Faithful SuperPeerSide.events Shown :=
  List.foldlRecOn ops _ (faithful_start own config) fun _ hw o _ => faithful_perform hw o.1 o.2

end SuperPeerSide

/-! ### Both sides -/

/-- **Discovery events reconstruct what discovery knows.**  After every run of a child's part of discovery that
starts after moment zero, and of a super peer's part, whatever messages come: replayed in order from the empty view,
each event so far was expected, so that no path goes that was not there, no reachable super peer is added again, and
the super peer in use always becomes another one; and the view shows exactly the reachable super peers, the confirmed direct
paths and the gateway of the child, and the children of the super peer, each with its address. -/
theorem discovery_reconstructed (own : PublicKey) (config : DiscoveryConfig)
    (asChild : List (Nat × ChildSide.Operation)) (asSuperPeer : List (Nat × SuperPeerSide.Operation))
    (hclock : ∀ o ∈ asChild, 0 < o.1) :
    (ChildSide.run own config asChild).Faithful ChildSide.events ChildSide.Shown ∧
      (SuperPeerSide.run own config asSuperPeer).Faithful SuperPeerSide.events SuperPeerSide.Shown :=
  ⟨ChildSide.events_faithful own config asChild hclock, SuperPeerSide.events_faithful own config asSuperPeer⟩

/-- A child finds its super peer and a direct path, and loses both for want of acknowledgements; a super peer has a
child that moves and then leaves. -/
theorem discovery_reconstructed_sample :
    let own : PublicKey := ⟨.filled 32 1⟩
    let gateway : PublicKey := ⟨.filled 32 2⟩
    let peer : PublicKey := ⟨.filled 32 3⟩
    let a := Address.ofV4 10 0 0 1 7
    let b := Address.ofV4 10 0 0 2 7
    let config : DiscoveryConfig := { superPeers := .ofList [(gateway, a)] }
    let asChild : List (Nat × ChildSide.Operation) :=
      [(1, .heartbeat), (2, .receive gateway (.acknowledgement 1) a), (3, .receive gateway (.unite peer b) a),
        (4, .receive peer (.acknowledgement 3) b), (90000, .heartbeat)]
    let asSuperPeer : List (Nat × SuperPeerSide.Operation) :=
      [(1, .greeted peer 1 1 a), (2, .greeted peer 2 2 b), (90000, .checkStale)]
    (ChildSide.run own config asChild).told ChildSide.events =
        [.superPeerChanged (some gateway), .pathAdded gateway a .superPeer, .pathAdded peer b .traversing,
          .pathRemoved gateway .superPeer, .superPeerChanged none, .pathRemoved peer .traversing] ∧
      (SuperPeerSide.run own config asSuperPeer).told SuperPeerSide.events =
        [.pathAdded peer a .children, .pathAdded peer b .children, .pathRemoved peer .children] ∧
      (ChildSide.run own config asChild).Faithful ChildSide.events ChildSide.Shown ∧
      (SuperPeerSide.run own config asSuperPeer).Faithful SuperPeerSide.events SuperPeerSide.Shown :=
  ⟨by decide +kernel, by decide +kernel, discovery_reconstructed _ _ _ _ (by decide)⟩

end Overlay
