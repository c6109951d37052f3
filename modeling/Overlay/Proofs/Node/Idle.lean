import Mathlib.Data.List.Induction
import Overlay.Proofs.Crypto.Textbook
import Overlay.Proofs.Node.Upkeep
import Overlay.Proofs.Session.Move

/-!
# Idle direct paths of a node

A child drops a direct path at a heartbeat if it is idle, or if the peer is silent.  In every run, the record of a peer
is as old as the last upkeep for that peer (`Life.Dated`).  So a path for which there was no application data and no
introduction for too long is dropped and reported exactly if no message of the handshake was sent on it either, or the
peer is silent (`Life.dropped_iff`): the handshake, which nobody but the engine asks for, keeps a path that the
application does not use (`Life.dropped_iff_shaken`).
-/

namespace Overlay

/-- Something that happens to a node, or to its streams. -/
inductive Happening where
  | stimulus (x : Surroundings) (s : Stimulus)
  | linkEnded
  | clientJoined (addr : Address)
  | clientLeft (addr : Address)
  | stop

def Happening.moment? : Happening → Option Nat
  | .stimulus x _ => some x.now
  | .linkEnded | .clientJoined _ | .clientLeft _ | .stop => none

/-- A node after some happenings, with the upkeep that it did. -/
structure Life where
  node : Node
  entropy : Entropy
  upkeeps : List Upkeep := []

namespace Life

open Activity ChildSide Upkeep

variable {w : Life} {config : DiscoveryConfig} {t : Nat}

def meet (w : Life) : Happening → Life
  | .stimulus x s =>
    let a := (w.node.step x s w.entropy).2
    ⟨a.node, a.entropy, w.upkeeps ++ w.node.upkeeps x s w.entropy⟩
  | .linkEnded => { w with node := w.node.linkEnded }
  | .clientJoined addr => { w with node := w.node.clientJoined addr }
  | .clientLeft addr => { w with node := w.node.clientLeft addr }
  | .stop => { w with node := w.node.stop }

def run (w : Life) (happenings : List Happening) : Life := happenings.foldl meet w

theorem run_concat (w : Life) (happenings : List Happening) (h : Happening) :
    w.run (happenings ++ [h]) = (w.run happenings).meet h := by
  unfold run
  rw [List.foldl_append]
  rfl

/-- The record of a peer is as old as the last upkeep for that peer, and there was no upkeep after a moment. -/
structure Dated (config : DiscoveryConfig) (t : Nat) (w : Life) : Prop where
  child : w.node.superPeerSide = none
  config : w.node.childSide.config = config
  past : ∀ k ∈ w.upkeeps, k.moment ≤ t
  found : ∀ p q, w.node.childSide.traversing.get? p = some q →
    ∃ k ∈ w.upkeeps, k.peer = p ∧ k.moment = q.lastApplicationAt
  latest : ∀ p q, w.node.childSide.traversing.get? p = some q →
    ∀ k ∈ w.upkeeps, k.peer = p → k.moment ≤ q.lastApplicationAt

theorem Dated.later (h : w.Dated config t) {now : Nat} (hnow : t ≤ now) : w.Dated config now :=
  ⟨h.child, h.config, fun k hk => Nat.le_trans (h.past k hk) hnow, h.found, h.latest⟩

theorem Dated.elsewhere (h : w.Dated config t) {n : Node} (hs : n.superPeerSide = w.node.superPeerSide)
    (hc : n.childSide = w.node.childSide) : ({ w with node := n } : Life).Dated config t :=
  ⟨hs.trans h.child, hc ▸ h.config, h.past, hc ▸ h.found, hc ▸ h.latest⟩

theorem moment_upkeeps {x : Surroundings} {s : Stimulus} {n : Node} {r : Entropy} {k : Upkeep}
    (hk : k ∈ n.upkeeps x s r) : k.moment = x.now := by
  have hmessage : ∀ (c : ChildSide) sender m, k ∈ c.upkeeps x.now sender m → k.moment = x.now := by
    intro c sender m hk
    unfold ChildSide.upkeeps at hk
    split at hk
    · rw [List.mem_singleton.1 hk]
    · split at hk
      · rw [List.mem_singleton.1 hk]
      · cases hk
    all_goals cases hk
  have hheard : ∀ (a : Activity) data, k ∈ a.heardUpkeeps x data → k.moment = x.now := by
    intro a data hk
    unfold heardUpkeeps at hk
    split at hk
    · exact hmessage _ _ _ hk
    · cases hk
  unfold Node.upkeeps at hk
  split at hk
  · rcases List.mem_append.1 hk with hk | hk
    · cases s with
      | heartbeat => cases hk
      | send peer payload =>
        simp only [handleUpkeeps] at hk
        split at hk
        · rw [List.mem_singleton.1 hk]
        · cases hk
      | datagram data sender => exact hheard _ _ hk
      | frame data sender => exact hheard _ _ hk
    · obtain ⟨m, -, rfl⟩ := List.mem_map.1 hk
      rfl
  · cases hk

theorem Dated.stimulus (h : w.Dated config t) {x : Surroundings} (hnow : t ≤ x.now) (s : Stimulus) :
    (w.meet (.stimulus x s)).Dated config x.now := by
  have hstep := fun p => Node.carries_step (x := x) (s := s) (r := w.entropy) h.child p
  refine ⟨(hstep default).superPeerSide.trans h.child, (hstep default).childSide.config.trans h.config, ?_, ?_, ?_⟩
  · intro k hk
    rcases List.mem_append.1 hk with hk | hk
    · exact Nat.le_trans (h.past k hk) hnow
    · exact Nat.le_of_eq (moment_upkeeps hk)
  · intro p q hq
    rcases (hstep p).childSide.record q hq with ⟨⟨k, hk, hp⟩, hage⟩ | ⟨-, q₀, hq₀, hage⟩
    · exact ⟨k, List.mem_append_right _ hk, hp, (moment_upkeeps hk).trans hage.symm⟩
    · obtain ⟨k, hk, hp, hmoment⟩ := h.found p q₀ hq₀
      exact ⟨k, List.mem_append_left _ hk, hp, hmoment.trans hage.symm⟩
  · intro p q hq k hk hp
    rcases (hstep p).childSide.record q hq with ⟨-, hage⟩ | ⟨huntouched, q₀, hq₀, hage⟩
    · rw [hage]
      rcases List.mem_append.1 hk with hk | hk
      · exact Nat.le_trans (h.past k hk) hnow
      · exact Nat.le_of_eq (moment_upkeeps hk)
    · rw [hage]
      rcases List.mem_append.1 hk with hk | hk
      · exact h.latest p q₀ hq₀ k hk hp
      · exact absurd ⟨k, hk, hp⟩ huntouched

def moments (happenings : List Happening) : List Nat := happenings.filterMap Happening.moment?

/-- In every run of a child on a clock that does not go back, the record of a peer is as old as the last upkeep for that
peer. -/
theorem dated_run (h : w.Dated config 0) (happenings : List Happening)
    (hclock : (moments happenings).Pairwise (· ≤ ·)) (ht : ∀ m ∈ moments happenings, m ≤ t) :
    (w.run happenings).Dated config t := by
  induction happenings using List.reverseRecOn generalizing t with
  | nil => exact h.later (Nat.zero_le t)
  | append_singleton happenings o ih =>
    rw [run_concat]
    have hsplit : moments (happenings ++ [o]) = moments happenings ++ moments [o] := List.filterMap_append
    rw [hsplit] at hclock ht
    obtain ⟨hbefore, -, horder⟩ := List.pairwise_append.1 hclock
    have hdated := fun {t} => ih (t := t) hbefore
    cases o with
    | stimulus x s =>
      have hnow : x.now ∈ moments [.stimulus x s] := List.mem_singleton.2 rfl
      have hlast := hdated (t := x.now) fun m hm => horder m hm x.now hnow
      exact (hlast.stimulus (Nat.le_refl _) s).later (ht _ (List.mem_append_right _ hnow))
    | linkEnded => exact (hdated fun m hm => ht m (List.mem_append_left _ hm)).elsewhere rfl rfl
    | clientJoined addr =>
      refine (hdated fun m hm => ht m (List.mem_append_left _ hm)).elsewhere ?_ ?_
      all_goals
        unfold Node.clientJoined
        split <;> rfl
    | clientLeft addr => exact (hdated fun m hm => ht m (List.mem_append_left _ hm)).elsewhere rfl rfl
    | stop => exact (hdated fun m hm => ht m (List.mem_append_left _ hm)).elsewhere rfl rfl

theorem dated_start {identity : KeyPair} {config : NodeConfig} {n : Node} (hstart : Node.start identity config = .ok n)
    (hchild : config.superPeerMode = false) (r : Entropy) : (⟨n, r, []⟩ : Life).Dated config.discovery 0 := by
  unfold Node.start NodeConfig.validate at hstart
  cases hf : config.fault? with
  | some fault =>
    rw [hf] at hstart
    cases hstart
  | none =>
    rw [hf] at hstart
    cases hstart
    refine ⟨by simp only [hchild, Bool.false_eq_true, if_false], rfl, nofun, ?_, ?_⟩
    · intro p q hq
      cases hq
    · intro p q hq
      cases hq

/-- **Handshakes keep idle paths.**  In every run of a child, a confirmed path for which there was neither application
data nor an accepted introduction for more than the idle time is dropped and reported by the next heartbeat exactly if
there was no message of the handshake on it for as long either, or if the peer is silent. -/
theorem dropped_iff (identity : KeyPair) (config : NodeConfig) (n : Node) (r : Entropy) (past : List Happening)
    (x : Surroundings) (w : Life) (p : PublicKey) (q : TraversingPeer) (hstart : Node.start identity config = .ok n)
    (hchild : config.superPeerMode = false) (hclock : (moments past ++ [x.now]).Pairwise (· ≤ ·))
    (hw : w = run ⟨n, r, []⟩ past) (hrunning : w.node.running = true)
    (hq : w.node.childSide.traversing.get? p = some q) (hconfirmed : q.isConfirmed = true)
    (hidle : ∀ k ∈ w.upkeeps, k.peer = p → k.cause ≠ .handshake →
      longAgo k.moment x.now config.discovery.pathIdleTime.millis = true) :
    let a := (w.node.step x .heartbeat w.entropy).2
    .tell (.pathRemoved p .traversing) ∈ a.actions ∧ a.node.childSide.traversing.get? p = none ↔
      (∀ k ∈ w.upkeeps, k.peer = p → k.cause = .handshake →
        longAgo k.moment x.now config.discovery.pathIdleTime.millis = true) ∨
      longAgo (max q.firstHelloAt q.lastAckAt) x.now config.discovery.helloTimeout.millis = true := by
  obtain ⟨hbefore, -, horder⟩ := List.pairwise_append.1 hclock
  have hdated : w.Dated config.discovery x.now := hw ▸
    dated_run (dated_start hstart hchild r) past hbefore fun m hm => horder m hm x.now (List.mem_singleton.2 rfl)
  clear hw hstart hclock hbefore horder
  -- The record is idle if all upkeep was long ago.
  have hage : longAgo q.lastApplicationAt x.now config.discovery.pathIdleTime.millis = true ↔
      ∀ k ∈ w.upkeeps, k.peer = p → k.cause = .handshake →
        longAgo k.moment x.now config.discovery.pathIdleTime.millis = true := by
    constructor
    · intro hold k hk hp _
      have hle := hdated.latest p q hq k hk hp
      simp only [longAgo, decide_eq_true_eq] at hold ⊢
      omega
    · intro hall
      obtain ⟨k, hk, hp, hmoment⟩ := hdated.found p q hq
      rw [← hmoment]
      by_cases hcause : k.cause = .handshake
      · exact hall k hk hp hcause
      · exact hidle k hk hp hcause
  have hstale : w.node.childSide.isStalePath x.now q = true ↔
      (∀ k ∈ w.upkeeps, k.peer = p → k.cause = .handshake →
        longAgo k.moment x.now config.discovery.pathIdleTime.millis = true) ∨
      longAgo (max q.firstHelloAt q.lastAckAt) x.now config.discovery.helloTimeout.millis = true := by
    rw [← hage, isStalePath, TraversingPeer.isStale, hdated.config, Bool.or_eq_true]
  rw [← hstale]
  -- What the heartbeat does, and then the flush.
  have hheartbeat := carries_heartbeat (a := { node := w.node, entropy := w.entropy }) hdated.child x
  have hchild' := hheartbeat.superPeerSide.trans hdated.child
  have hflush := carries_flush x hchild'
  have hkept := hflush.childSide.isSome_get? p
  have hbeat := get?_heartbeat w.node.childSide x.now p
  simp only [Node.step, hrunning, if_true, handle]
  rw [hheartbeat.childSide] at hkept
  rw [hq, Option.filter_some] at hbeat
  constructor
  · rintro ⟨-, hgone⟩
    rw [hgone, hbeat] at hkept
    cases hs : w.node.childSide.isStalePath x.now q with
    | true => rfl
    | false =>
      rw [hs] at hkept
      cases hkept
  · intro hs
    rw [hbeat, hs] at hkept
    refine ⟨told_flush x hchild' ?_, Option.isSome_eq_false_iff.1 hkept |> Option.isNone_iff_eq_none.1⟩
    rw [hheartbeat.childSide]
    exact removed_heartbeat hq hconfirmed hs

def textbookKey (secret : Nat) : PublicKey := Textbook.suite.publicOf ⟨Textbook.remainder secret⟩

def letter (secret now : Nat) (m : DiscoveryMessage) : Bytes :=
  let e := Engine.start (Textbook.suite.keyPair ⟨Textbook.remainder secret⟩) {}
  match (e.armOutbound Textbook.suite now (textbookKey 5) m.encode (Textbook.counting 50)).1 with
  | .ok armed => (⟨1, 0, textbookKey secret, textbookKey 5, armed⟩ : Envelope).encode
  | .error _ => []

def site (host : UInt8) : Address := ⟨.v4 (Block.filled 4 host), 22527⟩

def clock (now : Nat) : Surroundings := { suite := Textbook.suite, now := now, transport := fun _ _ => .ok () }

/-- A child that keeps idle paths for ten seconds. -/
def traveller : NodeConfig where
  arm := { retryInterval := .ofSeconds 1 }
  discovery := { pathIdleTime := .ofSeconds 10, superPeers := Table.empty.insert (textbookKey 17) (site 1) }

/-- The traveller's super peer introduces a peer to it, which acknowledges its greeting.  Its next heartbeat greets the
peer, under a key that has to be negotiated. -/
def journey : List Happening := [
  .stimulus (clock 1000) (.datagram (letter 17 1000 (.unite (textbookKey 7) (site 2))) (site 1)),
  .stimulus (clock 1001) (.datagram (letter 7 1001 (.acknowledgement 1000)) (site 2)),
  .stimulus (clock 9000) .heartbeat]

/-- The application has not used the path since the introduction, more than ten seconds ago; but it is kept. -/
theorem dropped_iff_shaken : ∃ n, Node.start (Textbook.suite.keyPair ⟨Textbook.remainder 5⟩) traveller = .ok n ∧
    let w := run ⟨n, Textbook.counting 11, []⟩ journey
    let a := (w.node.step (clock 12500) .heartbeat w.entropy).2
    (∀ k ∈ w.upkeeps, k.peer = textbookKey 7 → k.cause ≠ .handshake → longAgo k.moment 12500 10000 = true) ∧
      ¬ (.tell (.pathRemoved (textbookKey 7) .traversing) ∈ a.actions ∧
        a.node.childSide.traversing.get? (textbookKey 7) = none) := by
  have hlife : (Node.start (Textbook.suite.keyPair ⟨Textbook.remainder 5⟩) traveller).toOption.any fun n =>
      let w := run ⟨n, Textbook.counting 11, []⟩ journey
      w.node.running = true ∧
        (∀ k ∈ w.upkeeps, k.peer = textbookKey 7 → k.cause ≠ .handshake → longAgo k.moment 12500 10000 = true) ∧
        (∃ k ∈ w.upkeeps, k.peer = textbookKey 7 ∧ k.cause = .handshake ∧ longAgo k.moment 12500 10000 = false) ∧
        (w.node.childSide.traversing.get? (textbookKey 7)).any fun q =>
          q.isConfirmed = true ∧ longAgo (max q.firstHelloAt q.lastAckAt) 12500 30000 = false := by decide +kernel
  obtain ⟨n, hstart, hlife⟩ := (Option.any_eq_true _ _).1 hlife
  obtain ⟨hrunning, hidle, ⟨k, hk, hp, hcause, hrecent⟩, hpath⟩ := of_decide_eq_true hlife
  obtain ⟨q, hq, hq'⟩ := (Option.any_eq_true _ _).1 hpath
  obtain ⟨hconfirmed, hheard⟩ := of_decide_eq_true hq'
  have hstart' := ok_of_mem (Option.mem_toList.2 hstart)
  refine ⟨n, hstart', hidle, ?_⟩
  intro hgone
  rcases (dropped_iff _ traveller n (Textbook.counting 11) journey (clock 12500) _ (textbookKey 7) q hstart' rfl
    (by decide) rfl hrunning hq hconfirmed hidle).1 hgone with hall | hsilent
  · exact Bool.false_ne_true (hrecent.symm.trans (hall k hk hp hcause))
  · exact Bool.false_ne_true (hheard.symm.trans hsilent)

end Life

end Overlay
