import Overlay.Discovery.ChildSide
import Overlay.Proofs.Discovery.View

/-!
# The events of a child

A view shows a child's part of discovery (`ChildSide.Shown`) if its paths to super peers are the reachable super
peers, its direct paths are those to confirmed peers, and its gateway is the one in use.  Every operation reports
what it changes of that, so the events of every run reconstruct it (`events_faithful`).

A message either does not count and changes nothing, or what it makes of the state is written out in full
(`acknowledgedBySuperPeer_cases`, `introduced_cases`, `greetedOnPath_cases`, `acknowledgedOnPath_cases`); whatever is
said elsewhere of the messages to a child is read off these.

A direct path is confirmed when its last acknowledgement came at a moment that is not zero, so acknowledgements must
not come at moment zero; nothing else is asked of the clock.
-/

namespace Overlay

namespace ChildSide

open Watched

variable {c : ChildSide} {v : View} {now : Nat}

def reaches (c : ChildSide) (peer : PublicKey) : Bool := (c.superPeers.get? peer).any (·.reachable)

def confirms (c : ChildSide) (peer : PublicKey) : Bool := (c.traversing.get? peer).any (·.isConfirmed)

/-- A view shows what the application has to know of a child's part of discovery, and nothing else. -/
structure Shown (v : View) (c : ChildSide) : Prop where
  superPeers : ∀ p, (v.paths p .superPeer).isSome = c.reaches p
  traversing : ∀ p, (v.paths p .traversing).isSome = c.confirms p
  children : ∀ p, v.paths p .children = none
  tcpFallback : ∀ p, v.paths p .tcpFallback = none
  gateway : v.gateway = c.best

/-- Changes of a child's part of discovery that are reported. -/
abbrev Reports (c c' : ChildSide) : Prop := Watched.Reports ChildSide.events Shown c c'

theorem reports_silent {c' : ChildSide} (he : c'.events = c.events) (hb : c'.best = c.best)
    (hr : ∀ p, c'.reaches p = c.reaches p) (ht : ∀ p, c'.confirms p = c.confirms p) : c.Reports c' := by
  refine Reports.silent he ?_
  intro v hv
  exact ⟨fun p => (hv.superPeers p).trans (hr p).symm, fun p => (hv.traversing p).trans (ht p).symm,
    hv.children, hv.tcpFallback, hv.gateway.trans hb.symm⟩

theorem Shown.superPeers_changed {v' : View} {c' : ChildSide} (hv : Shown v c)
    (hpaths : ∀ p k, k ≠ .superPeer → v'.paths p k = v.paths p k) (hgateway : v'.gateway = v.gateway)
    (hbest : c'.best = c.best) (ht : c'.traversing = c.traversing)
    (h : ∀ p, (v'.paths p .superPeer).isSome = c'.reaches p) : Shown v' c' where
  superPeers := h
  traversing p := by
    rw [hpaths p _ (by decide), hv.traversing p, confirms, confirms, ht]
  children p := (hpaths p _ (by decide)).trans (hv.children p)
  tcpFallback p := (hpaths p _ (by decide)).trans (hv.tcpFallback p)
  gateway := hgateway.trans (hv.gateway.trans hbest.symm)

theorem Shown.traversing_changed {v' : View} {c' : ChildSide} (hv : Shown v c)
    (hpaths : ∀ p k, k ≠ .traversing → v'.paths p k = v.paths p k) (hgateway : v'.gateway = v.gateway)
    (hbest : c'.best = c.best) (hs : c'.superPeers = c.superPeers)
    (h : ∀ p, (v'.paths p .traversing).isSome = c'.confirms p) : Shown v' c' where
  superPeers p := by
    rw [hpaths p _ (by decide), hv.superPeers p, reaches, reaches, hs]
  traversing := h
  children p := (hpaths p _ (by decide)).trans (hv.children p)
  tcpFallback p := (hpaths p _ (by decide)).trans (hv.tcpFallback p)
  gateway := hgateway.trans (hv.gateway.trans hbest.symm)

theorem reports_post (c : ChildSide) (messages : List Outbound) : c.Reports (c.post messages) :=
  reports_silent rfl rfl (fun _ => rfl) fun _ => rfl

/-! ### The gateway -/

def loseSuperPeers (c : ChildSide) (now : Nat) : ChildSide :=
  let stale := c.isStaleSuperPeer now
  { c with superPeers := c.superPeers.mapValues fun _ p => if stale p then { p with reachable := false } else p }
    |>.announce (View.removals c.superPeers .superPeer fun p => stale p && p.reachable)

def takeGateway (c : ChildSide) (best : Option PublicKey) : ChildSide :=
  { c with best := best }.announce (if best = c.best then [] else [.superPeerChanged best])

theorem chooseGateway_eq (c : ChildSide) (now : Nat) :
    c.chooseGateway now = (c.loseSuperPeers now).takeGateway
      (bestOf (c.superPeers.entries.filter fun e => !c.isStaleSuperPeer now e.2)) := by
  simp only [chooseGateway, takeGateway, loseSuperPeers, announce, View.removals, List.append_assoc]
  rfl

theorem reports_loseSuperPeers (c : ChildSide) (now : Nat) : c.Reports (c.loseSuperPeers now) := by
  refine ⟨_, rfl, ?_⟩
  intro v hv
  refine ⟨View.orderly_losses (c.isStaleSuperPeer now) hv.superPeers,
    hv.superPeers_changed ?_ (v.gateway_removals _ _ _) rfl rfl ?_⟩
  · intro p k hk
    rw [View.paths_removals, if_neg fun h => hk h.1]
  · intro p
    rw [View.paths_losses (c.isStaleSuperPeer now) hv.superPeers]
    simp only [reaches, loseSuperPeers, announce, Table.get?_mapValues]
    cases c.superPeers.get? p with
    | none => rfl
    | some r => cases hs : c.isStaleSuperPeer now r <;> simp [hs]

theorem reports_takeGateway (c : ChildSide) (best : Option PublicKey) : c.Reports (c.takeGateway best) := by
  by_cases hb : best = c.best
  · refine reports_silent ?_ hb (fun _ => rfl) fun _ => rfl
    simp only [takeGateway, announce, if_pos hb, List.append_nil]
  · refine ⟨[.superPeerChanged best], by simp only [takeGateway, announce, if_neg hb], ?_⟩
    intro v hv
    refine ⟨View.orderly_cons.2 ⟨?_, View.orderly_nil _⟩, hv.superPeers, hv.traversing, hv.children,
      hv.tcpFallback, rfl⟩
    show v.gateway ≠ best
    rw [hv.gateway]
    exact Ne.symm hb

theorem reports_chooseGateway (c : ChildSide) (now : Nat) : c.Reports (c.chooseGateway now) := by
  rw [chooseGateway_eq]
  exact (reports_loseSuperPeers c now).trans (reports_takeGateway _ _)

/-! ### Heartbeats -/

theorem reports_greetSuperPeers (c : ChildSide) (now : Nat) : c.Reports (c.greetSuperPeers now) := by
  refine reports_silent rfl rfl ?_ fun _ => rfl
  intro p
  simp only [reaches, greetSuperPeers, post, Table.get?_mapValues]
  cases c.superPeers.get? p with
  | none => rfl
  | some r =>
    show (r.helloSent now).reachable = r.reachable
    unfold SuperPeer.helloSent
    split <;> rfl

theorem confirmed_helloSent (p : TraversingPeer) (now : Nat) :
    (p.helloSent now).isConfirmed = p.isConfirmed := by
  unfold TraversingPeer.helloSent
  split <;> rfl

theorem reports_tendPaths (c : ChildSide) (now : Nat) : c.Reports (c.tendPaths now) := by
  refine ⟨View.removals c.traversing .traversing fun p => c.isStalePath now p && p.isConfirmed, rfl, ?_⟩
  intro v hv
  refine ⟨View.orderly_losses (c.isStalePath now) hv.traversing,
    hv.traversing_changed ?_ (v.gateway_removals _ _ _) rfl rfl ?_⟩
  · intro p k hk
    rw [View.paths_removals, if_neg fun h => hk h.1]
  · intro p
    rw [View.paths_losses (c.isStalePath now) hv.traversing]
    simp only [confirms, tendPaths, announce, post, Table.get?_mapValues, Table.get?_filter]
    cases c.traversing.get? p with
    | none => rfl
    | some r => cases hs : c.isStalePath now r <;> simp [Option.filter, confirmed_helloSent, hs]

theorem reports_heartbeat (c : ChildSide) (now : Nat) : c.Reports (c.heartbeat now) :=
  ((reports_chooseGateway c now).trans (reports_greetSuperPeers _ now)).trans (reports_tendPaths _ now)

/-! ### What becomes of a message -/

/-- An acknowledgement from a super peer counts if it is fresh.  The super peer is reachable then, and the gateway is
chosen anew. -/
theorem acknowledgedBySuperPeer_cases (c : ChildSide) (now : Nat) (sender : PublicKey) (time : UInt64)
    (addr : Address) : c.acknowledgedBySuperPeer now sender time addr = (false, c) ∨
      ∃ r, c.superPeers.get? sender = some r ∧ c.acknowledgedBySuperPeer now sender time addr = (true,
        (announce { c with
            superPeers := c.superPeers.insert sender { r.acknowledged now (now - time.toNat) with reachable := true } }
          (if r.reachable then [] else [.pathAdded sender addr .superPeer])).chooseGateway now) := by
  unfold acknowledgedBySuperPeer
  cases hr : c.superPeers.get? sender with
  | none => exact Or.inl rfl
  | some r =>
    simp only
    split
    · refine Or.inr ⟨r, rfl, ?_⟩
      cases r.reachable <;> simp [announce]
    · exact Or.inl rfl

def introducedRecord (c : ChildSide) (now : Nat) (peer : PublicKey) (addr : Address) : TraversingPeer :=
  ((((c.traversing.get? peer).getD (.ofAddress addr)).addCandidate addr).applicationSeen now).helloSent now

/-- There is a record of the peer, or room for one more. -/
def HasRoom (c : ChildSide) (peer : PublicKey) : Prop :=
  c.traversing.get? peer = none → c.config.maxPeers = 0 ∨ c.traversing.size < c.config.maxPeers

/-- An introduction counts if it comes from a super peer, is about somebody else and there is room.  The peer is then
tried. -/
theorem introduced_cases (c : ChildSide) (now : Nat) (sender peer : PublicKey) (addr : Address) :
    c.introduced now sender peer addr = (false, c) ∨
    c.isSuperPeer sender = true ∧ peer ≠ c.own ∧ c.HasRoom peer ∧
      c.introduced now sender peer addr = (true,
        post { c with traversing := c.traversing.insert peer (c.introducedRecord now peer addr) }
          (probes peer (c.introducedRecord now peer addr) now)) := by
  unfold introduced
  split
  · exact .inl rfl
  rename_i hsender
  simp only [Bool.or_eq_true, Bool.not_eq_true', decide_eq_true_eq, not_or, Bool.not_eq_false] at hsender
  simp only
  split
  · exact .inl rfl
  rename_i hroom
  refine .inr ⟨hsender.1, hsender.2, fun hnone => ?_, rfl⟩
  simp only [hnone, Option.isNone_none, Bool.true_and, Bool.and_eq_true, decide_eq_true_eq] at hroom
  omega

/-- A greeting counts if its sender has a record, and the path then leads to where the greeting came from. -/
theorem greetedOnPath_cases (c : ChildSide) (now : Nat) (sender : PublicKey) (time childrenTime : UInt64)
    (addr : Address) : c.greetedOnPath now sender time childrenTime addr = (false, c) ∨
      ∃ r, c.traversing.get? sender = some r ∧ c.greetedOnPath now sender time childrenTime addr = (true,
        post { c with traversing := c.traversing.insert sender (r.setAddr addr) }
          [⟨sender, addr, .acknowledgement time⟩]) := by
  unfold greetedOnPath
  split
  · exact Or.inl rfl
  · cases hr : c.traversing.get? sender with
    | none => exact Or.inl rfl
    | some r => exact Or.inr ⟨r, rfl, rfl⟩

/-- An acknowledgement on a direct path counts if its sender has a record.  The path is confirmed then, and told if it was
not, or led elsewhere. -/
theorem acknowledgedOnPath_cases (c : ChildSide) (now : Nat) (sender : PublicKey) (time : UInt64)
    (addr : Address) : c.acknowledgedOnPath now sender time addr = (false, c) ∨
      ∃ r, c.traversing.get? sender = some r ∧ c.acknowledgedOnPath now sender time addr = (true,
        announce { c with traversing := c.traversing.insert sender (r.acknowledged addr now) }
          (if !r.isConfirmed || r.addr ≠ addr then [.pathAdded sender addr .traversing] else [])) := by
  unfold acknowledgedOnPath
  split
  · exact Or.inl rfl
  · cases hr : c.traversing.get? sender with
    | none => exact Or.inl rfl
    | some r => exact Or.inr ⟨r, rfl, rfl⟩

/-! ### Messages -/

theorem reports_acknowledgedBySuperPeer (c : ChildSide) (now : Nat) (sender : PublicKey) (time : UInt64)
    (addr : Address) : c.Reports (c.acknowledgedBySuperPeer now sender time addr).2 := by
  rcases c.acknowledgedBySuperPeer_cases now sender time addr with hno | ⟨p, hp, hyes⟩
  · rw [hno]
    exact .refl c
  rw [hyes]
  refine Reports.trans ?_ (reports_chooseGateway _ now)
  have hreaches : ∀ (r : SuperPeer) q, ((c.superPeers.insert sender r).get? q).any (·.reachable) =
      if q = sender then r.reachable else c.reaches q := by
    intro r q
    rw [Table.get?_insert]
    split <;> rfl
  have hold : c.reaches sender = p.reachable := by rw [reaches, hp, Option.any_some]
  cases hreach : p.reachable with
  | true =>
    refine reports_silent (List.append_nil _) rfl ?_ fun _ => rfl
    intro q
    refine (hreaches _ q).trans ?_
    split
    · rename_i hq
      rw [hq, hold, hreach]
    · rfl
  | false =>
    refine ⟨[.pathAdded sender addr .superPeer], rfl, ?_⟩
    intro v hv
    have hshown := hv.superPeers sender
    rw [hold, hreach, Option.isSome_eq_false_iff, Option.isNone_iff_eq_none] at hshown
    refine ⟨View.orderly_cons.2 ⟨fun _ => hshown, View.orderly_nil _⟩,
      hv.superPeers_changed ?_ rfl rfl rfl ?_⟩
    · intro q k hk
      rw [View.paths_added, if_neg fun h => hk h.2]
    · intro q
      refine Eq.trans ?_ (hreaches _ q).symm
      rw [View.paths_added, ← hv.superPeers q]
      by_cases hq : q = sender <;> simp [hq]

/-- A record that is put in the place of another one shows in the view if its path is confirmed. -/
theorem confirms_insert (c : ChildSide) (peer : PublicKey) (r : TraversingPeer) (q : PublicKey) :
    ((c.traversing.insert peer r).get? q).any (·.isConfirmed) = if q = peer then r.isConfirmed else c.confirms q := by
  rw [Table.get?_insert]
  split <;> rfl

theorem reports_record (peer : PublicKey) {r : TraversingPeer} (hr : r.isConfirmed = c.confirms peer) :
    c.Reports { c with traversing := c.traversing.insert peer r } := by
  refine reports_silent rfl rfl (fun _ => rfl) ?_
  intro q
  refine (c.confirms_insert peer r q).trans ?_
  split
  · rename_i hq
    rw [hq, hr]
  · rfl

theorem reports_introduced (c : ChildSide) (now : Nat) (sender peer : PublicKey) (addr : Address) :
    c.Reports (c.introduced now sender peer addr).2 := by
  rcases c.introduced_cases now sender peer addr with hno | ⟨-, -, -, hyes⟩
  · rw [hno]
    exact .refl c
  · rw [hyes]
    refine (reports_record _ ?_).trans (reports_post _ _)
    rw [introducedRecord, confirmed_helloSent, confirms]
    cases c.traversing.get? peer <;> rfl

theorem reports_greetedOnPath (c : ChildSide) (now : Nat) (sender : PublicKey) (time childrenTime : UInt64)
    (addr : Address) : c.Reports (c.greetedOnPath now sender time childrenTime addr).2 := by
  rcases c.greetedOnPath_cases now sender time childrenTime addr with hno | ⟨p, hp, hyes⟩
  · rw [hno]
    exact .refl c
  · rw [hyes]
    refine (reports_record _ ?_).trans (reports_post _ _)
    rw [confirms, hp]
    rfl

theorem reports_acknowledgedOnPath (c : ChildSide) (hnow : 0 < now) (sender : PublicKey) (time : UInt64)
    (addr : Address) : c.Reports (c.acknowledgedOnPath now sender time addr).2 := by
  have hconfirmed : ∀ p : TraversingPeer, (p.acknowledged addr now).isConfirmed = true :=
    fun p => decide_eq_true hnow
  rcases c.acknowledgedOnPath_cases now sender time addr with hno | ⟨p, hp, hyes⟩
  · rw [hno]
    exact .refl c
  have hold : c.confirms sender = p.isConfirmed := by rw [confirms, hp, Option.any_some]
  rw [hyes]
  split
  · refine ⟨[.pathAdded sender addr .traversing], rfl, ?_⟩
    intro v hv
    refine ⟨View.orderly_cons.2 ⟨fun h => absurd h (by decide), View.orderly_nil _⟩,
      hv.traversing_changed ?_ rfl rfl rfl ?_⟩
    · intro q k hk
      rw [View.paths_added, if_neg fun h => hk h.2]
    · intro q
      refine Eq.trans ?_ (c.confirms_insert sender _ q).symm
      rw [View.paths_added, ← hv.traversing q, hconfirmed]
      by_cases hq : q = sender <;> simp [hq]
  · rename_i hnews
    have hbefore : p.isConfirmed = true := by
      cases hconf : p.isConfirmed <;> simp [hconf] at hnews ⊢
    have hrecord := reports_record (c := c) sender (r := p.acknowledged addr now)
      ((hconfirmed p).trans (hold.trans hbefore).symm)
    exact hrecord.trans (reports_silent (List.append_nil _) rfl (fun _ => rfl) fun _ => rfl)

theorem reports_receive (c : ChildSide) (hnow : 0 < now) (sender : PublicKey) (m : DiscoveryMessage)
    (addr : Address) : c.Reports (c.receive now sender m addr).2 := by
  cases m with
  | acknowledgement time =>
    simp only [receive]
    split
    · exact reports_acknowledgedBySuperPeer c now sender time addr
    · exact reports_acknowledgedOnPath c hnow sender time addr
  | hello time childrenTime => exact reports_greetedOnPath c now sender time childrenTime addr
  | unite peer addr => exact reports_introduced c now sender peer addr
  | application _ => exact .refl c

/-! ### Paths -/

theorem reports_applicationSeen (c : ChildSide) (now : Nat) (peer : PublicKey) :
    c.Reports (c.applicationSeen now peer) := by
  refine reports_silent rfl rfl (fun _ => rfl) ?_
  intro q
  simp only [confirms, applicationSeen, Table.get?_modify]
  split
  · cases c.traversing.get? q <;> rfl
  · rfl

theorem reports_route (c : ChildSide) (now : Nat) (peer : PublicKey) : c.Reports (c.route now peer).2 := by
  unfold route
  split
  · exact reports_applicationSeen c now peer
  · exact .refl c

/-! ### Runs -/

inductive Operation where
  | heartbeat
  | receive (sender : PublicKey) (m : DiscoveryMessage) (addr : Address)
  | applicationSeen (peer : PublicKey)
  | route (peer : PublicKey)
  | drainOutbox
  | drainEvents
deriving DecidableEq

def perform (now : Nat) (w : Watched ChildSide) : Operation → Watched ChildSide
  | .heartbeat => { w with side := w.side.heartbeat now }
  | .receive sender m addr => { w with side := (w.side.receive now sender m addr).2 }
  | .applicationSeen peer => { w with side := w.side.applicationSeen now peer }
  | .route peer => { w with side := (w.side.route now peer).2 }
  | .drainOutbox => { w with side := w.side.drainOutbox.2 }
  | .drainEvents => ⟨w.side.drainEvents.2, w.handedOut ++ w.side.drainEvents.1⟩

def run (own : PublicKey) (config : DiscoveryConfig) (ops : List (Nat × Operation)) : Watched ChildSide :=
  ops.foldl (fun w o => perform o.1 w o.2) ⟨start own config, []⟩

theorem run_concat (own : PublicKey) (config : DiscoveryConfig) (ops : List (Nat × Operation))
    (o : Nat × Operation) : run own config (ops ++ [o]) = perform o.1 (run own config ops) o.2 := by
  unfold run
  rw [List.foldl_append]
  rfl

theorem faithful_perform {w : Watched ChildSide} (h : w.Faithful ChildSide.events Shown) (hnow : 0 < now)
    (op : Operation) : (perform now w op).Faithful ChildSide.events Shown := by
  cases op with
  | heartbeat => exact h.reported (reports_heartbeat w.side now)
  | receive sender m addr => exact h.reported (reports_receive w.side hnow sender m addr)
  | applicationSeen peer => exact h.reported (reports_applicationSeen w.side now peer)
  | route peer => exact h.reported (reports_route w.side now peer)
  | drainOutbox => exact h.reported (reports_silent rfl rfl (fun _ => rfl) fun _ => rfl)
  | drainEvents =>
    refine h.handOut rfl ?_
    intro v hv
    exact ⟨hv.superPeers, hv.traversing, hv.children, hv.tcpFallback, hv.gateway⟩

theorem faithful_start (own : PublicKey) (config : DiscoveryConfig) :
    Faithful ChildSide.events Shown ⟨start own config, []⟩ := by
  refine ⟨View.orderly_nil _, ⟨?_, fun _ => rfl, fun _ => rfl, fun _ => rfl, rfl⟩⟩
  intro p
  show false = (((config.superPeers.filter fun key _ => key ≠ own).mapValues
    fun _ => SuperPeer.ofAddress).get? p).any (·.reachable)
  rw [Table.get?_mapValues]
  cases (config.superPeers.filter fun key _ => key ≠ own).get? p <;> rfl

/-- **The events of a child are faithful** in every run that starts after moment zero. -/
theorem events_faithful (own : PublicKey) (config : DiscoveryConfig) (ops : List (Nat × Operation))
    (hclock : ∀ o ∈ ops, 0 < o.1) : (run own config ops).Faithful ChildSide.events Shown :=
  List.foldlRecOn ops _ (faithful_start own config) fun _ hw o ho => faithful_perform hw (hclock o ho) o.2

end ChildSide

end Overlay
