import Mathlib.Data.List.Induction
import Overlay.Proofs.Discovery.ChildSide

/-!
# Whether the gateway is reachable

The gateway is chosen among the super peers that are not stale, and a super peer counts as fresh for a while after
the first greeting that was sent to it, whether it answers or not.  So the gateway need not be reachable
(`gateway_unreachable`).  But greetings go to all super peers at once, and what was lost once stays stale until it
acknowledges again (`Settled`).  So from the hello timeout after the first greeting on, every choice is a reachable
super peer, and there is none only where none is reachable (`gateway_reachable`).
-/

namespace Overlay

/-- The record of a super peer that has acknowledged, which makes it reachable. -/
def SuperPeer.answered (p : SuperPeer) (now latency : Nat) : SuperPeer :=
  { p.acknowledged now latency with reachable := true }

namespace ChildSide

open Watched

variable {c : ChildSide} {v : View} {now : Nat} {k : PublicKey}

/-! ### The best of some super peers -/

theorem better_mem {best : Option (PublicKey × SuperPeer)} {e e' : PublicKey × SuperPeer}
    (h : better best e = some e') : e' = e ∨ best = some e' := by
  unfold better at h
  split at h
  · exact Or.inl (Option.some.inj h).symm
  · split at h
    · exact Or.inl (Option.some.inj h).symm
    · exact Or.inr h

theorem foldl_better_mem {entries : List (PublicKey × SuperPeer)} {best : Option (PublicKey × SuperPeer)}
    {e : PublicKey × SuperPeer} (h : entries.foldl better best = some e) : e ∈ entries ∨ best = some e := by
  induction entries generalizing best with
  | nil => exact Or.inr h
  | cons e' entries ih =>
    rcases ih h with hlater | hbetter
    · exact Or.inl (List.mem_cons_of_mem e' hlater)
    · refine (better_mem hbetter).imp_left fun he => ?_
      rw [he]
      exact List.mem_cons_self

theorem foldl_better_isSome {entries : List (PublicKey × SuperPeer)} {best : Option (PublicKey × SuperPeer)}
    (h : entries ≠ [] ∨ best.isSome) : (entries.foldl better best).isSome := by
  induction entries generalizing best with
  | nil => exact h.resolve_left fun hne => hne rfl
  | cons e entries ih =>
    refine ih (Or.inr ?_)
    unfold better
    split
    · rfl
    · split <;> rfl

theorem best_chooseGateway (h : (c.chooseGateway now).best = some k) :
    ∃ p, c.superPeers.get? k = some p ∧ c.isStaleSuperPeer now p = false := by
  obtain ⟨e, he, rfl⟩ := Option.map_eq_some_iff.1 (show Option.map Prod.fst (List.foldl better none
    (c.superPeers.entries.filter fun e => !c.isStaleSuperPeer now e.2)) = some k from h)
  have hmem := (foldl_better_mem he).resolve_right fun hnone => by cases hnone
  obtain ⟨hentry, hfresh⟩ := List.mem_filter.1 hmem
  exact ⟨e.2, Table.mem_entries.1 hentry, by simpa using hfresh⟩

theorem stale_of_best_none (h : (c.chooseGateway now).best = none) {p : SuperPeer}
    (hp : c.superPeers.get? k = some p) : c.isStaleSuperPeer now p = true := by
  have hnone : List.foldl better none (c.superPeers.entries.filter fun e => !c.isStaleSuperPeer now e.2) = none :=
    Option.map_eq_none_iff.1 h
  refine Bool.of_not_eq_false fun hfresh => ?_
  have hmem : (k, p) ∈ c.superPeers.entries.filter fun e => !c.isStaleSuperPeer now e.2 :=
    List.mem_filter.2 ⟨Table.mem_entries.2 hp, by simp [hfresh]⟩
  have hsome : (List.foldl better none _).isSome = true := foldl_better_isSome (Or.inl (List.ne_nil_of_mem hmem))
  rw [hnone] at hsome
  cases hsome

theorem get?_chooseGateway (c : ChildSide) (now : Nat) (k : PublicKey) :
    (c.chooseGateway now).superPeers.get? k = (c.superPeers.get? k).map fun p =>
      if c.isStaleSuperPeer now p then { p with reachable := false } else p :=
  Table.get?_mapValues _ _ _

/-! ### What a view shows of the gateway -/

/-- Whether a view shows which super peers are reachable, and the gateway. -/
def ShowsGateway (v : View) (c : ChildSide) : Prop :=
  (∀ p, (v.paths p .superPeer).isSome = c.reaches p) ∧ v.gateway = c.best

abbrev KeepsGateway (c c' : ChildSide) : Prop := Watched.Updates ChildSide.events ShowsGateway c c'

/-- What is reported is reported to a view of the gateway, whatever else it shows. -/
theorem Reports.keepsGateway {c' : ChildSide} (h : c.Reports c') : KeepsGateway c c' := by
  obtain ⟨news, hnews, hreports⟩ := h
  refine ⟨news, hnews, fun v hv => ?_⟩
  -- The view is completed to one that shows everything.
  let whole : View := ⟨fun p k => match k with
    | .superPeer => v.paths p .superPeer
    | .traversing => if c.confirms p then some (.ofV4 0 0 0 0 0) else none
    | _ => none, v.gateway⟩
  have hwhole : Shown whole c := by
    refine ⟨hv.1, ?_, fun _ => rfl, fun _ => rfl, hv.2⟩
    intro p
    show (if c.confirms p = true then some _ else none : Option Address).isSome = c.confirms p
    cases c.confirms p <;> rfl
  have hshown := (hreports whole hwhole).2
  have hpaths : ∀ p, (v.replay news).paths p .superPeer = (whole.replay news).paths p .superPeer :=
    fun p => View.paths_congr news rfl
  have hgateway : (v.replay news).gateway = (whole.replay news).gateway := View.gateway_congr news rfl
  exact ⟨fun p => (congrArg Option.isSome (hpaths p)).trans (hshown.superPeers p), hgateway.trans hshown.gateway⟩

theorem keepsGateway_acknowledgedOnPath (c : ChildSide) (now : Nat) (sender : PublicKey) (time : UInt64)
    (addr : Address) : KeepsGateway c (c.acknowledgedOnPath now sender time addr).2 := by
  rcases c.acknowledgedOnPath_cases now sender time addr with hno | ⟨r, -, hyes⟩
  · rw [hno]
    exact .refl c
  · rw [hyes]
    refine ⟨_, rfl, fun v hv => ?_⟩
    split
    · refine ⟨fun p => ?_, hv.2⟩
      rw [View.paths_added, if_neg fun h => absurd h.2 (by decide)]
      exact hv.1 p
    · exact hv

theorem keepsGateway_receive (c : ChildSide) (now : Nat) (sender : PublicKey) (m : DiscoveryMessage)
    (addr : Address) : KeepsGateway c (c.receive now sender m addr).2 := by
  cases m with
  | acknowledgement time =>
    simp only [receive]
    split
    · exact (reports_acknowledgedBySuperPeer c now sender time addr).keepsGateway
    · exact keepsGateway_acknowledgedOnPath c now sender time addr
  | hello time childrenTime => exact (reports_greetedOnPath c now sender time childrenTime addr).keepsGateway
  | unite peer at' => exact (reports_introduced c now sender peer at').keepsGateway
  | application payload => exact .refl c

/-- The application's view shows the gateway and the reachable super peers at all times. -/
theorem showsGateway_run (own : PublicKey) (config : DiscoveryConfig) (ops : List (Nat × Operation)) :
    ShowsGateway ((run own config ops).view ChildSide.events) (run own config ops).side := by
  induction ops using List.reverseRecOn with
  | nil =>
    have hshown := (faithful_start own config).shown
    exact ⟨hshown.superPeers, hshown.gateway⟩
  | append_singleton ops o ih =>
    obtain ⟨now, op⟩ := o
    rw [run_concat]
    generalize run own config ops = w at ih ⊢
    cases op with
    | heartbeat => exact (reports_heartbeat w.side now).keepsGateway.view ih
    | receive sender m addr => exact (keepsGateway_receive w.side now sender m addr).view ih
    | applicationSeen peer => exact (reports_applicationSeen w.side now peer).keepsGateway.view ih
    | route peer => exact (reports_route w.side now peer).keepsGateway.view ih
    | drainOutbox => exact ih
    | drainEvents =>
      have htold : told ChildSide.events (perform now w .drainEvents) = w.told ChildSide.events :=
        told_handOut rfl
      rw [Watched.view, htold]
      exact ih

/-! ### When the gateway is chosen -/

/-- Whether the gateway is chosen in an operation: at heartbeats, and at acknowledgements of super peers that
count. -/
def chooses (c : ChildSide) (now : Nat) : Operation → Bool
  | .heartbeat => true
  | .receive sender (.acknowledgement time) _ =>
    c.isSuperPeer sender && c.config.acknowledgementFresh time.toNat now
  | _ => false

/-- The moment of the first greetings, which go out at the first heartbeat after moment zero; zero before. -/
def firstGreeting (ops : List (Nat × Operation)) : Nat :=
  ((ops.find? fun o => o.2 = .heartbeat && o.1 ≠ 0).map (·.1)).getD 0

theorem firstGreeting_concat (ops : List (Nat × Operation)) (now : Nat) (op : Operation) :
    firstGreeting (ops ++ [(now, op)]) =
      if firstGreeting ops = 0 ∧ op = .heartbeat then now else firstGreeting ops := by
  unfold firstGreeting
  rw [List.find?_append]
  cases hfind : ops.find? fun o => o.2 = .heartbeat && o.1 ≠ 0 with
  | none =>
    by_cases hop : op = .heartbeat
    · by_cases hnow : now = 0 <;> simp [hop, hnow]
    · simp [hop]
  | some o =>
    have hpos : o.1 ≠ 0 := by
      have hfound := List.find?_some hfind
      simp only [Bool.and_eq_true, decide_eq_true_eq] at hfound
      exact hfound.2
    simp [hpos]

theorem firstGreeting_le_concat (ops : List (Nat × Operation)) (o : Nat × Operation) :
    firstGreeting ops ≤ firstGreeting (ops ++ [o]) := by
  rw [firstGreeting_concat ops o.1 o.2]
  split
  · rename_i h
    omega
  · exact Nat.le_refl _

/-- What is known of the super peers after a run: when they were greeted first, and that those that were lost had
no contact in time at some moment of the run, or never any. -/
structure Settled (ops : List (Nat × Operation)) (c : ChildSide) : Prop where
  greeted : ∀ k p, c.superPeers.get? k = some p → p.firstHelloAt = firstGreeting ops
  lost : ∀ k p, c.superPeers.get? k = some p → p.reachable = false →
    p.lastAckAt = 0 ∨ ∃ o ∈ ops, longAgo p.lastAckAt o.1 c.config.helloTimeout.millis = true

theorem settled_start (own : PublicKey) (config : DiscoveryConfig) : Settled [] (start own config) := by
  have hget : ∀ k p, (start own config).superPeers.get? k = some p → ∃ addr, p = .ofAddress addr := by
    intro k p hp
    rw [start, Table.get?_mapValues] at hp
    obtain ⟨addr, _, hfresh⟩ := Option.map_eq_some_iff.1 hp
    exact ⟨addr, hfresh.symm⟩
  refine ⟨?_, ?_⟩
  · intro k p hp
    obtain ⟨addr, rfl⟩ := hget k p hp
    rfl
  · intro k p hp _
    obtain ⟨addr, rfl⟩ := hget k p hp
    exact Or.inl rfl

variable {ops : List (Nat × Operation)} {op : Operation}

/-- A choice leaves what is known of the super peers, and adds that those that it finds stale are lost. -/
theorem Settled.lost_chooseGateway (h : Settled ops c) (op : Operation) {k : PublicKey} {p : SuperPeer}
    (hp : (c.chooseGateway now).superPeers.get? k = some p) : p.firstHelloAt = firstGreeting ops ∧
      (p.reachable = false → p.lastAckAt = 0 ∨
        ∃ o ∈ ops ++ [(now, op)], longAgo p.lastAckAt o.1 c.config.helloTimeout.millis = true) := by
  rw [get?_chooseGateway] at hp
  obtain ⟨q, hq, rfl⟩ := Option.map_eq_some_iff.1 hp
  cases hstale : c.isStaleSuperPeer now q with
  | true =>
    refine ⟨h.greeted k q hq, fun _ => Or.inr ⟨(now, op), by simp, ?_⟩⟩
    simp only [isStaleSuperPeer, SuperPeer.isStale, longAgo, decide_eq_true_eq] at hstale ⊢
    simp only [if_true]
    omega
  | false =>
    refine ⟨h.greeted k q hq, fun hlost => (h.lost k q hq hlost).imp_right ?_⟩
    rintro ⟨o, ho, hago⟩
    exact ⟨o, List.mem_append_left _ ho, hago⟩

/-- A fresh super peer that is not reachable was greeted first not long before. -/
theorem Settled.fresh (h : Settled ops c) (hclock : ∀ o ∈ ops, o.1 ≤ now) {p : SuperPeer}
    (hp : c.superPeers.get? k = some p) (hfresh : c.isStaleSuperPeer now p = false) (hlost : p.reachable = false) :
    now ≤ firstGreeting ops + c.config.helloTimeout.millis := by
  have hgreeted := h.greeted k p hp
  simp only [isStaleSuperPeer, SuperPeer.isStale, longAgo, decide_eq_false_iff_not] at hfresh
  rcases h.lost k p hp hlost with hnever | ⟨o, ho, hago⟩
  · omega
  · have hle := hclock o ho
    simp only [longAgo, decide_eq_true_eq] at hago
    omega

/-- The super peer that is chosen is reachable, unless the choice comes not long after the first greetings. -/
theorem Settled.chosen (h : Settled ops c) (hclock : ∀ o ∈ ops, o.1 ≤ now)
    (hk : (c.chooseGateway now).best = some k) :
    (c.chooseGateway now).reaches k = true ∨ now ≤ firstGreeting ops + c.config.helloTimeout.millis := by
  obtain ⟨p, hp, hfresh⟩ := best_chooseGateway hk
  cases hreachable : p.reachable with
  | true =>
    refine Or.inl ?_
    rw [reaches, get?_chooseGateway, hp, Option.map_some, Option.any_some, hfresh]
    exact hreachable
  | false => exact Or.inr (h.fresh hclock hp hfresh hreachable)

theorem reaches_of_best_none (h : (c.chooseGateway now).best = none) (k : PublicKey) :
    (c.chooseGateway now).reaches k = false := by
  rw [reaches, get?_chooseGateway]
  cases hp : c.superPeers.get? k with
  | none => rfl
  | some p =>
    rw [Option.map_some, Option.any_some, stale_of_best_none h hp]
    rfl

theorem Settled.congr {c' : ChildSide} (h : Settled ops c) (hs : c'.superPeers = c.superPeers)
    (hc : c'.config = c.config) : Settled ops c' := by
  refine ⟨?_, ?_⟩
  · rw [hs]
    exact h.greeted
  · rw [hs, hc]
    exact h.lost

theorem Settled.acknowledged {sender : PublicKey} {p : SuperPeer} (h : Settled ops c)
    (hp : c.superPeers.get? sender = some p) (now latency : Nat) :
    Settled ops { c with superPeers := c.superPeers.insert sender (p.answered now latency) } := by
  refine ⟨?_, ?_⟩
  · intro k q hq
    simp only [Table.get?_insert] at hq
    split at hq
    · cases hq
      exact h.greeted sender p hp
    · exact h.greeted k q hq
  · intro k q hq hlost
    simp only [Table.get?_insert] at hq
    split at hq
    · cases hq
      cases hlost
    · exact h.lost k q hq hlost

theorem Settled.same {c' : ChildSide} (h : Settled ops c) (hop : op ≠ .heartbeat)
    (hs : c'.superPeers = c.superPeers) (hc : c'.config = c.config) : Settled (ops ++ [(now, op)]) c' := by
  refine Settled.congr ⟨?_, ?_⟩ hs hc
  · intro k p hp
    rw [firstGreeting_concat, if_neg fun hheartbeat => hop hheartbeat.2]
    exact h.greeted k p hp
  · intro k p hp hlost
    refine (h.lost k p hp hlost).imp_right ?_
    rintro ⟨o, ho, hago⟩
    exact ⟨o, List.mem_append_left _ ho, hago⟩

theorem Settled.heartbeat (h : Settled ops c) : Settled (ops ++ [(now, .heartbeat)]) (c.heartbeat now) := by
  have hget : ∀ k p, (c.heartbeat now).superPeers.get? k = some p →
      ∃ q, (c.chooseGateway now).superPeers.get? k = some q ∧ p = q.helloSent now := by
    intro k p hp
    have hmap := (Table.get?_mapValues (fun _ q => SuperPeer.helloSent q now)
      (c.chooseGateway now).superPeers k).symm.trans hp
    obtain ⟨q, hq, hgreeted⟩ := Option.map_eq_some_iff.1 hmap
    exact ⟨q, hq, hgreeted.symm⟩
  refine ⟨?_, ?_⟩
  · intro k p hp
    obtain ⟨q, hq, rfl⟩ := hget k p hp
    have hfirst := (h.lost_chooseGateway .heartbeat hq).1
    rw [firstGreeting_concat, SuperPeer.helloSent, hfirst]
    by_cases hzero : firstGreeting ops = 0 <;> simp [hzero, hfirst]
  · intro k p hp hlost
    obtain ⟨q, hq, rfl⟩ := hget k p hp
    have hsame : (q.helloSent now).lastAckAt = q.lastAckAt ∧ (q.helloSent now).reachable = q.reachable := by
      unfold SuperPeer.helloSent
      split <;> exact ⟨rfl, rfl⟩
    rw [hsame.2] at hlost
    rw [hsame.1]
    exact (h.lost_chooseGateway .heartbeat hq).2 hlost

/-- What an operation does to the super peers and the gateway: it leaves them alone, or it is a heartbeat, or a super
peer has acknowledged; the gateway is chosen in the latter two. -/
theorem chooses_cases (w : Watched ChildSide) (now : Nat) (op : Operation) :
    (w.side.chooses now op = false ∧ op ≠ .heartbeat ∧ (perform now w op).side.superPeers = w.side.superPeers ∧
        (perform now w op).side.best = w.side.best ∧ (perform now w op).side.config = w.side.config) ∨
      op = .heartbeat ∨
      (op ≠ .heartbeat ∧ ∃ sender p latency, ∃ c' : ChildSide, w.side.superPeers.get? sender = some p ∧
        c'.superPeers = w.side.superPeers.insert sender (p.answered now latency) ∧
        c'.config = w.side.config ∧ (perform now w op).side = c'.chooseGateway now) := by
  cases op with
  | heartbeat => exact Or.inr (Or.inl rfl)
  | receive sender m addr =>
    cases m with
    | acknowledgement time =>
      cases hp : w.side.superPeers.get? sender with
      | none =>
        refine Or.inl ⟨by simp [chooses, isSuperPeer, Table.contains, hp], by simp, ?_⟩
        simp only [perform, receive, isSuperPeer, Table.contains, hp, Option.isSome_none, Bool.false_eq_true, if_false]
        rcases w.side.acknowledgedOnPath_cases now sender time addr with hno | ⟨r, -, hyes⟩
        · rw [hno]
          exact ⟨rfl, rfl, rfl⟩
        · rw [hyes]
          exact ⟨rfl, rfl, rfl⟩
      | some p =>
        simp only [perform, receive, isSuperPeer, Table.contains, hp, Option.isSome_some, if_true,
          acknowledgedBySuperPeer]
        cases hfresh : w.side.config.acknowledgementFresh time.toNat now with
        | false => exact Or.inl ⟨by simp [chooses, hfresh], by simp, rfl, rfl, rfl⟩
        | true =>
          refine Or.inr (Or.inr ⟨by simp, sender, p, now - time.toNat, _, hp, ?_, ?_, rfl⟩)
          · split <;> rfl
          · split <;> rfl
    | hello time childrenTime =>
      refine Or.inl ⟨rfl, by simp, ?_⟩
      rcases w.side.greetedOnPath_cases now sender time childrenTime addr with hno | ⟨r, _, hyes⟩
      · simp only [perform, receive, hno, and_self]
      · simp only [perform, receive, hyes]
        exact ⟨rfl, rfl, rfl⟩
    | unite peer at' =>
      refine Or.inl ⟨rfl, by simp, ?_⟩
      simp only [perform, receive]
      rcases w.side.introduced_cases now sender peer at' with hno | ⟨-, -, -, hyes⟩
      · rw [hno]
        exact ⟨rfl, rfl, rfl⟩
      · rw [hyes]
        exact ⟨rfl, rfl, rfl⟩
    | application payload => exact Or.inl ⟨rfl, by simp, rfl, rfl, rfl⟩
  | route peer =>
    refine Or.inl ⟨rfl, by simp, ?_⟩
    simp only [perform, ChildSide.route]
    split <;> exact ⟨rfl, rfl, rfl⟩
  | applicationSeen _ | drainOutbox | drainEvents => exact Or.inl ⟨rfl, by simp, rfl, rfl, rfl⟩

/-! ### Runs -/

/-- Every choice of a run came in time for super peers to count as fresh although they had not yet answered. -/
def ChosenEarly (own : PublicKey) (config : DiscoveryConfig) (ops : List (Nat × Operation)) : Prop :=
  ∀ past o rest, ops = past ++ o :: rest → (run own config past).side.chooses o.1 o.2 = true →
    o.1 ≤ firstGreeting ops + config.helloTimeout.millis

variable {own : PublicKey} {config : DiscoveryConfig}

theorem ChosenEarly.concat (h : ChosenEarly own config ops) {o : Nat × Operation}
    (ho : (run own config ops).side.chooses o.1 o.2 = true → o.1 ≤ firstGreeting ops + config.helloTimeout.millis) :
    ChosenEarly own config (ops ++ [o]) := by
  intro past o' rest hops hchooses
  have hmono := firstGreeting_le_concat ops o
  rcases List.eq_nil_or_concat rest with rfl | ⟨rest', o'', rfl⟩
  · obtain ⟨rfl, hlast⟩ := List.append_inj' hops rfl
    cases hlast
    have hle := ho hchooses
    omega
  · rw [List.concat_eq_append, ← List.cons_append, ← List.append_assoc] at hops
    have hle := h past o' rest' (List.append_inj' hops rfl).1 hchooses
    omega

/-- A late choice that is in time shows that all choices were. -/
theorem chosenEarly_of_le (hclock : ((ops ++ [(now, op)]).map Prod.fst).Pairwise (· ≤ ·))
    (h : now ≤ firstGreeting ops + config.helloTimeout.millis) : ChosenEarly own config (ops ++ [(now, op)]) := by
  intro past o rest hops _
  have hmono := firstGreeting_le_concat ops (now, op)
  have hle : o.1 ≤ now := by
    have hmem : o ∈ ops ++ [(now, op)] := by
      rw [hops]
      simp
    rw [List.map_append, List.pairwise_append] at hclock
    rcases List.mem_append.1 hmem with hbefore | hlast
    · exact hclock.2.2 o.1 (List.mem_map_of_mem hbefore) now (List.mem_singleton.2 rfl)
    · exact Nat.le_of_eq (congrArg Prod.fst (List.mem_singleton.1 hlast))
  omega

structure Guarded (own : PublicKey) (config : DiscoveryConfig) (ops : List (Nat × Operation)) : Prop where
  settled : Settled ops (run own config ops).side
  config_eq : (run own config ops).side.config = config
  reached : ∀ k, (run own config ops).side.best = some k →
    (run own config ops).side.reaches k = true ∨ ChosenEarly own config ops
  unreached : (run own config ops).side.best = none → ∀ k, (run own config ops).side.reaches k = false

theorem guarded_start (own : PublicKey) (config : DiscoveryConfig) : Guarded own config [] := by
  have hnone : ∀ k, (run own config []).side.best ≠ some k := fun k hk => by cases hk
  refine ⟨settled_start own config, rfl, fun k hk => absurd hk (hnone k), fun _ k => ?_⟩
  have hshown := (faithful_start own config).shown.superPeers k
  exact hshown.symm

theorem Guarded.concat (h : Guarded own config ops)
    (hclock : ((ops ++ [(now, op)]).map Prod.fst).Pairwise (· ≤ ·)) : Guarded own config (ops ++ [(now, op)]) := by
  have hbefore : ∀ o ∈ ops, o.1 ≤ now := by
    intro o ho
    rw [List.map_append, List.pairwise_append] at hclock
    exact hclock.2.2 o.1 (List.mem_map_of_mem ho) now (List.mem_singleton.2 rfl)
  have hrun := run_concat own config ops (now, op)
  rcases chooses_cases (run own config ops) now op with ⟨hno, hop, hs, hb, hc⟩ | rfl | ⟨hop, hack⟩
  · have hreaches : ∀ k, (perform now (run own config ops) op).side.reaches k =
        (run own config ops).side.reaches k := fun k => by rw [reaches, reaches, hs]
    refine ⟨?_, ?_, fun k => ?_, ?_⟩ <;> simp only [hrun, hb, hreaches]
    · exact h.settled.same hop hs hc
    · exact hc.trans h.config_eq
    · exact fun hk => (h.reached k hk).imp_right fun hearly => hearly.concat fun hyes => by
        rw [hno] at hyes
        cases hyes
    · exact h.unreached
  · have hreaches : ∀ k, ((run own config ops).side.heartbeat now).reaches k =
        ((run own config ops).side.chooseGateway now).reaches k := by
      intro k
      show (((((run own config ops).side.chooseGateway now).superPeers.mapValues
        fun _ p => SuperPeer.helloSent p now).get? k).any (·.reachable)) = _
      rw [Table.get?_mapValues, reaches]
      cases ((run own config ops).side.chooseGateway now).superPeers.get? k with
      | none => rfl
      | some p =>
        show (p.helloSent now).reachable = p.reachable
        unfold SuperPeer.helloSent
        split <;> rfl
    refine ⟨?_, ?_, fun k hk => ?_, fun hnone k => ?_⟩
    · rw [hrun]
      exact h.settled.heartbeat
    · rw [hrun]
      exact h.config_eq
    · rw [hrun] at hk ⊢
      refine (h.settled.chosen hbefore hk).imp (fun hyes => (hreaches k).trans hyes) fun hle => ?_
      exact chosenEarly_of_le hclock (h.config_eq ▸ hle)
    · rw [hrun] at hnone ⊢
      exact (hreaches k).trans (reaches_of_best_none hnone k)
  · obtain ⟨sender, p, latency, c', hp, hs, hc, hside⟩ := hack
    have hsettled : Settled ops c' := (h.settled.acknowledged hp now latency).congr hs hc
    have hconfig : c'.config = config := hc.trans h.config_eq
    refine ⟨?_, ?_, fun k hk => ?_, fun hnone k => ?_⟩
    · rw [hrun, hside]
      refine ⟨fun k q hq => ?_, fun k q hq => (hsettled.lost_chooseGateway op hq).2⟩
      rw [firstGreeting_concat, if_neg fun hheartbeat => hop hheartbeat.2]
      exact (hsettled.lost_chooseGateway op hq).1
    · rw [hrun, hside]
      exact hconfig
    · rw [hrun, hside] at hk ⊢
      exact (hsettled.chosen hbefore hk).imp_right fun hle => chosenEarly_of_le hclock (hconfig ▸ hle)
    · rw [hrun, hside] at hnone ⊢
      exact reaches_of_best_none hnone k

theorem guarded_run (own : PublicKey) (config : DiscoveryConfig) (hclock : (ops.map Prod.fst).Pairwise (· ≤ ·)) :
    Guarded own config ops := by
  induction ops using List.reverseRecOn with
  | nil => exact guarded_start own config
  | append_singleton ops o ih =>
    have hbefore : (ops.map Prod.fst).Pairwise (· ≤ ·) := by
      rw [List.map_append, List.pairwise_append] at hclock
      exact hclock.1
    exact (ih hbefore).concat hclock

/-- **The gateway is reachable, but for a while after the first greetings.**  After every run on a clock that does not
go back: the application was told last of the gateway that is in use; that gateway is a super peer whose path was
added and not removed since, unless every choice so far came within the hello timeout of the first greetings; and
where there is no gateway, there is no path to a super peer. -/
theorem gateway_reachable (own : PublicKey) (config : DiscoveryConfig) (ops : List (Nat × Operation))
    (hclock : (ops.map Prod.fst).Pairwise (· ≤ ·)) :
    let v := (run own config ops).view ChildSide.events
    v.gateway = (run own config ops).side.best ∧
      (∀ k, v.gateway = some k → (v.paths k .superPeer).isSome = true ∨
        ∀ past o rest, ops = past ++ o :: rest → (run own config past).side.chooses o.1 o.2 = true →
          o.1 ≤ firstGreeting ops + config.helloTimeout.millis) ∧
      (v.gateway = none → ∀ k, v.paths k .superPeer = none) := by
  intro v
  have hguarded := guarded_run own config hclock
  obtain ⟨hpaths, hgateway⟩ := showsGateway_run own config ops
  refine ⟨hgateway, ?_, ?_⟩
  · intro k hk
    rw [hpaths k]
    exact hguarded.reached k (hgateway.symm.trans hk)
  · intro hnone k
    have hlost := (hpaths k).trans (hguarded.unreached (hgateway.symm.trans hnone) k)
    rwa [Option.isSome_eq_false_iff, Option.isNone_iff_eq_none] at hlost

/-- A super peer that acknowledges once, and is then chosen again later than the hello timeout after the first
greetings: it is reachable. -/
theorem gateway_reachable_kept :
    let gateway : PublicKey := ⟨.filled 32 2⟩
    let a := Address.ofV4 10 0 0 1 7
    let config : DiscoveryConfig := { superPeers := .ofList [(gateway, a)] }
    let ops : List (Nat × Operation) := [(100000, .heartbeat), (110000, .receive gateway (.acknowledgement 100000) a),
      (125000, .heartbeat), (135000, .heartbeat)]
    let v := (run ⟨.filled 32 1⟩ config ops).view ChildSide.events
    (ops.map Prod.fst).Pairwise (· ≤ ·) ∧ v.gateway = some gateway ∧ (v.paths gateway .superPeer).isSome = true := by
  intro gateway a config ops v
  have hclock : (ops.map Prod.fst).Pairwise (· ≤ ·) := by decide
  have hv : v = (run ⟨.filled 32 1⟩ config ops).view ChildSide.events := rfl
  have hgateway : v.gateway = some gateway := by decide +kernel
  clear_value v
  subst hv
  have hreachable := (gateway_reachable ⟨.filled 32 1⟩ config ops hclock).2.1 gateway hgateway
  refine ⟨hclock, hgateway, hreachable.resolve_right fun hearly => ?_⟩
  have hlast := hearly (ops.take 3) (135000, .heartbeat) [] rfl rfl
  have hlate : ¬ 135000 ≤ firstGreeting ops + config.helloTimeout.millis := by decide +kernel
  exact hlate hlast

/-- **The gateway need not be reachable.**  A super peer that never answers is chosen at the second heartbeat, and the
application is told so. -/
theorem gateway_unreachable :
    let gateway : PublicKey := ⟨.filled 32 2⟩
    let config : DiscoveryConfig := { superPeers := .ofList [(gateway, .ofV4 10 0 0 1 7)] }
    let ops : List (Nat × Operation) := [(1700000000000, .heartbeat), (1700000005000, .heartbeat)]
    let w := run ⟨.filled 32 1⟩ config ops
    (ops.map Prod.fst).Pairwise (· ≤ ·) ∧ w.side.best = some gateway ∧
      w.told ChildSide.events = [.superPeerChanged (some gateway)] ∧
      (w.view ChildSide.events).paths gateway .superPeer = none := by
  decide +kernel

end ChildSide

end Overlay
