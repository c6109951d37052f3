import Mathlib.Data.List.Induction
import Overlay.Proofs.Discovery.ChildSide

/-!
# What the application knows of a direct path

Messages for a peer take its direct path while there is a confirmed one (`directPath?`).  The application should
know the address of that path, which is the one it was told last (`Informed`).  An acknowledgement that confirms
a path or moves it is told, and so is the loss of a confirmed path.  But a greeting moves the path of its sender
as well, without a word (`Displaces`), and the acknowledgement that comes from the same address after it finds the
path already there.  So the application knows a direct path all along a run exactly if no greeting moves it
(`path_known_iff`).  What it was told is in any case an address from which an acknowledgement has counted
(`acknowledged_of_told`).
-/

namespace Overlay

def TraversingPeer.confirmedAddr? (r : TraversingPeer) : Option Address :=
  if r.isConfirmed then some r.addr else none

namespace TraversingPeer

variable {r : TraversingPeer} {addr : Address} {now : Nat}

theorem confirmedAddr?_of (h : r.isConfirmed = true) : r.confirmedAddr? = some r.addr := if_pos h

theorem confirmedAddr?_helloSent (r : TraversingPeer) (now : Nat) :
    (r.helloSent now).confirmedAddr? = r.confirmedAddr? := by
  unfold helloSent
  split <;> rfl

theorem confirmedAddr?_addCandidate (r : TraversingPeer) (addr : Address) :
    (r.addCandidate addr).confirmedAddr? = r.confirmedAddr? := by
  unfold confirmedAddr? addCandidate isConfirmed
  by_cases h : r.lastAckAt = 0
  · simp [h]
  · simp [h, Nat.pos_of_ne_zero h]

theorem confirmedAddr?_acknowledged (r : TraversingPeer) (addr : Address) (hnow : 0 < now) :
    (r.acknowledged addr now).confirmedAddr? = some addr :=
  confirmedAddr?_of (r := r.acknowledged addr now) (decide_eq_true hnow)

end TraversingPeer

namespace ChildSide

open Watched

variable {c : ChildSide} {v : View} {now : Nat} {peer : PublicKey} {addr : Address}

def confirmedAddr? (c : ChildSide) (peer : PublicKey) : Option Address :=
  (c.traversing.get? peer).bind (·.confirmedAddr?)

theorem confirmedAddr?_of_directPath? (h : c.directPath? now peer = some addr) :
    c.confirmedAddr? peer = some addr := by
  obtain ⟨r, hr, hpath⟩ := Option.bind_eq_some_iff.1 h
  split at hpath
  · rename_i huse
    rw [Bool.and_eq_true] at huse
    rw [confirmedAddr?, hr, Option.bind_some, TraversingPeer.confirmedAddr?_of huse.1, hpath]
  · cases hpath

theorem directPath?_zero (c : ChildSide) (peer : PublicKey) : c.directPath? 0 peer = c.confirmedAddr? peer := by
  have hfresh : ∀ r, c.isStalePath 0 r = false := by
    intro r
    simp [isStalePath, TraversingPeer.isStale, longAgo]
  simp only [directPath?, confirmedAddr?, hfresh, Bool.not_false, Bool.and_true]
  rfl

/-! ### What operations tell of a path -/

/-- Whether a view shows where the direct path to a peer leads. -/
def ShowsPath (peer : PublicKey) (v : View) (c : ChildSide) : Prop :=
  v.paths peer .traversing = c.confirmedAddr? peer

/-- Changes after which a view still shows where the direct path to a peer leads. -/
abbrev Follows (peer : PublicKey) (c c' : ChildSide) : Prop :=
  Watched.Updates ChildSide.events (ShowsPath peer) c c'

theorem follows_silent {c' : ChildSide} (he : c'.events = c.events)
    (ht : c'.confirmedAddr? peer = c.confirmedAddr? peer) : Follows peer c c' :=
  Updates.silent he fun _ hv => hv.trans ht.symm

theorem follows_chooseGateway (c : ChildSide) (now : Nat) (peer : PublicKey) :
    Follows peer c (c.chooseGateway now) := by
  rw [chooseGateway_eq]
  have hlose : Follows peer c (c.loseSuperPeers now) := by
    refine ⟨_, rfl, fun v hv => ?_⟩
    rw [ShowsPath, View.paths_removals, if_neg fun h => absurd h.1 (by decide)]
    exact hv
  refine hlose.trans ⟨_, rfl, fun v hv => ?_⟩
  split <;> exact hv

theorem follows_tendPaths (c : ChildSide) (now : Nat) (peer : PublicKey) : Follows peer c (c.tendPaths now) := by
  refine ⟨View.removals c.traversing .traversing fun r => c.isStalePath now r && r.isConfirmed, rfl, ?_⟩
  intro v hv
  rw [ShowsPath, View.paths_removals, hv]
  simp only [confirmedAddr?, tendPaths, announce, post, Table.get?_mapValues, Table.get?_filter]
  cases c.traversing.get? peer with
  | none => simp
  | some r =>
    have hkept := r.confirmedAddr?_helloSent now
    cases hstale : c.isStalePath now r with
    | true =>
      cases hconfirmed : r.isConfirmed <;>
        simp [Option.filter, hstale, hconfirmed, TraversingPeer.confirmedAddr?]
    | false => simp [Option.filter, hstale, hkept]

theorem follows_heartbeat (c : ChildSide) (now : Nat) (peer : PublicKey) : Follows peer c (c.heartbeat now) :=
  ((follows_chooseGateway c now peer).trans (follows_silent rfl rfl)).trans (follows_tendPaths _ now peer)

theorem follows_acknowledgedBySuperPeer (c : ChildSide) (now : Nat) (sender : PublicKey) (time : UInt64)
    (addr : Address) (peer : PublicKey) :
    Follows peer c (c.acknowledgedBySuperPeer now sender time addr).2 := by
  rcases c.acknowledgedBySuperPeer_cases now sender time addr with hno | ⟨r, -, hyes⟩
  · rw [hno]
    exact .refl c
  · rw [hyes]
    refine Updates.trans ⟨_, rfl, fun v hv => ?_⟩ (follows_chooseGateway _ now peer)
    split
    · exact hv
    · rw [ShowsPath, View.paths_added, if_neg fun h => absurd h.2 (by decide)]
      exact hv

theorem confirmedAddr?_insert (c : ChildSide) (sender : PublicKey) (r : TraversingPeer) (peer : PublicKey) :
    confirmedAddr? { c with traversing := c.traversing.insert sender r } peer =
      if peer = sender then r.confirmedAddr? else c.confirmedAddr? peer := by
  simp only [confirmedAddr?, Table.get?_insert]
  split <;> rfl

theorem follows_record {sender : PublicKey} {r : TraversingPeer}
    (h : peer = sender → r.confirmedAddr? = c.confirmedAddr? peer) :
    Follows peer c { c with traversing := c.traversing.insert sender r } := by
  refine follows_silent rfl ?_
  rw [confirmedAddr?_insert]
  split
  · rename_i hp
    exact h hp
  · rfl

theorem follows_introduced (c : ChildSide) (now : Nat) (sender other : PublicKey) (addr : Address)
    (peer : PublicKey) : Follows peer c (c.introduced now sender other addr).2 := by
  rcases c.introduced_cases now sender other addr with hno | ⟨-, -, -, hyes⟩
  · rw [hno]
    exact .refl c
  · rw [hyes]
    refine (follows_record ?_).trans (follows_silent rfl rfl)
    intro hpeer
    rw [introducedRecord, TraversingPeer.confirmedAddr?_helloSent, hpeer, confirmedAddr?]
    refine Eq.trans (TraversingPeer.confirmedAddr?_addCandidate
      ((c.traversing.get? other).getD (.ofAddress addr)) addr) ?_
    cases c.traversing.get? other <;> rfl

theorem follows_acknowledgedOnPath (c : ChildSide) (hnow : 0 < now) (sender : PublicKey) (time : UInt64)
    (addr : Address) (peer : PublicKey) : Follows peer c (c.acknowledgedOnPath now sender time addr).2 := by
  rcases c.acknowledgedOnPath_cases now sender time addr with hno | ⟨r, hr, hyes⟩
  · rw [hno]
    exact .refl c
  have hafter := TraversingPeer.confirmedAddr?_acknowledged r addr hnow
  have hinsert := c.confirmedAddr?_insert sender (r.acknowledged addr now) peer
  rw [hafter] at hinsert
  rw [hyes]
  split
  · refine ⟨[.pathAdded sender addr .traversing], rfl, fun v hv => ?_⟩
    rw [ShowsPath, View.paths_added]
    refine Eq.trans ?_ hinsert.symm
    simp only [and_true]
    split
    · rfl
    · exact hv
  · rename_i hnews
    simp only [Bool.or_eq_true, Bool.not_eq_true', decide_eq_true_eq, not_or, Bool.not_eq_false,
      Decidable.not_not] at hnews
    refine Updates.trans (follows_record ?_) (follows_silent (List.append_nil _) rfl)
    rintro rfl
    rw [hafter, confirmedAddr?, hr, Option.bind_some, TraversingPeer.confirmedAddr?_of hnews.1, hnews.2]

/-! ### Greetings that move a path -/

/-- Whether an operation is a greeting that counts, from another address than the one that the confirmed direct
path of its sender leads to. -/
def displaces (c : ChildSide) (now : Nat) (peer : PublicKey) : Operation → Bool
  | .receive sender (.hello time childrenTime) addr =>
    sender = peer && (c.greetedOnPath now sender time childrenTime addr).1 &&
      (c.confirmedAddr? peer).any (· ≠ addr)
  | _ => false

theorem TraversingPeer.confirmedAddr?_setAddr (r : TraversingPeer) (addr : Address) :
    (r.setAddr addr).confirmedAddr? = r.confirmedAddr?.map fun _ => addr := by
  have hconfirmed : (r.setAddr addr).isConfirmed = r.isConfirmed := rfl
  unfold TraversingPeer.confirmedAddr?
  rw [hconfirmed]
  split <;> rfl

/-- A greeting that does not move the path is told like any other: not at all. -/
theorem follows_greetedOnPath {sender : PublicKey} {time childrenTime : UInt64}
    (h : c.displaces now peer (.receive sender (.hello time childrenTime) addr) = false) :
    Follows peer c (c.greetedOnPath now sender time childrenTime addr).2 := by
  rcases c.greetedOnPath_cases now sender time childrenTime addr with hno | ⟨r, hr, hyes⟩
  · rw [hno]
    exact .refl c
  · rw [hyes]
    refine (follows_record ?_).trans (follows_silent rfl rfl)
    rintro rfl
    have hpath : c.confirmedAddr? peer = r.confirmedAddr? := by rw [confirmedAddr?, hr, Option.bind_some]
    simp only [displaces, hyes, hpath, decide_true, Bool.true_and] at h
    rw [TraversingPeer.confirmedAddr?_setAddr, hpath]
    cases hold : r.confirmedAddr? with
    | none => rfl
    | some old =>
      rw [hold, Option.any_some, decide_eq_false_iff_not, Decidable.not_not] at h
      rw [h, Option.map_some]

/-- A greeting that moves a confirmed path is not told. -/
theorem displaced {op : Operation} {w : Watched ChildSide} (h : w.side.displaces now peer op = true) :
    (perform now w op).told ChildSide.events = w.told ChildSide.events ∧
      ∃ old new, old ≠ new ∧ w.side.confirmedAddr? peer = some old ∧
        (perform now w op).side.confirmedAddr? peer = some new := by
  obtain ⟨sender, time, childrenTime, addr, rfl⟩ :
      ∃ sender time childrenTime addr, op = .receive sender (.hello time childrenTime) addr := by
    cases op with
    | receive sender m addr =>
      cases m with
      | hello time childrenTime => exact ⟨_, _, _, _, rfl⟩
      | _ => cases h
    | _ => cases h
  simp only [displaces, Bool.and_eq_true, decide_eq_true_eq] at h
  obtain ⟨⟨rfl, hcounts⟩, hmoves⟩ := h
  obtain ⟨old, hold, hne⟩ := (Option.any_eq_true _ _).1 hmoves
  rcases w.side.greetedOnPath_cases now sender time childrenTime addr with hno | ⟨r, hr, hyes⟩
  · rw [hno] at hcounts
    cases hcounts
  · have hpath : w.side.confirmedAddr? sender = r.confirmedAddr? := by
      rw [confirmedAddr?, hr, Option.bind_some]
    refine ⟨?_, old, addr, of_decide_eq_true hne, hold, ?_⟩
    · simp only [perform, receive, hyes]
      rfl
    · simp only [perform, receive, hyes]
      refine (w.side.confirmedAddr?_insert sender _ sender).trans ?_
      rw [if_pos rfl, TraversingPeer.confirmedAddr?_setAddr, ← hpath, hold, Option.map_some]

/-! ### Runs -/

def KnowsPath (w : Watched ChildSide) (peer : PublicKey) : Prop :=
  ShowsPath peer (w.view ChildSide.events) w.side

theorem knowsPath_start (own : PublicKey) (config : DiscoveryConfig) (peer : PublicKey) :
    KnowsPath ⟨start own config, []⟩ peer := rfl

theorem follows_receive {sender : PublicKey} {m : DiscoveryMessage} (hnow : 0 < now)
    (h : c.displaces now peer (.receive sender m addr) = false) :
    Follows peer c (c.receive now sender m addr).2 := by
  cases m with
  | acknowledgement time =>
    simp only [receive]
    split
    · exact follows_acknowledgedBySuperPeer c now sender time addr peer
    · exact follows_acknowledgedOnPath c hnow sender time addr peer
  | hello time childrenTime => exact follows_greetedOnPath h
  | unite other at' => exact follows_introduced c now sender other at' peer
  | application payload => exact .refl c

theorem follows_applicationSeen (c : ChildSide) (now : Nat) (other peer : PublicKey) :
    Follows peer c (c.applicationSeen now other) := by
  refine follows_silent rfl ?_
  simp only [confirmedAddr?, applicationSeen, Table.get?_modify]
  split
  · cases c.traversing.get? peer <;> rfl
  · rfl

theorem follows_route (c : ChildSide) (now : Nat) (other peer : PublicKey) :
    Follows peer c (c.route now other).2 := by
  unfold route
  split
  · exact follows_applicationSeen c now other peer
  · exact .refl c

/-- An operation that does not move a confirmed path by a greeting keeps what the application knows. -/
theorem KnowsPath.perform {w : Watched ChildSide} (hw : KnowsPath w peer) (hnow : 0 < now) {op : Operation}
    (hop : w.side.displaces now peer op = false) : KnowsPath (perform now w op) peer := by
  cases op with
  | heartbeat => exact (follows_heartbeat w.side now peer).view hw
  | receive sender m addr => exact (follows_receive hnow hop).view hw
  | applicationSeen other => exact (follows_applicationSeen w.side now other peer).view hw
  | route other =>
    exact (follows_route w.side now other peer).view hw
  | drainOutbox => exact hw
  | drainEvents =>
    have htold : told ChildSide.events (ChildSide.perform now w .drainEvents) = w.told ChildSide.events :=
      told_handOut rfl
    rw [KnowsPath, Watched.view, htold]
    exact hw

/-! ### Where told addresses come from -/

def acknowledges (c : ChildSide) (now : Nat) (peer : PublicKey) (addr : Address) : Operation → Bool
  | .receive sender (.acknowledgement time) addr' =>
    sender = peer && addr' = addr && !c.isSuperPeer sender && (c.acknowledgedOnPath now sender time addr).1
  | _ => false

theorem added_chooseGateway {path : PathKind} :
    .pathAdded peer addr path ∈ (c.chooseGateway now).events ↔ .pathAdded peer addr path ∈ c.events := by
  simp only [chooseGateway, announce, List.mem_append, List.mem_map]
  split <;> simp

theorem added_acknowledgedBySuperPeer {sender : PublicKey} {time : UInt64} {from' : Address}
    (h : .pathAdded peer addr .traversing ∈ (c.acknowledgedBySuperPeer now sender time from').2.events) :
    .pathAdded peer addr .traversing ∈ c.events := by
  rcases c.acknowledgedBySuperPeer_cases now sender time from' with hno | ⟨r, -, hyes⟩
  · rwa [hno] at h
  · rw [hyes, added_chooseGateway] at h
    refine (List.mem_append.1 h).elim id fun hnews => ?_
    split at hnews <;> simp at hnews

theorem added_receive {sender : PublicKey} {m : DiscoveryMessage} {from' : Address}
    (h : .pathAdded peer addr .traversing ∈ (c.receive now sender m from').2.events) :
    .pathAdded peer addr .traversing ∈ c.events ∨ c.acknowledges now peer addr (.receive sender m from') = true := by
  cases m with
  | acknowledgement time =>
    simp only [receive] at h
    split at h
    · exact Or.inl (added_acknowledgedBySuperPeer h)
    · rename_i hsuper
      rcases c.acknowledgedOnPath_cases now sender time from' with hno | ⟨r, -, hyes⟩
      · rw [hno] at h
        exact Or.inl h
      · rw [hyes] at h
        refine (List.mem_append.1 h).imp_right fun hnews => ?_
        split at hnews
        · simp only [List.mem_singleton, Event.pathAdded.injEq, and_true] at hnews
          obtain ⟨rfl, rfl⟩ := hnews
          simp [acknowledges, hsuper, hyes]
        · cases hnews
  | hello time childrenTime =>
    rcases c.greetedOnPath_cases now sender time childrenTime from' with hno | ⟨r, _, hyes⟩
    · rw [receive, hno] at h
      exact Or.inl h
    · rw [receive, hyes] at h
      exact Or.inl h
  | unite other at' =>
    rcases c.introduced_cases now sender other at' with hno | ⟨-, -, -, hyes⟩
    · rw [receive, hno] at h
      exact Or.inl h
    · rw [receive, hyes] at h
      exact Or.inl h
  | application payload => exact Or.inl h

theorem added_perform {w : Watched ChildSide} {op : Operation}
    (h : .pathAdded peer addr .traversing ∈ (perform now w op).told ChildSide.events) :
    .pathAdded peer addr .traversing ∈ w.told ChildSide.events ∨ w.side.acknowledges now peer addr op = true := by
  cases op with
  | heartbeat =>
    rw [told, List.mem_append] at h ⊢
    refine Or.inl (h.imp_right fun hnews => ?_)
    simp only [perform, heartbeat, tendPaths, greetSuperPeers, announce, post, List.mem_append, List.mem_map,
      reduceCtorEq, and_false, exists_false, or_false] at hnews
    exact added_chooseGateway.1 hnews
  | receive sender m from' =>
    rw [told, List.mem_append] at h ⊢
    rcases h with hbefore | hnews
    · exact Or.inl (Or.inl hbefore)
    · exact (added_receive hnews).imp_left Or.inr
  | applicationSeen other => exact Or.inl h
  | route other =>
    refine Or.inl ?_
    have hevents : (w.side.route now other).2.events = w.side.events := by
      unfold ChildSide.route
      split <;> rfl
    rwa [told, perform, hevents] at h
  | drainOutbox => exact Or.inl h
  | drainEvents =>
    have htold : told ChildSide.events (perform now w .drainEvents) = w.told ChildSide.events := told_handOut rfl
    rw [htold] at h
    exact Or.inl h

/-- What the application was told of a direct path is an address from which an acknowledgement has counted. -/
theorem acknowledged_of_told {own : PublicKey} {config : DiscoveryConfig} {ops : List (Nat × Operation)}
    (h : ((run own config ops).view ChildSide.events).paths peer .traversing = some addr) :
    ∃ past o rest, ops = past ++ o :: rest ∧ (run own config past).side.acknowledges o.1 peer addr o.2 = true := by
  have hadded : .pathAdded peer addr .traversing ∈ (run own config ops).told ChildSide.events :=
    (View.added_of_paths h).resolve_left fun hempty => by cases hempty
  clear h
  induction ops using List.reverseRecOn with
  | nil => cases hadded
  | append_singleton ops o ih =>
    rw [run_concat] at hadded
    rcases added_perform hadded with hbefore | hnow
    · obtain ⟨past, o', rest, rfl, hacknowledges⟩ := ih hbefore
      exact ⟨past, o', rest ++ [o], by rw [List.append_assoc, List.cons_append], hacknowledges⟩
    · exact ⟨ops, o, [], rfl, hnow⟩

/-! ### What is known along a run -/

/-- The application knows the direct path in use: at whatever moment messages for the peer would take it, they
would take it to the address that was told last. -/
def Informed (w : Watched ChildSide) (peer : PublicKey) : Prop :=
  ∀ now addr, w.side.directPath? now peer = some addr →
    (w.view ChildSide.events).paths peer .traversing = some addr

/-- **A direct path is known unless a greeting moves it.**  In every run that starts after moment zero: the
application knows the direct path to a peer after every operation exactly if no greeting that counts comes from
another address than the one that the confirmed path leads to; and the address that was told last is always one from
which an acknowledgement of the peer has counted. -/
theorem path_known_iff (own : PublicKey) (config : DiscoveryConfig) (ops : List (Nat × Operation))
    (hclock : ∀ o ∈ ops, 0 < o.1) (peer : PublicKey) :
    ((∀ past rest, ops = past ++ rest → Informed (run own config past) peer) ↔
      ∀ past o rest, ops = past ++ o :: rest → (run own config past).side.displaces o.1 peer o.2 = false) ∧
    ∀ addr, ((run own config ops).view ChildSide.events).paths peer .traversing = some addr →
      ∃ past o rest, ops = past ++ o :: rest ∧
        (run own config past).side.acknowledges o.1 peer addr o.2 = true := by
  refine ⟨⟨?_, ?_⟩, fun addr => acknowledged_of_told⟩
  · -- A greeting that moves the path leaves the application with the old address.
    intro hinformed past o rest hops
    refine Bool.eq_false_iff.2 fun hmoves => ?_
    obtain ⟨htold, old, new, hne, hold, hnew⟩ := displaced hmoves
    have hbefore := hinformed past _ hops 0 old (by rw [directPath?_zero, hold])
    have hafter := hinformed (past ++ [o]) rest (by rw [hops, List.append_assoc, List.singleton_append]) 0 new
    rw [run_concat, directPath?_zero, Watched.view, htold] at hafter
    exact hne (Option.some.inj (hbefore.symm.trans (hafter hnew)))
  · intro hstays past rest hops
    have hknows : KnowsPath (run own config past) peer := by
      induction past using List.reverseRecOn generalizing rest with
      | nil => exact knowsPath_start own config peer
      | append_singleton past o ih =>
        rw [List.append_assoc, List.singleton_append] at hops
        rw [run_concat]
        exact (ih _ hops).perform (hclock o (by rw [hops]; simp)) (hstays past o rest hops)
    intro now addr hpath
    exact hknows.trans (confirmedAddr?_of_directPath? hpath)

/-- A confirmed path is moved by a greeting, and the acknowledgement from the new address comes too late to be
told: messages take the path to the new address, and the application has the old one. -/
theorem path_known_iff_moved :
    let own : PublicKey := ⟨.filled 32 1⟩
    let gateway : PublicKey := ⟨.filled 32 2⟩
    let peer : PublicKey := ⟨.filled 32 3⟩
    let a := Address.ofV4 10 0 0 2 7
    let b := Address.ofV4 10 0 0 2 8
    let config : DiscoveryConfig := { superPeers := .ofList [(gateway, Address.ofV4 10 0 0 1 7)] }
    let ops : List (Nat × Operation) :=
      [(1, .receive gateway (.unite peer a) (Address.ofV4 10 0 0 1 7)), (2, .receive peer (.acknowledgement 1) a),
        (3, .receive peer (.hello 3 0) b), (4, .receive peer (.acknowledgement 3) b)]
    (∀ o ∈ ops, 0 < o.1) ∧ (run own config ops).side.directPath? 5 peer = some b ∧
      ((run own config ops).view ChildSide.events).paths peer .traversing = some a ∧
      ∃ past rest, ops = past ++ rest ∧ ¬ Informed (run own config past) peer := by
  intro own gateway peer a b config ops
  have hclock : ∀ o ∈ ops, 0 < o.1 := by decide
  have hmoves : (run own config (ops.take 2)).side.displaces 3 peer (.receive peer (.hello 3 0) b) = true := by
    decide +kernel
  refine ⟨hclock, by decide +kernel, by decide +kernel, ?_⟩
  refine Classical.byContradiction fun hall => ?_
  have hinformed : ∀ past rest, ops = past ++ rest → Informed (run own config past) peer :=
    fun past rest hops => Classical.byContradiction fun hno => hall ⟨past, rest, hops, hno⟩
  have hstays := (path_known_iff own config ops hclock peer).1.1 hinformed (ops.take 2)
    (3, .receive peer (.hello 3 0) b) (ops.drop 3) rfl
  rw [hmoves] at hstays
  cases hstays

end ChildSide

end Overlay
