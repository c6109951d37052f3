import Overlay.Proofs.Discovery.Idle
import Overlay.Proofs.Node.Frame

/-!
# What keeps the direct paths of a node alive

A child's direct path is dropped once it is idle, and three things keep it from that (`Cause`): payloads of the
application that are sent on it or come from the peer, introductions that are accepted, and messages of the handshake
that are sent on it.  Each step of a node does some upkeep (`Node.upkeeps`), and the age of a record is counted anew
in a step exactly if the step does upkeep for its peer (`Node.carries_step`).
-/

namespace Overlay

/-- Why the age of a direct path was counted anew. -/
inductive Cause where
  /-- A payload was sent on the path, or came from the peer. -/
  | application
  /-- The peer was introduced. -/
  | introduction
  /-- A message of the handshake was sent on the path. -/
  | handshake
deriving DecidableEq

/-- The age of the direct path to a peer was counted anew. -/
structure Upkeep where
  moment : Nat
  peer : PublicKey
  cause : Cause
deriving DecidableEq

def Upkeep.Touch (upkeeps : List Upkeep) (p : PublicKey) : Prop := ∃ k ∈ upkeeps, k.peer = p

theorem Upkeep.touch_append {upkeeps later : List Upkeep} {p : PublicKey} :
    Touch (upkeeps ++ later) p ↔ Touch upkeeps p ∨ Touch later p := by
  simp only [Touch, List.mem_append, or_and_right, exists_or]

/-- The upkeep that a child's part of discovery does when it is given a message. -/
def ChildSide.upkeeps (c : ChildSide) (now : Nat) (sender : PublicKey) (m : DiscoveryMessage) : List Upkeep :=
  match m with
  | .application _ => [⟨now, sender, .application⟩]
  | .unite peer addr => if (c.introduced now sender peer addr).1 then [⟨now, peer, .introduction⟩] else []
  | .hello _ _ | .acknowledgement _ => []

namespace Activity

/-- Whether a message for a peer would be sent on the direct path. -/
def onPath (x : Surroundings) (peer : PublicKey) (a : Activity) : Bool :=
  (a.node.childSide.directPath? x.now peer).isSome

/-- The message that a node takes out of the octets of an envelope, with its sender. -/
def heard (x : Surroundings) (data : Bytes) (a : Activity) : Option (PublicKey × DiscoveryMessage) :=
  match Envelope.decode data with
  | .error _ => none
  | .ok e =>
    if e.networkId ≠ a.node.config.discovery.networkId || e.sender = a.node.address then none
    else if e.recipient ≠ a.node.address then none
    else
      match (a.withEngine x fun S now n r => n.disarmInbound S now e.sender e.armed r).1 with
      | .ok (.application payload) => (DiscoveryMessage.decode payload).toOption.map (e.sender, ·)
      | _ => none

def heardUpkeeps (x : Surroundings) (data : Bytes) (a : Activity) : List Upkeep :=
  match a.heard x data with
  | some (sender, m) => a.node.childSide.upkeeps x.now sender m
  | none => []

def handleUpkeeps (x : Surroundings) (s : Stimulus) (a : Activity) : List Upkeep :=
  match s with
  | .heartbeat => []
  | .send peer _ => if peer ≠ a.node.address ∧ a.onPath x peer then [⟨x.now, peer, .application⟩] else []
  | .datagram data sender => (a.heardFrom sender).heardUpkeeps x data
  | .frame data _ => a.heardUpkeeps x data

def afterJobs (x : Surroundings) (a : Activity) : Activity :=
  (a.withEngine x fun S now e r => e.runDeferred S now r).2

def roundHandshakes (x : Surroundings) (a : Activity) : List Outgoing := (a.afterJobs x).node.engine.outbox

def handshakes (x : Surroundings) : Nat → Activity → List Outgoing
  | 0, _ => []
  | rounds + 1, a =>
    a.roundHandshakes x ++
      match a.flushRound x with
      | (true, _) => []
      | (false, a) => handshakes x rounds a

def flushUpkeeps (x : Surroundings) (a : Activity) : List Upkeep :=
  ((handshakes x maxRounds a).filter fun m => a.onPath x m.peer).map fun m => ⟨x.now, m.peer, .handshake⟩

end Activity

/-- The upkeep that a step of a child does. -/
def Node.upkeeps (x : Surroundings) (s : Stimulus) (n : Node) (r : Entropy) : List Upkeep :=
  if n.running then
    let a : Activity := { node := n, entropy := r }
    a.handleUpkeeps x s ++ (a.handle x s).2.flushUpkeeps x
  else []

namespace Activity

open ChildSide Upkeep

variable {x : Surroundings} {a : Activity} {p : PublicKey}

/-! ### Look-ups -/

theorem carries_route (hchild : a.node.superPeerSide = none) (peer : PublicKey) :
    Carries (Used x.now fun p => peer = p && a.onPath x p) a (a.route x peer).2 := by
  have hused := used_route a.node.childSide x.now peer
  unfold route
  rw [hchild]
  exact ⟨hused, rfl, rfl, List.prefix_rfl⟩

theorem carries_sendOutgoing (hchild : a.node.superPeerSide = none) (m : Outgoing) :
    Carries (Used x.now fun p => m.peer = p && a.onPath x p) a (a.sendOutgoing x m) := by
  have hroute := carries_route (x := x) hchild m.peer
  unfold sendOutgoing
  cases hr : a.route x m.peer with
  | mk addr a₁ =>
    rw [hr] at hroute
    cases addr with
    | none => exact hroute
    | some addr => exact hroute.spares (spares_sendEnvelope x m.peer m.armed addr a₁)

theorem onPath_used {used : PublicKey → Bool} {a' : Activity} (h : Carries (Used x.now used) a a') (p : PublicKey) :
    a'.onPath x p = a.onPath x p := h.childSide.isSome_directPath? p

theorem carries_sendHandshakes (messages : List Outgoing) (hchild : a.node.superPeerSide = none) :
    Carries (Used x.now fun p => messages.any (·.peer = p) && a.onPath x p) a
      (messages.foldl (fun a m => a.sendOutgoing x m) a) := by
  induction messages generalizing a with
  | nil => exact ⟨(Used.refl x.now _).congr fun _ => rfl, rfl, rfl, List.prefix_rfl⟩
  | cons m rest ih =>
    have hfirst := carries_sendOutgoing (x := x) hchild m
    have hrest := ih (a := a.sendOutgoing x m) (hfirst.superPeerSide.trans hchild)
    refine Carries.mono ?_ (Carries.trans (fun _ _ _ h h' => h.trans h') hfirst hrest)
    intro c c' h
    refine h.congr fun p => ?_
    rw [onPath_used hfirst p, List.any_cons, Bool.and_or_distrib_right]

/-! ### Rounds -/

def emptied (a : Activity) : Activity :=
  (a.withNode (drained a.node)).tell (a.node.engine.events ++ a.node.childSide.events ++
    (a.node.superPeerSide.map (·.events)).getD [])

def posted (a : Activity) : List Outbound :=
  a.node.childSide.outbox ++ (a.node.superPeerSide.map (·.outbox)).getD []

/-- A round does its jobs, empties the queues, and sends first what discovery has to say and then what the handshake
has. -/
theorem flushRound_snd (x : Surroundings) (a : Activity) : (a.flushRound x).2 =
    (a.roundHandshakes x).foldl (fun a m => a.sendOutgoing x m)
      ((a.afterJobs x).posted.foldl (fun a m => (a.sendMessage x m.recipient m.message m.addr).2)
        (a.afterJobs x).emptied) := by
  unfold flushRound roundHandshakes afterJobs posted emptied
  cases a.withEngine x fun S now e r => e.runDeferred S now r with
  | mk count a₁ =>
    simp only
    split
    · rename_i hempty
      obtain ⟨hposted, hhandshake⟩ := Bool.and_eq_true_iff.1 hempty
      rw [List.isEmpty_iff.1 hposted, List.isEmpty_iff.1 hhandshake]
      rfl
    · rfl

theorem carries_emptied (hchild : a.node.superPeerSide = none) :
    Carries (Used x.now fun _ => false) a a.emptied := by
  refine ⟨⟨rfl, fun _ => rfl, fun _ h => absurd h Bool.false_ne_true⟩, ?_, rfl, List.prefix_append _ _⟩
  show a.node.superPeerSide.map _ = a.node.superPeerSide
  rw [hchild]
  rfl

theorem carries_posted (x : Surroundings) (hchild : a.node.superPeerSide = none) :
    Carries (Used x.now fun _ => false) a ((a.afterJobs x).posted.foldl
      (fun a m => (a.sendMessage x m.recipient m.message m.addr).2) (a.afterJobs x).emptied) := by
  have hjobs : a.Spares (a.afterJobs x) := spares_withEngine x (fun S now e r => e.runDeferred S now r) a
  have hemptied := carries_emptied (x := x) (hjobs.superPeerSide.trans hchild)
  exact (hjobs.carries hemptied).spares (spares_sendAll x _ _)

/-- A round uses the direct paths of those for whom there are messages of the handshake. -/
theorem carries_flushRound (x : Surroundings) (hchild : a.node.superPeerSide = none) :
    Carries (Used x.now fun p => (a.roundHandshakes x).any (·.peer = p) && a.onPath x p) a (a.flushRound x).2 := by
  have hposted := carries_posted x hchild
  rw [flushRound_snd]
  have hshaken := carries_sendHandshakes (x := x) (a.roundHandshakes x) (hposted.superPeerSide.trans hchild)
  refine Carries.mono ?_ (Carries.trans (fun _ _ _ h h' => h.trans h') hposted hshaken)
  intro c c' h
  refine h.congr fun p => ?_
  rw [onPath_used hposted p, Bool.false_or]

theorem carries_flushRounds (rounds : Nat) (hchild : a.node.superPeerSide = none) :
    Carries (Used x.now fun p => (handshakes x rounds a).any (·.peer = p) && a.onPath x p) a
      (flushRounds x rounds a) := by
  induction rounds generalizing a with
  | zero => exact ⟨(Used.refl x.now _).congr fun _ => rfl, rfl, rfl, List.prefix_rfl⟩
  | succ rounds ih =>
    have hround := carries_flushRound x hchild
    unfold flushRounds handshakes
    cases hr : a.flushRound x with
    | mk quiet a₁ =>
      rw [hr] at hround
      cases quiet with
      | true => exact hround.mono fun c c' h => h.congr fun p => by rw [List.append_nil]
      | false =>
        have hrest := ih (a := a₁) (hround.superPeerSide.trans hchild)
        refine Carries.mono ?_ (Carries.trans (fun _ _ _ h h' => h.trans h') hround hrest)
        intro c c' h
        refine h.congr fun p => ?_
        rw [onPath_used hround p, List.any_append, Bool.and_or_distrib_right]

theorem carries_flush (x : Surroundings) (hchild : a.node.superPeerSide = none) :
    Carries (Used x.now fun p => (a.flushUpkeeps x).any (·.peer = p)) a (a.flush x) := by
  refine (carries_flushRounds (x := x) maxRounds hchild).mono fun c c' h => h.congr fun p => ?_
  unfold flushUpkeeps
  induction handshakes x maxRounds a with
  | nil => rfl
  | cons m rest ih =>
    rw [List.any_cons, Bool.and_or_distrib_right, ih, List.filter_cons]
    by_cases hp : m.peer = p
    · subst hp
      cases a.onPath x m.peer <;> simp
    · cases a.onPath x m.peer <;> simp [hp]

theorem told_flushRound (x : Surroundings) (hchild : a.node.superPeerSide = none) {event : Event}
    (h : event ∈ a.node.childSide.events) : .tell event ∈ (a.flushRound x).2.actions := by
  have htold : .tell event ∈ (a.afterJobs x).emptied.actions :=
    List.mem_append_right _ (List.mem_map_of_mem (List.mem_append_left _ (List.mem_append_right _ h)))
  have hsent := spares_sendAll x (a.afterJobs x).posted (a.afterJobs x).emptied
  have hshaken := carries_sendHandshakes (x := x) (a.roundHandshakes x)
    ((carries_posted x hchild).superPeerSide.trans hchild)
  rw [flushRound_snd]
  exact (hsent.actions.trans hshaken.actions).subset htold

/-- What the child has to tell is told in the first round. -/
theorem told_flush (x : Surroundings) (hchild : a.node.superPeerSide = none) {event : Event}
    (h : event ∈ a.node.childSide.events) : .tell event ∈ (a.flush x).actions := by
  have htold := told_flushRound x hchild h
  have hround := carries_flushRound x hchild
  show .tell event ∈ (flushRounds x (15 + 1) a).actions
  unfold flushRounds
  cases hr : a.flushRound x with
  | mk quiet a₁ =>
    rw [hr] at htold hround
    cases quiet with
    | true => exact htold
    | false => exact (carries_flushRounds (x := x) 15 (hround.superPeerSide.trans hchild)).actions.subset htold

/-! ### Stimuli -/

theorem touch_nil (p : PublicKey) : ¬ Touch [] p := fun ⟨_, hk, _⟩ => absurd hk List.not_mem_nil

theorem touch_singleton {k : Upkeep} : Touch [k] p ↔ k.peer = p := by
  simp only [Touch, List.mem_singleton, exists_eq_left]

theorem Spares.idle {a' : Activity} (h : a.Spares a') (p : PublicKey) (now : Nat) :
    Carries (Ages p now (Touch [] p)) a a' := by
  refine Carries.mono ?_ h
  rintro c c' rfl
  exact (Ages.refl p now _).congr ⟨False.elim, touch_nil p⟩

theorem carries_handleMessage (hchild : a.node.superPeerSide = none) (p sender : PublicKey) (addr : Address)
    (m : DiscoveryMessage) : Carries (Ages p x.now (Touch (a.node.childSide.upkeeps x.now sender m) p)) a
      (a.handleMessage x sender addr m) := by
  have hreceive := ages_receive p a.node.childSide x.now sender m addr
  cases m with
  | application payload =>
    have htouch : sender = p ↔ Touch [⟨x.now, sender, .application⟩] p :=
      (touch_singleton (k := ⟨x.now, sender, .application⟩)).symm
    exact ⟨(ages_applicationSeen p a.node.childSide x.now sender).congr htouch, rfl, rfl, List.prefix_append _ _⟩
  | hello time childrenTime =>
    have hidle : ∀ {c}, Ages p x.now False a.node.childSide c → Ages p x.now (Touch [] p) a.node.childSide c :=
      fun h => h.congr ⟨False.elim, touch_nil p⟩
    simp only [handleMessage]
    split
    · exact ⟨hidle (ages_greetedOnPath p _ _ _ _ _ _), rfl, rfl, List.prefix_rfl⟩
    · refine ⟨hidle (.refl p x.now _), ?_, rfl, List.prefix_rfl⟩
      show a.node.superPeerSide.map _ = a.node.superPeerSide
      rw [hchild]
      rfl
  | acknowledgement time =>
    refine ⟨hreceive.congr ⟨?_, fun h => absurd h (touch_nil p)⟩, rfl, rfl, List.prefix_rfl⟩
    rintro ⟨⟨_, h⟩, -⟩
    cases h
  | unite peer at' =>
    refine ⟨(ages_introduced p a.node.childSide x.now sender peer at').congr ?_, rfl, rfl, List.prefix_rfl⟩
    simp only [ChildSide.upkeeps]
    split
    · rename_i hyes
      rw [touch_singleton]
      exact ⟨And.left, fun h => ⟨h, hyes⟩⟩
    · rename_i hno
      exact ⟨fun h => absurd h.2 hno, fun h => absurd h (touch_nil p)⟩

theorem carries_receive (hchild : a.node.superPeerSide = none) (p : PublicKey) (data : Bytes) (sender : Address) :
    Carries (Ages p x.now (Touch (a.heardUpkeeps x data) p)) a (a.receive x data sender) := by
  have hidle := (Spares.refl a).idle p x.now
  unfold receive heardUpkeeps heard
  cases Envelope.decode data with
  | error err => exact hidle
  | ok e =>
    simp only [handleEnvelope]
    by_cases hskip : (e.networkId ≠ a.node.config.discovery.networkId || e.sender = a.node.address) = true
    · rw [if_pos hskip, if_pos hskip]
      exact hidle
    rw [if_neg hskip, if_neg hskip]
    by_cases hother : e.recipient ≠ a.node.address
    · rw [if_pos hother, if_pos hother]
      unfold relay
      rw [hchild]
      exact hidle
    rw [if_neg hother, if_neg hother]
    have hopen := spares_withEngine x (fun S now n r => n.disarmInbound S now e.sender e.armed r) a
    cases hr : a.withEngine x fun S now n r => n.disarmInbound S now e.sender e.armed r with
    | mk result a₁ =>
      rw [hr] at hopen
      have hopened := hopen.idle p x.now
      cases result with
      | error err => exact hopened
      | ok opened =>
        cases opened with
        | consumed => exact hopened
        | application payload =>
          simp only
          cases DiscoveryMessage.decode payload with
          | error err => exact hopened
          | ok m =>
            have hmessage := carries_handleMessage (x := x) (hopen.superPeerSide.trans hchild) p e.sender sender m
            rw [hopen.childSide] at hmessage
            exact hopen.carries hmessage

theorem carries_sendApplication (hchild : a.node.superPeerSide = none) (p peer : PublicKey) (payload : Bytes) :
    Carries (Ages p x.now (Touch (a.handleUpkeeps x (.send peer payload)) p)) a
      (a.sendApplication x peer payload).2 := by
  simp only [sendApplication, handleUpkeeps]
  by_cases hown : peer = a.node.address
  · rw [if_pos hown, if_neg fun h => h.1 hown]
    exact (spares_tell a _).idle p x.now
  · rw [if_neg hown]
    have hroute := carries_route (x := x) hchild peer
    have hages : Carries (Ages p x.now (Touch (if peer ≠ a.node.address ∧ a.onPath x peer then
        [(⟨x.now, peer, .application⟩ : Upkeep)] else []) p)) a (a.route x peer).2 := by
      refine hroute.mono fun c c' h => (h.ages p).congr ?_
      by_cases hpath : a.onPath x peer = true
      · rw [if_pos ⟨hown, hpath⟩, touch_singleton, Bool.and_eq_true, decide_eq_true_eq]
        exact ⟨And.left, fun hp => ⟨hp, hp ▸ hpath⟩⟩
      · rw [if_neg fun h => hpath h.2, Bool.and_eq_true, decide_eq_true_eq]
        exact ⟨fun hboth => absurd (hboth.1 ▸ hboth.2) hpath, fun h => absurd h (touch_nil p)⟩
    cases hr : a.route x peer with
    | mk addr a₁ =>
      rw [hr] at hages
      cases addr with
      | none => exact hages
      | some addr => exact hages.spares (spares_sendMessage x peer _ addr a₁)

theorem carries_heartbeat (hchild : a.node.superPeerSide = none) (x : Surroundings) :
    Carries (fun c c' => c' = c.heartbeat x.now) a (a.heartbeat x) := by
  have hbeat : Carries (fun c c' => c' = c.heartbeat x.now) a (a.withNode { a.node with
      childSide := a.node.childSide.heartbeat x.now
      superPeerSide := a.node.superPeerSide.map fun s => (s.checkStale x.now).2
      engine := (a.node.engine.evictIdleSessions x.now).2 }) := by
    refine ⟨rfl, ?_, rfl, List.prefix_rfl⟩
    show a.node.superPeerSide.map _ = a.node.superPeerSide
    rw [hchild]
    rfl
  exact hbeat.spares (spares_checkLink _)

/-- A stimulus counts the age of a record anew if there is upkeep for its peer. -/
theorem carries_handle (hchild : a.node.superPeerSide = none) (p : PublicKey) (s : Stimulus) :
    Carries (Ages p x.now (Touch (a.handleUpkeeps x s) p)) a (a.handle x s).2 := by
  cases s with
  | heartbeat =>
    refine (carries_heartbeat hchild x).mono ?_
    rintro c c' rfl
    exact (ages_heartbeat p c x.now).congr ⟨False.elim, touch_nil p⟩
  | send peer payload => exact carries_sendApplication hchild p peer payload
  | datagram data sender =>
    have hheard := spares_heardFrom sender a
    exact hheard.carries (carries_receive (hheard.superPeerSide.trans hchild) p data sender)
  | frame data sender => exact carries_receive hchild p data sender

end Activity

namespace Node

open Activity ChildSide Upkeep

variable {x : Surroundings} {s : Stimulus} {n : Node} {r : Entropy}

/-- **The age of a record is counted anew in a step exactly if the step does upkeep for its peer.** -/
theorem carries_step (hchild : n.superPeerSide = none) (p : PublicKey) :
    Carries (Ages p x.now (Touch (n.upkeeps x s r) p)) { node := n, entropy := r } (n.step x s r).2 := by
  simp only [step, upkeeps]
  split
  · have hhandle := carries_handle (x := x) (a := { node := n, entropy := r }) hchild p s
    cases hr : ({ node := n, entropy := r } : Activity).handle x s with
    | mk result a =>
      rw [hr] at hhandle
      have hflush := carries_flush x (hhandle.superPeerSide.trans hchild)
      refine Carries.trans ?_ hhandle hflush
      intro c c' c'' h h'
      refine (h.trans (h'.ages p)).congr ?_
      rw [touch_append, List.any_eq_true]
      simp only [Touch, decide_eq_true_eq]
  · exact (Spares.refl _).idle p x.now

end Node

end Overlay
