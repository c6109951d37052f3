import Overlay.Proofs.Engine.Sealing
import Overlay.Proofs.Node.Sending
import Overlay.Proofs.Session.Credit

/-!
# A flush becomes quiet

What a node does in a flush feeds its queues again: a message of discovery is armed, which leaves jobs; a job sends
messages of the handshake, which wait for the next round.  But this goes two steps deep only.  Arming queues jobs and
events, and no messages (`Engine.outbox_armOutbound`); jobs queue messages and events, and no jobs
(`Engine.deferred_runDeferred`); and a message on its way queues nothing (`Activity.engine_transmit`).  So the first
busy round may post messages of discovery, and leaves none behind (`Node.Delivered`); the second one posts what the jobs
of the first one have to say; and after that nothing waits (`Node.Quiet`).

`flush_quiet` puts this together, with an account of all that was handed on: `Works` says of a flush what each of its
busy rounds handed on, message by message, and that its last round found nothing to do.
-/

namespace Overlay

/-! ### The engine's queues -/

namespace Engine

variable {S : Suite} {now : Nat} {peer : PublicKey} {e : Engine} {r : Entropy}

theorem deferred_converse {α : Type} {work : Context → Turn → Except ArmError α × Turn}
    (hwork : ∀ x t, (work x t).2.deferred = t.deferred) :
    (e.converse S now peer work r).2.1.deferred = e.deferred := by
  have hresolve : (e.resolve S now peer).2.deferred = e.deferred := congrArg (·.deferred) (resolve_same S now peer e)
  cases hr : (e.resolve S now peer).1 with
  | error err =>
    rw [converse_error hr]
    exact hresolve
  | ok s =>
    rw [converse_ok hr]
    show (e.resolve S now peer).2.deferred ++
      (work (e.context S now peer) { session := s, entropy := r }).2.deferred.map _ = _
    rw [hwork, List.map_nil, List.append_nil]
    exact hresolve

theorem deferred_perform (S : Suite) (now : Nat) (state : Engine × Entropy) (job : PublicKey × Deferred) :
    (perform S now state job).1.deferred = state.1.deferred := by
  unfold perform
  cases job.2 with
  | checkRenewal =>
    simp only [checkForRenew]
    split
    · cases state.1.sessions.get job.1 now with
      | mk found sessions =>
        cases found with
        | none => rfl
        | some s =>
          show state.1.deferred ++ (Turn.checkForRenew _ _).2.deferred.map _ = _
          rw [Turn.deferred_checkForRenew, List.map_nil, List.append_nil]
    · rfl
  | keyExchange =>
    simp only [doKeyExchange]
    split
    · exact deferred_converse Turn.deferred_doKeyExchange
    · rfl

/-- **Doing the jobs leaves no job.** -/
theorem deferred_runDeferred (S : Suite) (now : Nat) (e : Engine) (r : Entropy) :
    (e.runDeferred S now r).2.1.deferred = [] := by
  have hjobs : ∀ (jobs : List (PublicKey × Deferred)) (state : Engine × Entropy),
      (jobs.foldl (perform S now) state).1.deferred = state.1.deferred := by
    intro jobs
    induction jobs with
    | nil => exact fun _ => rfl
    | cons job jobs ih => exact fun state => (ih _).trans (deferred_perform S now state job)
  exact hjobs e.deferred ({ e with deferred := [] }, r)

theorem runDeferred_idle (h : e.deferred = []) (S : Suite) (now : Nat) (r : Entropy) :
    e.runDeferred S now r = (0, e, r) := by
  obtain ⟨identity, config, sessions, deferred, outbox, events⟩ := e
  obtain rfl : deferred = [] := h
  rfl

end Engine

/-! ### What is handed on -/

/-- Something that a flush hands on: a message of discovery, which the engine arms, or one of the handshake, which goes
by way of an address if there is a way to its peer. -/
inductive Handing where
  | arm (m : Outbound)
  | transmit (m : Outgoing) (addr : Address)
  | drop (m : Outgoing)

def Handing.outbound? : Handing → Option Outbound
  | .arm m => some m
  | .transmit _ _ | .drop _ => none

def Handing.outgoing? : Handing → Option Outgoing
  | .arm _ => none
  | .transmit m _ | .drop m => some m

namespace Activity

/-- One thing is handed on.  A message of discovery is armed once, and sent once if that succeeds.  One of the handshake
is sent once if there is a way to its peer, and not otherwise. -/
inductive Hands (x : Surroundings) : Activity → Handing → Activity → Prop where
  | armed {a a' : Activity} {m : Outbound} {armed : ArmedMessage}
      (h : a.withEngine x (fun S now e r => e.armOutbound S now m.recipient m.message.encode r) = (.ok armed, a')) :
      Hands x a (.arm m) (a'.transmit x m.addr (a'.wrapped m.recipient armed)).2
  | refused {a a' : Activity} {m : Outbound} {err : ArmError}
      (h : a.withEngine x (fun S now e r => e.armOutbound S now m.recipient m.message.encode r) = (.error err, a')) :
      Hands x a (.arm m) a'
  | transmitted {a a' : Activity} {m : Outgoing} {addr : Address} (h : a.route x m.peer = (some addr, a')) :
      Hands x a (.transmit m addr) (a'.transmit x addr (a'.wrapped m.peer m.armed)).2
  | dropped {a a' : Activity} {m : Outgoing} (h : a.route x m.peer = (none, a')) : Hands x a (.drop m) a'

inductive HandsAll (x : Surroundings) : Activity → List Handing → Activity → Prop where
  | nil (a : Activity) : HandsAll x a [] a
  | cons {a a' a'' : Activity} {k : Handing} {ks : List Handing} (h : Hands x a k a') (hs : HandsAll x a' ks a'') :
      HandsAll x a (k :: ks) a''

/-- The rounds of a flush, with what each busy one hands on: all messages of discovery that are queued, in their order,
and all messages of the handshake, in theirs.  The last round finds nothing to do. -/
inductive Works (x : Surroundings) : Activity → List (List Handing) → Activity → Prop where
  | quiet {a a' : Activity} (h : a.flushRound x = (true, a')) : Works x a [] a'
  | busy {a a' a'' : Activity} {ks : List Handing} {rounds : List (List Handing)} (h : a.flushRound x = (false, a'))
      (hands : HandsAll x (a.afterJobs x).emptied ks a')
      (outbound : ks.filterMap Handing.outbound? = (a.afterJobs x).posted)
      (outgoing : ks.filterMap Handing.outgoing? = a.roundHandshakes x) (rest : Works x a' rounds a'') :
      Works x a (ks :: rounds) a''

variable {x : Surroundings} {a a' a'' : Activity} {k : Handing} {ks : List Handing}

theorem HandsAll.append {ks' : List Handing} (h : HandsAll x a ks a') (h' : HandsAll x a' ks' a'') :
    HandsAll x a (ks ++ ks') a'' := by
  induction h with
  | nil => exact h'
  | cons hk _ ih => exact .cons hk (ih h')

theorem hands_sendMessage (x : Surroundings) (m : Outbound) (a : Activity) :
    Hands x a (.arm m) (a.sendMessage x m.recipient m.message m.addr).2 := by
  unfold sendMessage
  cases hr : a.withEngine x fun S now e r => e.armOutbound S now m.recipient m.message.encode r with
  | mk result a₁ =>
    cases result with
    | error err => exact .refused hr
    | ok armed => exact .armed hr

theorem hands_sendOutgoing (x : Surroundings) (m : Outgoing) (a : Activity) :
    ∃ k : Handing, k.outbound? = none ∧ k.outgoing? = some m ∧ Hands x a k (a.sendOutgoing x m) := by
  unfold sendOutgoing
  cases hr : a.route x m.peer with
  | mk addr a₁ =>
    cases addr with
    | none => exact ⟨.drop m, rfl, rfl, .dropped hr⟩
    | some addr => exact ⟨.transmit m addr, rfl, rfl, .transmitted hr⟩

theorem handsAll_sendMessages (x : Surroundings) (messages : List Outbound) (a : Activity) :
    HandsAll x a (messages.map .arm)
      (messages.foldl (fun a m => (a.sendMessage x m.recipient m.message m.addr).2) a) := by
  induction messages generalizing a with
  | nil => exact .nil a
  | cons m rest ih => exact .cons (hands_sendMessage x m a) (ih _)

theorem handsAll_sendOutgoings (x : Surroundings) (messages : List Outgoing) (a : Activity) :
    ∃ ks, ks.filterMap Handing.outbound? = [] ∧ ks.filterMap Handing.outgoing? = messages ∧
      HandsAll x a ks (messages.foldl (fun a m => a.sendOutgoing x m) a) := by
  induction messages generalizing a with
  | nil => exact ⟨[], rfl, rfl, .nil a⟩
  | cons m rest ih =>
    obtain ⟨k, hbound, hgoing, hk⟩ := hands_sendOutgoing x m a
    obtain ⟨ks, hbounds, hgoings, hks⟩ := ih (a.sendOutgoing x m)
    refine ⟨k :: ks, ?_, ?_, .cons hk hks⟩
    · rw [List.filterMap_cons_none hbound, hbounds]
    · rw [List.filterMap_cons_some hgoing, hgoings]

/-- A round hands on what is queued after its jobs. -/
theorem handsAll_flushRound (x : Surroundings) (a : Activity) :
    ∃ ks, HandsAll x (a.afterJobs x).emptied ks (a.flushRound x).2 ∧
      ks.filterMap Handing.outbound? = (a.afterJobs x).posted ∧
      ks.filterMap Handing.outgoing? = a.roundHandshakes x := by
  have hposted := handsAll_sendMessages x (a.afterJobs x).posted (a.afterJobs x).emptied
  obtain ⟨ks, hbounds, hgoings, hks⟩ := handsAll_sendOutgoings x (a.roundHandshakes x)
    ((a.afterJobs x).posted.foldl (fun a m => (a.sendMessage x m.recipient m.message m.addr).2)
      (a.afterJobs x).emptied)
  have harms : ∀ l : List Outbound, (l.map Handing.arm).filterMap Handing.outbound? = l ∧
      (l.map Handing.arm).filterMap Handing.outgoing? = [] := by
    intro l
    induction l with
    | nil => exact ⟨rfl, rfl⟩
    | cons m l ih => exact ⟨congrArg (m :: ·) ih.1, ih.2⟩
  rw [flushRound_snd]
  refine ⟨_, hposted.append hks, ?_, ?_⟩
  · rw [List.filterMap_append, (harms _).1, hbounds, List.append_nil]
  · rw [List.filterMap_append, (harms _).2, hgoings, List.nil_append]

end Activity

/-! ### What waits -/

/-- No message waits to be handed on, and no event of discovery to be told. -/
structure Node.Delivered (n : Node) : Prop where
  outbox : n.engine.outbox = []
  childSide : n.childSide.outbox = [] ∧ n.childSide.events = []
  superPeerSide : ∀ s, n.superPeerSide = some s → s.outbox = [] ∧ s.events = []

/-- Nothing waits for a flush. -/
structure Node.Quiet (n : Node) : Prop extends n.Delivered where
  deferred : n.engine.deferred = []
  events : n.engine.events = []

namespace Activity

variable {x : Surroundings} {a a' : Activity} {k : Handing} {ks : List Handing}

theorem delivered_emptied (a : Activity) : a.emptied.node.Delivered := by
  refine ⟨rfl, ⟨rfl, rfl⟩, ?_⟩
  intro s hs
  obtain ⟨s, -, rfl⟩ := Option.map_eq_some_iff.1 hs
  exact ⟨rfl, rfl⟩

theorem quiet_emptied (h : a.node.engine.deferred = []) : a.emptied.node.Quiet :=
  ⟨delivered_emptied a, h, rfl⟩

theorem deferred_afterJobs (x : Surroundings) (a : Activity) : (a.afterJobs x).node.engine.deferred = [] :=
  Engine.deferred_runDeferred x.suite x.now a.node.engine a.entropy

/-- The jobs of a round post what they have to say behind what there was. -/
theorem outbox_afterJobs (x : Surroundings) (a : Activity) : a.node.engine.outbox <+: a.roundHandshakes x := by
  let w : Endpoint := ⟨a.node.engine, a.entropy, []⟩
  have hjobs : (Operation.runDeferred.perform x.suite x.now w).engine.outbox = _ :=
    Operation.outbox_perform .runDeferred nofun nofun
  exact ⟨_, hjobs.symm⟩

theorem delivered_of_same (h : a.node.Delivered) (hout : a'.node.engine.outbox = a.node.engine.outbox)
    (hs : a.Spares a') : a'.node.Delivered :=
  ⟨hout.trans h.outbox, hs.childSide ▸ h.childSide, hs.superPeerSide ▸ h.superPeerSide⟩

theorem delivered_transmit (h : a.node.Delivered) (addr : Address) (data : Bytes) :
    (a.transmit x addr data).2.node.Delivered :=
  delivered_of_same h (congrArg Engine.outbox (engine_transmit x addr data a)) (spares_transmit x addr data a)

theorem engine_route {peer : PublicKey} {addr : Option Address} (hr : a.route x peer = (addr, a')) :
    a'.node.engine = a.node.engine := by
  obtain rfl : _ = a' := congrArg Prod.snd hr
  unfold route
  split <;> rfl

theorem delivered_route (h : a.node.Delivered) {peer : PublicKey} {addr : Option Address}
    (hr : a.route x peer = (addr, a')) : a'.node.Delivered := by
  obtain rfl : _ = a' := congrArg Prod.snd hr
  unfold route
  split
  · exact h
  · refine ⟨h.outbox, ?_, h.superPeerSide⟩
    show (a.node.childSide.route x.now peer).2.outbox = [] ∧ (a.node.childSide.route x.now peer).2.events = []
    unfold ChildSide.route
    split <;> exact h.childSide

theorem Hands.delivered (hk : Hands x a k a') (h : a.node.Delivered) : a'.node.Delivered := by
  have harm : ∀ (m : Outbound) (result : Except ArmError ArmedMessage) (a₁ : Activity),
      a.withEngine x (fun S now e r => e.armOutbound S now m.recipient m.message.encode r) = (result, a₁) →
        a₁.node.Delivered := by
    intro m result a₁ hr
    have hsame := spares_withEngine x (fun S now e r => e.armOutbound S now m.recipient m.message.encode r) a
    rw [hr] at hsame
    refine delivered_of_same h ?_ hsame
    obtain rfl : _ = a₁ := congrArg Prod.snd hr
    exact Engine.outbox_armOutbound x.suite x.now m.recipient m.message.encode a.node.engine a.entropy
  cases hk with
  | armed hr => exact delivered_transmit (harm _ _ _ hr) _ _
  | refused hr => exact harm _ _ _ hr
  | transmitted hr => exact delivered_transmit (delivered_route h hr) _ _
  | dropped hr => exact delivered_route h hr

theorem Hands.engine (hk : Hands x a k a') (hout : k.outbound? = none) : a'.node.engine = a.node.engine := by
  cases hk with
  | armed => cases hout
  | refused => cases hout
  | transmitted hr => exact (engine_transmit x _ _ _).trans (engine_route hr)
  | dropped hr => exact engine_route hr

theorem HandsAll.delivered (hks : HandsAll x a ks a') (h : a.node.Delivered) : a'.node.Delivered := by
  induction hks with
  | nil => exact h
  | cons hk _ ih => exact ih (hk.delivered h)

theorem HandsAll.engine (hks : HandsAll x a ks a') (hout : ks.filterMap Handing.outbound? = []) :
    a'.node.engine = a.node.engine := by
  induction hks with
  | nil => rfl
  | cons hk _ ih =>
    rw [List.filterMap_eq_nil_iff, List.forall_mem_cons, ← List.filterMap_eq_nil_iff] at hout
    exact (ih hout.2).trans (hk.engine hout.1)

/-! ### Rounds -/

/-- A round ends the flush exactly if it finds no message: the jobs are done by then. -/
theorem flushRound_fst (x : Surroundings) (a : Activity) :
    (a.flushRound x).1 = ((a.afterJobs x).posted.isEmpty && (a.roundHandshakes x).isEmpty) := by
  have hjobs : (a.withEngine x fun S now e r => e.runDeferred S now r).2.node.engine.deferred = [] :=
    deferred_afterJobs x a
  unfold flushRound roundHandshakes afterJobs posted
  generalize (a.withEngine x fun S now e r => e.runDeferred S now r) = done at hjobs ⊢
  simp only
  split
  · rename_i hempty
    rw [hempty]
    exact List.isEmpty_iff.2 hjobs
  · rename_i hbusy
    exact (Bool.eq_false_iff.2 hbusy).symm

/-- A round that ends the flush leaves nothing behind. -/
theorem quiet_flushRound (hposted : (a.afterJobs x).posted = []) (hhandshakes : a.roundHandshakes x = []) :
    Works x a [] (a.flushRound x).2 ∧ (a.flushRound x).2.node.Quiet := by
  have hfst := flushRound_fst x a
  have hsnd := flushRound_snd x a
  rw [hposted, hhandshakes] at hfst hsnd
  refine ⟨.quiet (Prod.ext hfst rfl), ?_⟩
  rw [hsnd]
  exact quiet_emptied (deferred_afterJobs x a)

/-- A busy round delivers what is queued.  If it posts no message of discovery, then it leaves nothing behind. -/
theorem delivered_flushRound (x : Surroundings) (a : Activity) :
    (a.flushRound x).2.node.Delivered ∧ ((a.afterJobs x).posted = [] → (a.flushRound x).2.node.Quiet) := by
  obtain ⟨ks, hks, hbounds, -⟩ := handsAll_flushRound x a
  have hdelivered := hks.delivered (delivered_emptied (a.afterJobs x))
  refine ⟨hdelivered, fun hposted => ?_⟩
  have hengine := hks.engine (hbounds.trans hposted)
  have hquiet := quiet_emptied (deferred_afterJobs x a)
  exact ⟨hdelivered, hengine ▸ hquiet.deferred, hengine ▸ hquiet.events⟩

theorem posted_afterJobs (x : Surroundings) (a : Activity) : (a.afterJobs x).posted = a.posted := rfl

theorem posted_eq_nil (h : a.node.Delivered) : a.posted = [] := by
  unfold posted
  rw [h.childSide.1, List.nil_append]
  cases hs : a.node.superPeerSide with
  | none => rfl
  | some s => exact (h.superPeerSide s hs).1

theorem Works.round {rounds : List (List Handing)} (h : ¬ ((a.afterJobs x).posted = [] ∧ a.roundHandshakes x = []))
    (hrest : Works x (a.flushRound x).2 rounds a') :
    ∃ ks, Works x a (ks :: rounds) a' ∧ ks.filterMap Handing.outbound? = a.posted ∧
      ks.filterMap Handing.outgoing? = a.roundHandshakes x := by
  obtain ⟨ks, hks, hbounds, hgoings⟩ := handsAll_flushRound x a
  have hbusy : (a.flushRound x).1 = false := by
    rw [flushRound_fst, Bool.eq_false_iff, ne_eq, Bool.and_eq_true, List.isEmpty_iff, List.isEmpty_iff]
    exact h
  exact ⟨ks, .busy (Prod.ext hbusy rfl) hks hbounds hgoings hrest, hbounds, hgoings⟩

/-- Where nothing waits, a flush has one round. -/
theorem works_quiet (h : a.node.Quiet) : ∃ a', Works x a [] a' ∧ a'.node.Quiet := by
  have hidle : a.roundHandshakes x = [] := by
    show (a.node.engine.runDeferred x.suite x.now a.entropy).2.1.outbox = []
    rw [Engine.runDeferred_idle h.deferred]
    exact h.outbox
  exact ⟨_, quiet_flushRound ((posted_afterJobs x a).trans (posted_eq_nil h.toDelivered)) hidle⟩

/-- Where only jobs wait, a flush has two rounds at most, and posts no message of discovery. -/
theorem works_delivered (h : a.node.Delivered) :
    ∃ rounds a', rounds.length ≤ 1 ∧ Works x a rounds a' ∧ a'.node.Quiet ∧
      rounds.flatten.filterMap Handing.outbound? = [] := by
  have hposted : (a.afterJobs x).posted = [] := (posted_afterJobs x a).trans (posted_eq_nil h)
  by_cases hhandshakes : a.roundHandshakes x = []
  · obtain ⟨hworks, hquiet⟩ := quiet_flushRound hposted hhandshakes
    exact ⟨[], _, Nat.zero_le 1, hworks, hquiet, rfl⟩
  · obtain ⟨a', hrest, hquiet⟩ := works_quiet (x := x) ((delivered_flushRound x a).2 hposted)
    obtain ⟨ks, hworks, hbounds, -⟩ := Works.round (fun hnone => hhandshakes hnone.2) hrest
    refine ⟨[ks], a', Nat.le_refl 1, hworks, hquiet, ?_⟩
    rw [List.flatten_singleton, hbounds]
    exact hposted

/-- A flush that may have another round comes to what its rounds come to. -/
theorem Works.flushRounds {rounds : List (List Handing)} (h : Works x a rounds a') {cap : Nat}
    (hcap : rounds.length < cap) : flushRounds x cap a = a' := by
  induction h generalizing cap with
  | quiet hround =>
    obtain ⟨cap, rfl⟩ := Nat.exists_eq_succ_of_ne_zero (Nat.ne_zero_of_lt hcap)
    rw [Activity.flushRounds, hround]
  | busy hround _ _ _ _ ih =>
    obtain ⟨cap, rfl⟩ := Nat.exists_eq_succ_of_ne_zero (Nat.ne_zero_of_lt hcap)
    rw [Activity.flushRounds, hround]
    exact ih (Nat.lt_of_succ_lt_succ hcap)

/-- **A flush becomes quiet.**  Whatever a node has queued and whatever comes of routing and sending, at most two rounds
are followed by one that finds nothing to do, long before the bound on the rounds; any bound above two gives the same.
On return nothing waits.  Each queued message of discovery was armed exactly once, and each queued message of the
handshake was sent exactly once or had no way to its peer, both in the order of their queues. -/
theorem flush_quiet (x : Surroundings) (a : Activity) :
    ∃ rounds : List (List Handing), rounds.length ≤ 2 ∧ Works x a rounds (a.flush x) ∧ (a.flush x).node.Quiet ∧
      (∀ cap, rounds.length < cap → flushRounds x cap a = a.flush x) ∧
      rounds.flatten.filterMap Handing.outbound? = a.posted ∧
      a.node.engine.outbox <+: rounds.flatten.filterMap Handing.outgoing? := by
  have hrounds : ∃ rounds a', rounds.length ≤ 2 ∧ Works x a rounds a' ∧ a'.node.Quiet ∧
      rounds.flatten.filterMap Handing.outbound? = a.posted ∧
      a.node.engine.outbox <+: rounds.flatten.filterMap Handing.outgoing? := by
    have houtbox := outbox_afterJobs x a
    by_cases hidle : (a.afterJobs x).posted = [] ∧ a.roundHandshakes x = []
    · obtain ⟨hworks, hquiet⟩ := quiet_flushRound hidle.1 hidle.2
      rw [hidle.2] at houtbox
      exact ⟨[], _, Nat.zero_le 2, hworks, hquiet, hidle.1.symm, houtbox⟩
    · obtain ⟨rounds, a', hlength, hrest, hquiet, hlater⟩ := works_delivered (x := x) (delivered_flushRound x a).1
      obtain ⟨ks, hworks, hbounds, hgoings⟩ := Works.round hidle hrest
      refine ⟨ks :: rounds, a', Nat.succ_le_succ hlength, hworks, hquiet, ?_, ?_⟩
      · rw [List.flatten_cons, List.filterMap_append, hbounds, hlater, List.append_nil]
      · rw [List.flatten_cons, List.filterMap_append, hgoings]
        exact houtbox.trans (List.prefix_append _ _)
  obtain ⟨rounds, a', hlength, hworks, hquiet, hbounds, hgoings⟩ := hrounds
  have hflush : a.flush x = a' := hworks.flushRounds (Nat.lt_of_le_of_lt hlength (by decide))
  rw [hflush]
  exact ⟨rounds, hlength, hworks, hquiet, fun cap hcap => hworks.flushRounds hcap, hbounds, hgoings⟩

end Activity

end Overlay
