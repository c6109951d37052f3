import Overlay.Proofs.Node.Idle
import Overlay.Proofs.Node.Link

/-!
# Falling back to the link, and back

Every step of a node is made of work of the engine, of discovery, and of messages that are sent one after the other
(`Node.sendings`, which follows the course of a step).  Each message of a step meets a node whose fallback and link
agree, and together they account for all that the step sends (`sends_step`).

So in every run of a node with one super peer, the fallback is active exactly while there is a link, the application is
told in turn that the link has come and that it has gone, and each message to the super peer takes the link if there is
one that lives, and goes as a datagram otherwise (`Life.link_consistent`).
-/

namespace Overlay

namespace Activity

/-! ### The messages of a step -/

def wrapped (peer : PublicKey) (armed : ArmedMessage) (a : Activity) : Bytes :=
  ({ networkId := a.node.config.discovery.networkId
     hopCount := 0
     sender := a.node.address
     recipient := peer
     armed := armed } : Envelope).encode

def inTurn {α : Type} (work : Activity → α → Activity) (sendings : Activity → α → List Sending) :
    List α → Activity → List Sending
  | [], _ => []
  | m :: rest, a => sendings a m ++ inTurn work sendings rest (work a m)

/-- What is sent for a message to a peer, if it can be armed. -/
def messageSendings (x : Surroundings) (peer : PublicKey) (m : DiscoveryMessage) (addr : Address) (a : Activity) :
    List Sending :=
  match a.withEngine x fun S now e r => e.armOutbound S now peer m.encode r with
  | (.error _, _) => []
  | (.ok armed, a) => [⟨a, addr, a.wrapped peer armed⟩]

def applicationSendings (x : Surroundings) (peer : PublicKey) (payload : Bytes) (a : Activity) : List Sending :=
  if peer = a.node.address then []
  else
    match a.route x peer with
    | (none, _) => []
    | (some addr, a) => a.messageSendings x peer (.application payload) addr

def relaySendings (x : Surroundings) (e : Envelope) (a : Activity) : List Sending :=
  match a.node.superPeerSide with
  | none => []
  | some s =>
    let (decision, s) := s.relay x.now e
    match decision with
    | .forward addr e => [⟨a.withNode { a.node with superPeerSide := some s }, addr, e.encode⟩]
    | .own | .drop => []

def receiveSendings (x : Surroundings) (data : Bytes) (a : Activity) : List Sending :=
  match Envelope.decode data with
  | .error _ => []
  | .ok e =>
    if e.networkId ≠ a.node.config.discovery.networkId || e.sender = a.node.address then []
    else if e.recipient ≠ a.node.address then a.relaySendings x e
    else []

/-- What is sent before the queues are worked off. -/
def handleSendings (x : Surroundings) (s : Stimulus) (a : Activity) : List Sending :=
  match s with
  | .heartbeat => []
  | .send peer payload => a.applicationSendings x peer payload
  | .datagram data sender => (a.heardFrom sender).receiveSendings x data
  | .frame data _ => a.receiveSendings x data

def outgoingSendings (x : Surroundings) (m : Outgoing) (a : Activity) : List Sending :=
  match a.route x m.peer with
  | (some addr, a) => [⟨a, addr, a.wrapped m.peer m.armed⟩]
  | (none, _) => []

def afterPosted (x : Surroundings) (a : Activity) : Activity :=
  (a.afterJobs x).posted.foldl (fun a m => (a.sendMessage x m.recipient m.message m.addr).2) (a.afterJobs x).emptied

def roundSendings (x : Surroundings) (a : Activity) : List Sending :=
  inTurn (fun a m => (a.sendMessage x m.recipient m.message m.addr).2)
      (fun a m => a.messageSendings x m.recipient m.message m.addr) (a.afterJobs x).posted (a.afterJobs x).emptied ++
    inTurn (fun a m => a.sendOutgoing x m) (fun a m => a.outgoingSendings x m) (a.roundHandshakes x) (a.afterPosted x)

def roundsSendings (x : Surroundings) : Nat → Activity → List Sending
  | 0, _ => []
  | rounds + 1, a =>
    a.roundSendings x ++
      match a.flushRound x with
      | (true, _) => []
      | (false, a) => roundsSendings x rounds a

end Activity

def Node.sendings (x : Surroundings) (s : Stimulus) (n : Node) (r : Entropy) : List Sending :=
  if n.running then
    let a : Activity := { node := n, entropy := r }
    a.handleSendings x s ++ (a.handle x s).2.roundsSendings x Activity.maxRounds
  else []

namespace Activity

variable {peer : PublicKey} {served : Address} {x : Surroundings} {a a' : Activity}

theorem sends_inTurn {α : Type} {work : Activity → α → Activity} {sendings : Activity → α → List Sending}
    (hwork : ∀ (a : Activity) m, a.node.Linked peer served → Sends x peer served (sendings a m) a (work a m))
    (l : List α) (h : a.node.Linked peer served) :
    Sends x peer served (inTurn work sendings l a) a (l.foldl work a) := by
  induction l generalizing a with
  | nil => exact .refl h
  | cons m rest ih =>
    have hfirst := hwork a m h
    exact hfirst.trans (ih hfirst.linked)

theorem Sends.silent {ks : List Sending} (h : Sends x peer served [] a a') {a'' : Activity}
    (h' : Sends x peer served ks a' a'') : Sends x peer served ks a a'' := h.trans h'

/-! ### Sending to a peer -/

theorem sends_route (h : a.node.Linked peer served) (p : PublicKey) :
    Sends x peer served [] a (a.route x p).2 := by
  unfold route
  split
  · exact .refl h
  · refine .still (h.withChildSide ?_) rfl rfl
    show Streamless (a.node.childSide.route x.now p).2.events
    rw [ChildSide.events_route]
    exact h.childSide

theorem sends_sendMessage (h : a.node.Linked peer served) (p : PublicKey) (m : DiscoveryMessage) (addr : Address) :
    Sends x peer served (a.messageSendings x p m addr) a (a.sendMessage x p m addr).2 := by
  have harm := sends_withEngine (x := x) h (.armOutbound p m.encode)
    (fun S now e r => e.armOutbound S now p m.encode r) rfl
  unfold sendMessage messageSendings
  cases hr : a.withEngine x fun S now e r => e.armOutbound S now p m.encode r with
  | mk result a₁ =>
    rw [hr] at harm
    cases result with
    | error e => exact harm
    | ok armed => exact harm.silent (sends_transmit harm.linked addr _)

theorem sends_sendApplication (h : a.node.Linked peer served) (p : PublicKey) (payload : Bytes) :
    Sends x peer served (a.applicationSendings x p payload) a (a.sendApplication x p payload).2 := by
  unfold sendApplication applicationSendings
  split
  · exact sends_tell h (streamless_singleton.2 rfl)
  · have hroute := sends_route (x := x) h p
    cases hr : a.route x p with
    | mk addr a₁ =>
      rw [hr] at hroute
      cases addr with
      | none => exact hroute
      | some addr => exact hroute.silent (sends_sendMessage hroute.linked p _ addr)

/-! ### Receiving -/

theorem sends_relay (h : a.node.Linked peer served) (e : Envelope) :
    Sends x peer served (a.relaySendings x e) a (a.relay x e) := by
  unfold relay relaySendings
  cases hs : a.node.superPeerSide with
  | none => exact .refl h
  | some s =>
    have hside := SuperPeerSide.streamless_relay (h.superPeerSide s hs) x.now e
    simp only
    cases hr : s.relay x.now e with
    | mk decision s' =>
      rw [hr] at hside
      have hstill : Sends x peer served [] a (a.withNode { a.node with superPeerSide := some s' }) :=
        .still (h.withSuperPeerSide fun _ ho => Option.some.inj ho ▸ hside) rfl rfl
      cases decision with
      | own => exact hstill
      | drop => exact hstill
      | forward addr e => exact hstill.silent (sends_transmit hstill.linked addr _)

theorem sends_handleMessage (h : a.node.Linked peer served) (sender : PublicKey) (addr : Address)
    (m : DiscoveryMessage) : Sends x peer served [] a (a.handleMessage x sender addr m) := by
  have hchild : Sends x peer served [] a (a.withNode { a.node with
      childSide := (a.node.childSide.receive x.now sender m addr).2 }) :=
    .still (h.withChildSide (ChildSide.streamless_receive h.childSide x.now sender m addr)) rfl rfl
  cases m with
  | application payload =>
    have hseen : Sends x peer served [] a (a.withNode { a.node with
        childSide := a.node.childSide.applicationSeen x.now sender }) := .still (h.withChildSide h.childSide) rfl rfl
    exact hseen.silent (sends_tell hseen.linked (streamless_singleton.2 rfl))
  | hello time childrenTime =>
    simp only [handleMessage]
    split
    · exact hchild
    · refine .still (h.withSuperPeerSide ?_) rfl rfl
      intro s' hs'
      obtain ⟨s, hs, rfl⟩ := Option.map_eq_some_iff.1 hs'
      exact SuperPeerSide.streamless_greeted (h.superPeerSide s hs) x.now sender time childrenTime addr
  | acknowledgement time => exact hchild
  | unite p at' => exact hchild

theorem sends_receive (h : a.node.Linked peer served) (data : Bytes) (sender : Address) :
    Sends x peer served (a.receiveSendings x data) a (a.receive x data sender) := by
  unfold receive receiveSendings
  cases Envelope.decode data with
  | error err => exact .refl h
  | ok e =>
    simp only [handleEnvelope]
    split
    · exact .refl h
    split
    · exact sends_relay h e
    have hopen := sends_withEngine (x := x) h (.disarmInbound e.sender e.armed)
      (fun S now n r => n.disarmInbound S now e.sender e.armed r) rfl
    cases hr : a.withEngine x fun S now n r => n.disarmInbound S now e.sender e.armed r with
    | mk result a₁ =>
      rw [hr] at hopen
      cases result with
      | error err => exact hopen
      | ok opened =>
        cases opened with
        | consumed => exact hopen
        | application payload =>
          simp only
          cases DiscoveryMessage.decode payload with
          | error err => exact hopen
          | ok m => exact hopen.silent (sends_handleMessage hopen.linked e.sender sender m)

/-! ### Stimuli -/

theorem sends_heartbeat (h : a.node.Linked peer served) : Sends x peer served [] a (a.heartbeat x) := by
  have hsweep := Operation.course x.suite x.now (w := ⟨a.node.engine, a.entropy, []⟩) h.sound .evictIdleSessions
  have hbeat : Sends x peer served [] a (a.withNode { a.node with
      childSide := a.node.childSide.heartbeat x.now
      superPeerSide := a.node.superPeerSide.map fun s => (s.checkStale x.now).2
      engine := (a.node.engine.evictIdleSessions x.now).2 }) := by
    refine .still ?_ rfl rfl
    have hchild := h.withChildSide (ChildSide.streamless_heartbeat h.childSide x.now)
    refine (hchild.withSuperPeerSide ?_).withEngine (hsweep.sound h.sound) (hsweep.streamless h.engine)
    intro s' hs'
    obtain ⟨s, hs, rfl⟩ := Option.map_eq_some_iff.1 hs'
    exact SuperPeerSide.streamless_checkStale (h.superPeerSide s hs) x.now
  exact hbeat.silent (sends_checkLink hbeat.linked)

theorem sends_handle (h : a.node.Linked peer served) (s : Stimulus) :
    Sends x peer served (a.handleSendings x s) a (a.handle x s).2 := by
  cases s with
  | heartbeat => exact sends_heartbeat h
  | send p payload => exact sends_sendApplication h p payload
  | datagram data sender =>
    have hheard := sends_heardFrom (x := x) h sender
    exact hheard.silent (sends_receive hheard.linked data sender)
  | frame data sender => exact sends_receive h data sender

/-! ### Working off the queues -/

theorem sends_sendOutgoing (h : a.node.Linked peer served) (m : Outgoing) :
    Sends x peer served (a.outgoingSendings x m) a (a.sendOutgoing x m) := by
  have hroute := sends_route (x := x) h m.peer
  unfold sendOutgoing outgoingSendings
  cases hr : a.route x m.peer with
  | mk addr a₁ =>
    rw [hr] at hroute
    cases addr with
    | none => exact hroute
    | some addr => exact hroute.silent (sends_transmit hroute.linked addr _)

theorem sends_emptied (h : a.node.Linked peer served) : Sends x peer served [] a a.emptied := by
  have hdrained : Sends x peer served [] a (a.withNode (drained a.node)) := by
    refine .still ?_ rfl rfl
    have hchild := h.withChildSide (c := a.node.childSide.drainOutbox.2.drainEvents.2) streamless_nil
    refine (hchild.withSuperPeerSide ?_).withEngine h.sound streamless_nil
    intro s' hs'
    obtain ⟨s, -, rfl⟩ := Option.map_eq_some_iff.1 hs'
    exact streamless_nil
  refine hdrained.silent (sends_tell hdrained.linked ?_)
  refine streamless_append.2 ⟨streamless_append.2 ⟨h.engine, h.childSide⟩, ?_⟩
  cases hs : a.node.superPeerSide with
  | none => exact streamless_nil
  | some s => exact h.superPeerSide s hs

theorem sends_flushRound (h : a.node.Linked peer served) :
    Sends x peer served (a.roundSendings x) a (a.flushRound x).2 := by
  have hjobs : Sends x peer served [] a (a.afterJobs x) := sends_withEngine h .runDeferred _ rfl
  have hemptied := hjobs.silent (sends_emptied hjobs.linked)
  have hposted := hemptied.silent (sends_inTurn (fun a m h => sends_sendMessage h m.recipient m.message m.addr)
    (a.afterJobs x).posted hemptied.linked)
  rw [flushRound_snd]
  exact hposted.trans (sends_inTurn (fun a m h => sends_sendOutgoing h m) (a.roundHandshakes x) hposted.linked)

theorem sends_flushRounds (rounds : Nat) (h : a.node.Linked peer served) :
    Sends x peer served (a.roundsSendings x rounds) a (flushRounds x rounds a) := by
  induction rounds generalizing a with
  | zero => exact .refl h
  | succ rounds ih =>
    have hround := sends_flushRound (x := x) h
    unfold flushRounds roundsSendings
    cases hr : a.flushRound x with
    | mk quiet a₁ =>
      rw [hr] at hround
      cases quiet with
      | true =>
        rw [List.append_nil]
        exact hround
      | false => exact hround.trans (ih hround.linked)

/-- **The messages of a step account for all that it sends**, and each meets a node whose fallback and link agree. -/
theorem sends_step {n : Node} (h : n.Linked peer served) (s : Stimulus) (r : Entropy) :
    Sends x peer served (n.sendings x s r) { node := n, entropy := r } (n.step x s r).2 := by
  simp only [Node.step, Node.sendings]
  split
  · have hhandle := sends_handle (x := x) (a := { node := n, entropy := r }) h s
    cases hr : ({ node := n, entropy := r } : Activity).handle x s with
    | mk result a =>
      rw [hr] at hhandle
      exact hhandle.trans (sends_flushRounds maxRounds hhandle.linked)
  · exact .refl h

end Activity

/-! ### Runs -/

theorem Node.linked_start {identity : KeyPair} {config : NodeConfig} {n : Node} {peer : PublicKey} {served : Address}
    (hstart : Node.start identity config = .ok n) (henabled : config.fallback.enabled = true)
    (hone : config.discovery.superPeers.entries = [(peer, served)]) (hserver : config.fallback.serverAddress = none) :
    n.Linked peer served ∧ n.link = none := by
  unfold Node.start NodeConfig.validate at hstart
  cases hf : config.fault? with
  | some fault =>
    rw [hf] at hstart
    cases hstart
  | none =>
    have hstream : config.fallback.superPeerAddress.isSome = true := by
      cases hs : config.fallback.superPeerAddress with
      | some addr => rfl
      | none =>
        unfold NodeConfig.fault? at hf
        rw [henabled, hs] at hf
        split at hf
        · cases hf
        · split at hf
          · cases hf
          · split at hf <;> cases hf
    rw [hf] at hstart
    cases hstart
    refine ⟨⟨hone, hstream, ?_, rfl, ⟨_, if_pos henabled, ?_, rfl⟩, Cache.sound_empty _ _ _, streamless_nil,
      streamless_nil, ?_⟩, rfl⟩
    · rw [servesStreams, hserver, Option.isSome_none, Bool.and_false]
    · show config.discovery.superPeers.entries.map (·.2) = [served]
      rw [hone]
      rfl
    · intro s hs
      have hside : (if config.superPeerMode then some (SuperPeerSide.start identity.publicKey config.discovery)
        else none) = some s := hs
      split at hside
      · cases hside
        exact streamless_nil
      · cases hside

namespace Life

open Activity

variable {peer : PublicKey} {served : Address} {w : Life}

def deeds (w : Life) : Happening → List Action
  | .stimulus x s => (w.node.step x s w.entropy).2.actions
  | .linkEnded | .clientJoined _ | .clientLeft _ | .stop => []

def log (w : Life) : List Happening → List Action
  | [] => []
  | h :: rest => w.deeds h ++ (w.meet h).log rest

/-- Whatever happens to a node but that it stops, fallback and link agree, and what is told is what has become of the
link. -/
theorem linked_meet (h : w.node.Linked peer served) {o : Happening} (ho : o ≠ .stop) :
    (w.meet o).node.Linked peer served ∧
      Alternates w.node.link.isSome (streams (w.deeds o)) (w.meet o).node.link.isSome := by
  cases o with
  | stimulus x s =>
    have hstep := sends_step (x := x) h s w.entropy
    obtain ⟨news, hactions, hturns, -⟩ := hstep.actions
    rw [List.nil_append] at hactions
    refine ⟨hstep.linked, ?_⟩
    simp only [deeds, hactions]
    exact hturns
  | linkEnded =>
    obtain ⟨f, hf, haddrs, hactive⟩ := h.fallback
    have hsome : w.node.linkEnded.link.isSome = w.node.link.isSome := Option.isSome_map
    exact ⟨⟨h.superPeers, h.stream, h.server, h.clients, ⟨f, hf, haddrs, hactive.trans hsome.symm⟩, h.sound, h.engine,
      h.childSide, h.superPeerSide⟩, hsome.symm⟩
  | clientJoined addr =>
    have hsame : w.node.clientJoined addr = w.node := by
      rw [Node.clientJoined, h.server, Bool.and_false, if_neg Bool.false_ne_true]
    simp only [meet, hsame]
    exact ⟨h, rfl⟩
  | clientLeft addr =>
    have hsame : w.node.clients.erase addr = [] := by rw [h.clients, List.erase_nil]
    exact ⟨⟨h.superPeers, h.stream, h.server, hsame, h.fallback, h.sound, h.engine, h.childSide, h.superPeerSide⟩, rfl⟩
  | stop => exact absurd rfl ho

theorem linked_run (h : w.node.Linked peer served) {happenings : List Happening} (ho : .stop ∉ happenings) :
    (w.run happenings).node.Linked peer served ∧
      Alternates w.node.link.isSome (streams (w.log happenings)) (w.run happenings).node.link.isSome := by
  induction happenings generalizing w with
  | nil => exact ⟨h, rfl⟩
  | cons o rest ih =>
    rw [List.mem_cons, not_or] at ho
    obtain ⟨hmeet, hturns⟩ := linked_meet h (Ne.symm ho.1)
    obtain ⟨hrun, hturns'⟩ := ih hmeet ho.2
    refine ⟨hrun, ?_⟩
    rw [log, streams_append]
    exact hturns.append hturns'

/-- **The fallback and the link of a node agree.**  In every run of a node that has one super peer and may fall back to a
stream connection to it, whatever happens but that it stops, and whatever the clock says: the fallback is active exactly
while there is a link; what the application is told of it alternates, and the first is that it has come; the messages
of each step account for all datagrams and all frames on the link that the step sends; and each of them that is for the
super peer's address takes the link if there is one that lives, or if one is due to be opened, and goes as a datagram
otherwise.  It is sent exactly once, unless it cannot be, which is returned as an error. -/
theorem link_consistent (identity : KeyPair) (config : NodeConfig) (n : Node) (r : Entropy) (peer : PublicKey)
    (served : Address) (happenings : List Happening) (hstart : Node.start identity config = .ok n)
    (henabled : config.fallback.enabled = true) (hone : config.discovery.superPeers.entries = [(peer, served)])
    (hserver : config.fallback.serverAddress = none) (hstop : .stop ∉ happenings) :
    let w := run ⟨n, r, []⟩ happenings
    (∃ f, w.node.fallback = some f ∧ (f.active = true ↔ w.node.link.isSome = true)) ∧
      (false :: streams (log ⟨n, r, []⟩ happenings)).IsChain (· ≠ ·) ∧
      ∀ (x : Surroundings) (s : Stimulus),
        sent (w.node.step x s w.entropy).2.actions = (w.node.sendings x s w.entropy).flatMap (·.sent x) ∧
        ∀ k ∈ w.node.sendings x s w.entropy,
          (k.addr = served → k.Proper x) ∧
          (k.addr ≠ served → k.sent x = (x.byDatagram k.addr k.data).toOption.toList) := by
  obtain ⟨hlinked, hnone⟩ := Node.linked_start hstart henabled hone hserver
  obtain ⟨hrun, hturns⟩ := linked_run (w := ⟨n, r, []⟩) hlinked hstop
  obtain ⟨f, hf, -, hactive⟩ := hrun.fallback
  have hfrom : (⟨n, r, []⟩ : Life).node.link.isSome = false := by rw [hnone, Option.isSome_none]
  refine ⟨⟨f, hf, by rw [hactive]⟩, (hfrom ▸ hturns).isChain, ?_⟩
  intro x s
  have hstep := sends_step (x := x) hrun s (run ⟨n, r, []⟩ happenings).entropy
  obtain ⟨news, hactions, -, hsent⟩ := hstep.actions
  rw [List.nil_append] at hactions
  refine ⟨by rw [hactions, hsent], ?_⟩
  intro k hk
  have hbefore := hstep.before k hk
  obtain ⟨a, addr, data⟩ := k
  refine ⟨?_, ?_⟩
  · rintro rfl
    exact proper_transmit hbefore data
  · intro hother
    have hout := transmit_eq (x := x) hbefore addr data
    rw [if_neg hother] at hout
    exact (sent_attempt (carrying_byDatagram x addr data) hbefore (.refl hbefore) hout).1

/-- A child that may fall back to a stream connection. -/
def sheltered : NodeConfig := { traveller with fallback := { enabled := true, superPeerAddress := some (site 9) } }

/-- The super peer is silent, so a link is opened; it ends, is opened again, and is closed once a datagram comes. -/
def outage : List Happening := [
  .stimulus (clock 1000) .heartbeat,
  .stimulus (clock 16001) .heartbeat,
  .linkEnded,
  .stimulus (clock 20000) .heartbeat,
  .stimulus (clock 31002) .heartbeat,
  .stimulus (clock 31003) (.datagram [] (site 1))]

/-- In an outage, the application is told twice that the link has come, and twice that it has gone; the next greeting
takes the right way. -/
theorem link_consistent_outage : ∃ n, Node.start (Textbook.suite.keyPair ⟨Textbook.remainder 5⟩) sheltered = .ok n ∧
    let w := run ⟨n, Textbook.counting 11, []⟩ outage
    streams (log ⟨n, Textbook.counting 11, []⟩ outage) = [true, false, true, false] ∧
      (∃ f, w.node.fallback = some f ∧ (f.active = true ↔ w.node.link.isSome = true)) ∧
      (w.node.sendings (clock 32000) .heartbeat w.entropy).map (·.addr) = [site 1] ∧
      ∀ k ∈ w.node.sendings (clock 32000) .heartbeat w.entropy, k.addr = site 1 → k.Proper (clock 32000) := by
  have hlife : (Node.start (Textbook.suite.keyPair ⟨Textbook.remainder 5⟩) sheltered).toOption.any fun n =>
      let w := run ⟨n, Textbook.counting 11, []⟩ outage
      streams (log ⟨n, Textbook.counting 11, []⟩ outage) = [true, false, true, false] ∧
        (w.node.sendings (clock 32000) .heartbeat w.entropy).map (·.addr) = [site 1] := by decide +kernel
  obtain ⟨n, hn, hlife⟩ := (Option.any_eq_true _ _).1 hlife
  obtain ⟨htold, haddrs⟩ := of_decide_eq_true hlife
  have hstart := ok_of_mem (Option.mem_toList.2 hn)
  have hagree := link_consistent _ sheltered n (Textbook.counting 11) (textbookKey 17) (site 1) outage hstart rfl rfl rfl
    (by unfold outage; simp)
  exact ⟨n, hstart, htold, hagree.1, haddrs, fun k hk => ((hagree.2.2 _ _).2 k hk).1⟩

end Life

end Overlay
