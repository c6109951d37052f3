import Overlay.Proofs.Node.Streamless

/-!
# The link of a node

A node that may fall back to a stream connection to its one super peer decides in one place when to do so (its
`Fallback`), and holds the connection in another (its link).  The two agree (`Node.Linked`): the fallback is active
exactly while there is a link.  Whatever a node does keeps that, and tells the application each time a link comes or
goes, so that what it tells alternates (`Alternates`).

A message for an address is a `Sending`.  One for the super peer takes the link if that lives, or if a new one is due,
and goes as a datagram otherwise; exactly one of both is done, unless an error is returned (`Sending.Proper`).
`Sends` is what is known of any part of a step: the messages that are sent in it, one after the other, account for all
datagrams and all frames on the link.
-/

namespace Overlay

/-! ### Comings and goings -/

/-- What an action tells of streams. -/
def Action.stream? : Action → Option Bool
  | .tell event => event.stream?
  | _ => none

/-- The streams that some actions tell to have come or gone, in order. -/
def streams (actions : List Action) : List Bool := actions.filterMap Action.stream?

/-- Each of some changes is one, from the first state to the last one. -/
def Alternates : Bool → List Bool → Bool → Prop
  | state, [], last => state = last
  | state, next :: changes, last => state ≠ next ∧ Alternates next changes last

theorem Alternates.append {state middle last : Bool} {changes more : List Bool} (h : Alternates state changes middle)
    (h' : Alternates middle more last) : Alternates state (changes ++ more) last := by
  induction changes generalizing state with
  | nil =>
    obtain rfl : state = middle := h
    exact h'
  | cons next changes ih => exact ⟨h.1, ih h.2⟩

theorem Alternates.isChain {state last : Bool} {changes : List Bool} (h : Alternates state changes last) :
    (state :: changes).IsChain (· ≠ ·) := by
  induction changes generalizing state with
  | nil => exact List.isChain_singleton state
  | cons next changes ih => exact List.isChain_cons_cons.2 ⟨h.1, ih h.2⟩

theorem streams_append (actions more : List Action) : streams (actions ++ more) = streams actions ++ streams more :=
  List.filterMap_append

theorem streams_tell {events : List Event} (h : Streamless events) : streams (events.map .tell) = [] := by
  refine List.filterMap_eq_nil_iff.2 fun action haction => ?_
  obtain ⟨event, hevent, rfl⟩ := List.mem_map.1 haction
  exact h event hevent

/-! ### Messages on their way -/

/-- Whether an action puts a message on its way, as a datagram or over the link. -/
def Action.isSent : Action → Bool
  | .datagram _ _ | .writeLink _ => true
  | _ => false

def sent (actions : List Action) : List Action := actions.filter Action.isSent

theorem sent_append (actions more : List Action) : sent (actions ++ more) = sent actions ++ sent more :=
  List.filter_append actions more

theorem sent_tell (events : List Event) : sent (events.map .tell) = [] := by
  refine List.filter_eq_nil_iff.2 fun action haction => ?_
  obtain ⟨event, -, rfl⟩ := List.mem_map.1 haction
  exact Bool.false_ne_true

def Surroundings.byLink (x : Surroundings) (data : Bytes) : Except TransportError Action :=
  match Frame.encode data with
  | .ok frame => if x.room none frame then .ok (.writeLink frame) else .error .closed
  | .error e => .error e

def Surroundings.byDatagram (x : Surroundings) (addr : Address) (data : Bytes) : Except TransportError Action :=
  (x.transport addr data).map fun _ => .datagram addr data

def Node.linkLives (n : Node) : Bool := n.link.any fun l => !l.ended

def Node.linkDue (n : Node) (now : Nat) : Bool := n.fallback.any fun f => (f.connectionClosed.onSend now).1

/-- A message for an address, with what the node has done before. -/
structure Sending where
  before : Activity
  addr : Address
  data : Bytes

namespace Sending

def outcome (x : Surroundings) (k : Sending) : Except TransportError Unit × Activity :=
  k.before.transmit x k.addr k.data

def sent (x : Surroundings) (k : Sending) : List Action :=
  Overlay.sent ((k.outcome x).2.actions.drop k.before.actions.length)

/-- A message for a super peer took the right way.  A link that lives is kept; without one, a new one is opened if that
is due.  If there is a link then, the message takes it, else it goes as a datagram; it was sent exactly once if no error
is returned, and not at all otherwise. -/
structure Proper (x : Surroundings) (k : Sending) : Prop where
  kept : k.before.node.linkLives = true → (k.outcome x).2.node.link = k.before.node.link
  opened : k.before.node.linkLives = false →
    (k.outcome x).2.node.link.isSome = k.before.node.linkDue x.now
  lives : ∀ l, (k.outcome x).2.node.link = some l → l.ended = false
  sent : ∀ way, way = (if (k.outcome x).2.node.link.isSome then x.byLink k.data else x.byDatagram k.addr k.data) →
    (k.outcome x).1 = way.map (fun _ => ()) ∧ k.sent x = way.toOption.toList

end Sending

/-! ### Agreement -/

/-- A node that may fall back to a stream connection to its one super peer, and takes no such connections itself, is
sound: its fallback is active exactly while it has a link, and nothing that waits to be told is about streams. -/
structure Node.Linked (peer : PublicKey) (served : Address) (n : Node) : Prop where
  superPeers : n.config.discovery.superPeers.entries = [(peer, served)]
  stream : n.config.fallback.superPeerAddress.isSome = true
  server : n.servesStreams = false
  clients : n.clients = []
  fallback : ∃ f, n.fallback = some f ∧ f.superPeerAddrs = [served] ∧ f.active = n.link.isSome
  sound : n.engine.sessions.Sound
  engine : Streamless n.engine.events
  childSide : Streamless n.childSide.events
  superPeerSide : ∀ s, n.superPeerSide = some s → Streamless s.events

variable {peer : PublicKey} {served addr : Address} {x : Surroundings} {n : Node}

theorem Node.Linked.withChildSide (h : n.Linked peer served) {c : ChildSide} (hc : Streamless c.events) :
    Node.Linked peer served { n with childSide := c } :=
  ⟨h.superPeers, h.stream, h.server, h.clients, h.fallback, h.sound, h.engine, hc, h.superPeerSide⟩

theorem Node.Linked.withSuperPeerSide (h : n.Linked peer served) {o : Option SuperPeerSide}
    (ho : ∀ s, o = some s → Streamless s.events) : Node.Linked peer served { n with superPeerSide := o } :=
  ⟨h.superPeers, h.stream, h.server, h.clients, h.fallback, h.sound, h.engine, h.childSide, ho⟩

theorem Node.Linked.withEngine (h : n.Linked peer served) {e : Engine} (hsound : e.sessions.Sound)
    (he : Streamless e.events) : Node.Linked peer served { n with engine := e } :=
  ⟨h.superPeers, h.stream, h.server, h.clients, h.fallback, hsound, he, h.childSide, h.superPeerSide⟩

theorem Node.Linked.relinked (h : n.Linked peer served) {f : Fallback} {l : Option Link}
    (hf : f.superPeerAddrs = [served]) (hl : f.active = l.isSome) :
    Node.Linked peer served { n with fallback := some f, link := l } :=
  ⟨h.superPeers, h.stream, h.server, h.clients, ⟨f, rfl, hf, hl⟩, h.sound, h.engine, h.childSide, h.superPeerSide⟩

theorem Node.Linked.mayFallBackAt (h : n.Linked peer served) (addr : Address) :
    n.mayFallBackAt addr = decide (addr = served) := by
  obtain ⟨f, hf, haddrs, -⟩ := h.fallback
  rw [Node.mayFallBackAt, hf, Option.any_some, Fallback.isSuperPeer, haddrs]
  simp

namespace Activity

variable {a a' a'' : Activity} {ks ks' : List Sending}

/-- Between two states of an activity, some messages were sent: a node that was sound still is, what it told of streams
is what has become of the link, and the messages account for all that was sent. -/
structure Sends (x : Surroundings) (peer : PublicKey) (served : Address) (ks : List Sending) (a a' : Activity) :
    Prop where
  linked : a'.node.Linked peer served
  before : ∀ k ∈ ks, k.before.node.Linked peer served
  actions : ∃ news, a'.actions = a.actions ++ news ∧
    Alternates a.node.link.isSome (streams news) a'.node.link.isSome ∧ Overlay.sent news = ks.flatMap (·.sent x)

theorem Sends.trans (h : Sends x peer served ks a a') (h' : Sends x peer served ks' a' a'') :
    Sends x peer served (ks ++ ks') a a'' := by
  obtain ⟨news, hactions, hturns, hsent⟩ := h.actions
  obtain ⟨news', hactions', hturns', hsent'⟩ := h'.actions
  refine ⟨h'.linked, ?_, news ++ news', by rw [hactions', hactions, List.append_assoc], ?_, ?_⟩
  · intro k hk
    exact (List.mem_append.1 hk).elim (h.before k) (h'.before k)
  · rw [streams_append]
    exact hturns.append hturns'
  · rw [sent_append, hsent, hsent', List.flatMap_append]

theorem Sends.still (h : a'.node.Linked peer served) (hlink : a'.node.link.isSome = a.node.link.isSome)
    (hactions : a'.actions = a.actions) : Sends x peer served [] a a' :=
  ⟨h, fun _ hk => absurd hk List.not_mem_nil, [], by rw [hactions, List.append_nil], hlink.symm, rfl⟩

theorem Sends.refl (h : a.node.Linked peer served) : Sends x peer served [] a a := .still h rfl rfl

theorem sends_tell (h : a.node.Linked peer served) {events : List Event} (hevents : Streamless events) :
    Sends x peer served [] a (a.tell events) :=
  ⟨h, fun _ hk => absurd hk List.not_mem_nil, events.map .tell, rfl, by rw [streams_tell hevents]; rfl,
    sent_tell events⟩

theorem sends_withEngine {α : Type} (h : a.node.Linked peer served) (op : Operation)
    (work : Suite → Nat → Engine → Entropy → α × Engine × Entropy)
    (hwork : (work x.suite x.now a.node.engine a.entropy).2.1 =
      (op.perform x.suite x.now ⟨a.node.engine, a.entropy, []⟩).engine) :
    Sends x peer served [] a (a.withEngine x work).2 := by
  have hcourse := op.course x.suite x.now (w := ⟨a.node.engine, a.entropy, []⟩) h.sound
  refine .still (h.withEngine ?_ ?_) rfl rfl
  · rw [hwork]
    exact hcourse.sound h.sound
  · rw [hwork]
    exact hcourse.streamless h.engine

/-! ### Closing and opening the link -/

/-- Closing the link tells the application, as there is one super peer. -/
theorem closeLink_eq (h : a.node.config.discovery.superPeers.entries = [(peer, served)]) {l : Link}
    (hl : a.node.link = some l) : a.closeLink =
      { a with
        node := { a.node with link := none }
        actions := a.actions ++ [.closeLink, .tell (.pathRemoved peer .tcpFallback)] } := by
  simp [closeLink, hl, Table.keys, h, withNode, act, tell]

theorem openLink_eq (h : a.node.config.discovery.superPeers.entries = [(peer, served)])
    (hs : a.node.config.fallback.superPeerAddress = some addr) : a.openLink served =
      { a with
        node := { a.node with link := some { addr := addr } }
        actions := a.actions ++ [.openLink addr, .tell (.pathAdded peer addr .tcpFallback)] } := by
  simp [openLink, hs, DiscoveryConfig.superPeerAt?, h, withNode, act, tell]

/-- Where there is no link that lives, looking after the link leaves none, and the fallback idle. -/
theorem checkLink_dead (h : a.node.Linked peer served) (hdead : a.node.linkLives = false) :
    Sends x peer served [] a a.checkLink ∧ a.checkLink.node.link = none ∧
      a.checkLink.node.fallback = a.node.fallback.map (·.connectionClosed) := by
  obtain ⟨f, hf, haddrs, hactive⟩ := h.fallback
  cases hl : a.node.link with
  | none =>
    have hcheck : a.checkLink = a := by simp [checkLink, hl]
    rw [hl, Option.isSome_none] at hactive
    rw [hcheck]
    refine ⟨.refl h, hl, ?_⟩
    rw [hf, Option.map_some, Fallback.connectionClosed, ← hactive]
  | some l =>
    rw [Node.linkLives, hl, Option.any_some, Bool.not_eq_false'] at hdead
    have hcheck : a.checkLink =
        { a with
          node := { a.node with link := none, fallback := some f.connectionClosed }
          actions := a.actions ++ [.closeLink, .tell (.pathRemoved peer .tcpFallback)] } := by
      simp [checkLink, hl, hdead, closeLink_eq h.superPeers hl, withNode, hf]
    rw [hcheck]
    refine ⟨⟨h.relinked haddrs rfl, fun _ hk => absurd hk List.not_mem_nil, _, rfl, ?_, rfl⟩, rfl, ?_⟩
    · rw [hl]
      exact ⟨nofun, rfl⟩
    · rw [hf, Option.map_some]

theorem checkLink_live (hlive : a.node.linkLives = true) : a.checkLink = a := by
  obtain ⟨l, hl, hended⟩ := (Option.any_eq_true _ _).1 hlive
  rw [Bool.not_eq_true'] at hended
  simp [checkLink, hl, hended]

theorem sends_checkLink (h : a.node.Linked peer served) : Sends x peer served [] a a.checkLink := by
  cases hlive : a.node.linkLives with
  | true =>
    rw [checkLink_live hlive]
    exact .refl h
  | false => exact (checkLink_dead h hlive).1

theorem sends_heardFrom (h : a.node.Linked peer served) (sender : Address) :
    Sends x peer served [] a (a.heardFrom sender) := by
  obtain ⟨f, hf, haddrs, hactive⟩ := h.fallback
  simp only [heardFrom, hf]
  cases hheard : f.onInbound sender with
  | mk done f' =>
    have hnext : f'.superPeerAddrs = [served] ∧
        (done = false ∧ f'.active = f.active ∨ done = true ∧ f.active = true ∧ f'.active = false) := by
      unfold Fallback.onInbound at hheard
      split at hheard
      · obtain ⟨rfl, rfl⟩ := Prod.mk.inj hheard
        refine ⟨haddrs, ?_⟩
        cases f.active with
        | false => exact Or.inl ⟨rfl, rfl⟩
        | true => exact Or.inr ⟨rfl, rfl, rfl⟩
      · obtain ⟨rfl, rfl⟩ := Prod.mk.inj hheard
        exact ⟨haddrs, Or.inl ⟨rfl, rfl⟩⟩
    obtain ⟨haddrs', ⟨rfl, hsame⟩ | ⟨rfl, hopen, hclosed⟩⟩ := hnext
    · exact .still (h.relinked haddrs' (hsame.trans hactive)) rfl rfl
    · rw [hopen] at hactive
      obtain ⟨l, hl⟩ := Option.isSome_iff_exists.1 hactive.symm
      have hclose : (a.withNode { a.node with fallback := some f' }).closeLink = _ := closeLink_eq h.superPeers hl
      simp only [if_true, hclose]
      refine ⟨h.relinked haddrs' hclosed, fun _ hk => absurd hk List.not_mem_nil, _, rfl, ?_, rfl⟩
      rw [hl]
      exact ⟨nofun, rfl⟩

/-! ### Sending -/

theorem prepareLink_closed {f : Fallback} (hnone : a.checkLink.node.link = none)
    (hf : a.checkLink.node.fallback = some f) : a.prepareLink x served =
      let b := a.checkLink.withNode { a.checkLink.node with fallback := some (f.onSend x.now).2 }
      if (f.onSend x.now).1 then b.openLink served else b := by
  unfold prepareLink
  generalize a.checkLink = b at hnone hf ⊢
  simp only
  split
  · rename_i f' _ hf'
    obtain rfl := Option.some.inj (hf'.symm.trans hf)
    rfl
  · rename_i hno
    exact absurd hf (hno f hnone)

/-- An attempt makes the fallback active, and nothing else does. -/
theorem active_onSend {f : Fallback} (hidle : f.active = false) (now : Nat) :
    (f.onSend now).2.superPeerAddrs = f.superPeerAddrs ∧ (f.onSend now).2.active = (f.onSend now).1 := by
  unfold Fallback.onSend
  rw [hidle, if_neg Bool.false_ne_true]
  generalize (if f.silentSince = 0 then now else f.silentSince) = since
  simp only
  split <;> exact ⟨rfl, rfl⟩

theorem sends_prepareLink_dead (h : a.node.Linked peer served) (hdead : a.node.linkLives = false) :
    Sends x peer served [] a (a.prepareLink x served) ∧
      (a.prepareLink x served).node.link.isSome = a.node.linkDue x.now ∧
      ∀ l, (a.prepareLink x served).node.link = some l → l.ended = false := by
  obtain ⟨hcheck, hnone, hclosed⟩ := checkLink_dead (x := x) h hdead
  obtain ⟨f, hf, haddrs, -⟩ := h.fallback
  obtain ⟨addr, hstream⟩ := Option.isSome_iff_exists.1 hcheck.linked.stream
  have hdue : a.node.linkDue x.now = (f.connectionClosed.onSend x.now).1 := by rw [Node.linkDue, hf, Option.any_some]
  obtain ⟨haddrs', hactive⟩ := active_onSend (f := f.connectionClosed) rfl x.now
  rw [hf, Option.map_some] at hclosed
  rw [hdue, prepareLink_closed hnone hclosed]
  simp only
  cases hsend : (f.connectionClosed.onSend x.now).1 with
  | false =>
    rw [hsend] at hactive
    simp only [Bool.false_eq_true, if_false]
    refine ⟨hcheck.trans (.still ?_ rfl rfl), ?_, ?_⟩
    · exact hcheck.linked.relinked (haddrs'.trans haddrs) (hactive.trans (by rw [hnone, Option.isSome_none]))
    · show a.checkLink.node.link.isSome = false
      rw [hnone, Option.isSome_none]
    · intro l hl
      cases hnone.symm.trans hl
  | true =>
    rw [hsend] at hactive
    have hopen : (a.checkLink.withNode { a.checkLink.node with
        fallback := some (f.connectionClosed.onSend x.now).2 }).openLink served = _ :=
      openLink_eq hcheck.linked.superPeers hstream
    rw [if_pos rfl, hopen]
    refine ⟨hcheck.trans ⟨hcheck.linked.relinked (haddrs'.trans haddrs) hactive,
      fun _ hk => absurd hk List.not_mem_nil, _, rfl, ?_, rfl⟩, rfl, ?_⟩
    · rw [hnone]
      exact ⟨nofun, rfl⟩
    · rintro l ⟨⟩
      rfl

theorem prepareLink_live (hlive : a.node.linkLives = true) : a.prepareLink x served = a := by
  obtain ⟨l, hl, -⟩ := (Option.any_eq_true _ _).1 hlive
  simp only [prepareLink, checkLink_live hlive, hl]

def attempt (way : Except TransportError Action) (a : Activity) : Except TransportError Unit × Activity :=
  match way with
  | .ok action => (.ok (), a.act action)
  | .error e => (.error e, a)

theorem sendFrame_link (x : Surroundings) (data : Bytes) (a : Activity) :
    a.sendFrame x none data = a.attempt (x.byLink data) := by
  unfold sendFrame attempt Surroundings.byLink
  cases Frame.encode data with
  | error e => rfl
  | ok frame =>
    simp only
    split <;> rfl

theorem sendDatagram_eq (x : Surroundings) (addr : Address) (data : Bytes) (a : Activity) :
    a.sendDatagram x addr data = a.attempt (x.byDatagram addr data) := by
  unfold sendDatagram attempt Surroundings.byDatagram
  cases x.transport addr data <;> rfl

/-- A message takes the link, if it is for the super peer and the link is ready, or else goes as a datagram. -/
theorem transmit_eq (h : a.node.Linked peer served) (addr : Address) (data : Bytes) : a.transmit x addr data =
    if addr = served then
      (a.prepareLink x served).attempt
        (if (a.prepareLink x served).node.link.isSome then x.byLink data else x.byDatagram addr data)
    else a.attempt (x.byDatagram addr data) := by
  unfold transmit
  rw [h.clients, List.contains_nil, if_neg Bool.false_ne_true, h.mayFallBackAt]
  by_cases haddr : addr = served
  · subst haddr
    rw [decide_eq_true rfl, if_pos rfl, if_pos rfl]
    simp only
    split
    · rw [sendFrame_link]
    · rw [sendDatagram_eq]
  · rw [decide_eq_false haddr, if_neg Bool.false_ne_true, if_neg haddr, sendDatagram_eq]

theorem node_attempt (way : Except TransportError Action) (a : Activity) : (a.attempt way).2.node = a.node := by
  cases way <;> rfl

theorem fst_attempt (way : Except TransportError Action) (a : Activity) :
    (a.attempt way).1 = way.map fun _ => () := by
  cases way <;> rfl

theorem actions_attempt (way : Except TransportError Action) (a : Activity) :
    (a.attempt way).2.actions = a.actions ++ way.toOption.toList := by
  cases way with
  | ok action => rfl
  | error e => exact (List.append_nil _).symm

/-- What can be done for a message puts it on its way, and tells nothing. -/
def Carrying (way : Except TransportError Action) : Prop :=
  Overlay.sent way.toOption.toList = way.toOption.toList ∧ streams way.toOption.toList = []

theorem carrying_byLink (x : Surroundings) (data : Bytes) : Carrying (x.byLink data) := by
  unfold Surroundings.byLink
  cases Frame.encode data with
  | error e => exact ⟨rfl, rfl⟩
  | ok frame =>
    simp only
    split <;> exact ⟨rfl, rfl⟩

theorem carrying_byDatagram (x : Surroundings) (addr : Address) (data : Bytes) : Carrying (x.byDatagram addr data) := by
  unfold Surroundings.byDatagram
  cases x.transport addr data <;> exact ⟨rfl, rfl⟩

theorem sent_attempt {way : Except TransportError Action} (hway : Carrying way) {addr : Address} {data : Bytes}
    (h : a.node.Linked peer served) (hready : Sends x peer served [] a a')
    (hout : a.transmit x addr data = a'.attempt way) :
    (Sending.sent x ⟨a, addr, data⟩ = way.toOption.toList) ∧
      Sends x peer served [⟨a, addr, data⟩] a (a.transmit x addr data).2 := by
  obtain ⟨news, hactions, hturns, hsent⟩ := hready.actions
  have hlog : (a.transmit x addr data).2.actions = a.actions ++ (news ++ way.toOption.toList) := by
    rw [hout, actions_attempt, hactions, List.append_assoc]
  have hnode : (a.transmit x addr data).2.node = a'.node := by rw [hout, node_attempt]
  have hself : Sending.sent x ⟨a, addr, data⟩ = way.toOption.toList := by
    have hdrop : (a.transmit x addr data).2.actions.drop a.actions.length = news ++ way.toOption.toList := by
      rw [hlog, List.drop_left]
    show Overlay.sent ((a.transmit x addr data).2.actions.drop a.actions.length) = _
    rw [hdrop, sent_append, hsent, hway.1]
    rfl
  refine ⟨hself, hnode ▸ hready.linked, ?_, news ++ way.toOption.toList, hlog, ?_, ?_⟩
  · intro k hk
    rw [List.mem_singleton.1 hk]
    exact h
  · rw [hnode, streams_append, hway.2, List.append_nil]
    exact hturns
  · rw [sent_append, hsent, hway.1, List.flatMap_singleton, hself]
    rfl

theorem sends_prepareLink (h : a.node.Linked peer served) :
    Sends x peer served [] a (a.prepareLink x served) := by
  cases hlive : a.node.linkLives with
  | true =>
    rw [prepareLink_live hlive]
    exact .refl h
  | false => exact (sends_prepareLink_dead h hlive).1

theorem sends_transmit (h : a.node.Linked peer served) (addr : Address) (data : Bytes) :
    Sends x peer served [⟨a, addr, data⟩] a (a.transmit x addr data).2 := by
  have hout := transmit_eq (x := x) h addr data
  split at hout
  · refine (sent_attempt ?_ h (sends_prepareLink h) hout).2
    split
    · exact carrying_byLink x data
    · exact carrying_byDatagram x addr data
  · exact (sent_attempt (carrying_byDatagram x addr data) h (.refl h) hout).2

/-- **A message for the super peer takes the right way**, whatever the node has done before. -/
theorem proper_transmit (h : a.node.Linked peer served) (data : Bytes) :
    Sending.Proper x ⟨a, served, data⟩ := by
  have hout := transmit_eq (x := x) h served data
  rw [if_pos rfl] at hout
  have hnode : (a.transmit x served data).2.node = (a.prepareLink x served).node := by rw [hout, node_attempt]
  refine ⟨?_, ?_, ?_, ?_⟩
  · intro hlive
    show (a.transmit x served data).2.node.link = a.node.link
    rw [hnode, prepareLink_live hlive]
  · intro hdead
    show (a.transmit x served data).2.node.link.isSome = a.node.linkDue x.now
    rw [hnode]
    exact (sends_prepareLink_dead h hdead).2.1
  · intro l hl
    have hl' : (a.prepareLink x served).node.link = some l := hnode ▸ hl
    cases hlive : a.node.linkLives with
    | true =>
      obtain ⟨l', hl₀, hended⟩ := (Option.any_eq_true _ _).1 hlive
      rw [prepareLink_live hlive, hl₀] at hl'
      cases hl'
      rwa [Bool.not_eq_true'] at hended
    | false => exact (sends_prepareLink_dead h hlive).2.2 l hl'
  · rintro way rfl
    have hlink : (Sending.outcome x ⟨a, served, data⟩).2.node.link = (a.prepareLink x served).node.link :=
      congrArg Node.link hnode
    rw [hlink]
    refine ⟨?_, (sent_attempt ?_ h (sends_prepareLink h) hout).1⟩
    · show (a.transmit x served data).1 = _
      rw [hout, fst_attempt]
    · split
      · exact carrying_byLink x data
      · exact carrying_byDatagram x served data

end Activity

end Overlay
