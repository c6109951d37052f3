import Overlay.Node.Step

/-!
# What sending leaves alone

Whatever a node does, it goes on running, and takes back nothing of what it has done; what becomes of the child's side
meanwhile is said by a relation (`Activity.Carries`).  A node that sends something, or looks after its link, leaves both
sides of discovery alone (`Activity.Spares`), and once the message is armed it leaves the engine alone too
(`Activity.engine_transmit`).  So whatever becomes of a direct path while a node acts is done by the few operations that
change the child's side: the heartbeat, a message that was received, and a look-up of the way to a peer.
-/

namespace Overlay

namespace Activity

/-- Between two states of an activity, the child's side has changed as told and the super peer's side has not; the node
is running if it was, and what was done is still done. -/
structure Carries (R : ChildSide → ChildSide → Prop) (a a' : Activity) : Prop where
  childSide : R a.node.childSide a'.node.childSide
  superPeerSide : a'.node.superPeerSide = a.node.superPeerSide
  running : a'.node.running = a.node.running
  actions : a.actions <+: a'.actions

/-- Between two states of an activity, discovery was left alone. -/
abbrev Spares : Activity → Activity → Prop := Carries fun c c' => c' = c

variable {a a' a'' : Activity} {R R' R'' : ChildSide → ChildSide → Prop}

theorem Carries.trans (hR : ∀ c c' c'', R c c' → R' c' c'' → R'' c c'') (h : Carries R a a')
    (h' : Carries R' a' a'') : Carries R'' a a'' :=
  ⟨hR _ _ _ h.childSide h'.childSide, h'.superPeerSide.trans h.superPeerSide, h'.running.trans h.running,
    h.actions.trans h'.actions⟩

theorem Carries.mono (hR : ∀ c c', R c c' → R' c c') (h : Carries R a a') : Carries R' a a' :=
  ⟨hR _ _ h.childSide, h.superPeerSide, h.running, h.actions⟩

theorem Spares.refl (a : Activity) : a.Spares a := ⟨rfl, rfl, rfl, List.prefix_rfl⟩

theorem Spares.trans (h : a.Spares a') (h' : a'.Spares a'') : a.Spares a'' :=
  Carries.trans (fun _ _ _ hc hc' => hc'.trans hc) h h'

theorem Carries.spares (h : Carries R a a') (h' : a'.Spares a'') : Carries R a a'' := by
  refine Carries.trans ?_ h h'
  rintro c c' c'' hc rfl
  exact hc

theorem Spares.carries (h : a.Spares a') (h' : Carries R a' a'') : Carries R a a'' := by
  refine Carries.trans ?_ h h'
  rintro c c' c'' rfl hc
  exact hc

theorem spares_act (a : Activity) (action : Action) : a.Spares (a.act action) :=
  ⟨rfl, rfl, rfl, List.prefix_append _ _⟩

theorem spares_tell (a : Activity) (events : List Event) : a.Spares (a.tell events) :=
  ⟨rfl, rfl, rfl, List.prefix_append _ _⟩

theorem spares_withEngine {α : Type} (x : Surroundings) (work : Suite → Nat → Engine → Entropy → α × Engine × Entropy)
    (a : Activity) : a.Spares (a.withEngine x work).2 := ⟨rfl, rfl, rfl, List.prefix_rfl⟩

/-! ### The link -/

theorem spares_closeLink (a : Activity) : a.Spares a.closeLink := by
  unfold closeLink
  cases a.node.link with
  | none => exact .refl a
  | some l =>
    have hlink : a.Spares (a.withNode { a.node with link := none }) := ⟨rfl, rfl, rfl, List.prefix_rfl⟩
    exact (hlink.trans (spares_act _ _)).trans (spares_tell _ _)

theorem spares_checkLink (a : Activity) : a.Spares a.checkLink := by
  unfold checkLink
  split
  · exact (spares_closeLink a).trans ⟨rfl, rfl, rfl, List.prefix_rfl⟩
  · exact .refl a

theorem spares_openLink (served : Address) (a : Activity) : a.Spares (a.openLink served) := by
  unfold openLink
  cases a.node.config.fallback.superPeerAddress with
  | none => exact .refl a
  | some addr =>
    have hlink : a.Spares (a.withNode { a.node with link := some { addr := addr } }) :=
      ⟨rfl, rfl, rfl, List.prefix_rfl⟩
    exact (hlink.trans (spares_act _ _)).trans (spares_tell _ _)

theorem spares_prepareLink (x : Surroundings) (served : Address) (a : Activity) :
    a.Spares (a.prepareLink x served) := by
  have hcheck := spares_checkLink a
  unfold prepareLink
  generalize a.checkLink = a₁ at hcheck ⊢
  simp only
  split
  · rename_i f _ _
    have hnote : a.Spares (a₁.withNode { a₁.node with fallback := some (f.onSend x.now).2 }) :=
      hcheck.trans ⟨rfl, rfl, rfl, List.prefix_rfl⟩
    split
    · exact hnote.trans (spares_openLink served _)
    · exact hnote
  · exact hcheck

theorem spares_heardFrom (sender : Address) (a : Activity) : a.Spares (a.heardFrom sender) := by
  unfold heardFrom
  cases a.node.fallback with
  | none => exact .refl a
  | some f =>
    have hnote : a.Spares (a.withNode { a.node with fallback := some (f.onInbound sender).2 }) :=
      ⟨rfl, rfl, rfl, List.prefix_rfl⟩
    simp only
    split
    · exact hnote.trans (spares_closeLink _)
    · exact hnote

/-! ### Sending -/

theorem spares_sendFrame (x : Surroundings) (child : Option Address) (data : Bytes) (a : Activity) :
    a.Spares (a.sendFrame x child data).2 := by
  unfold sendFrame
  cases Frame.encode data with
  | error e => exact .refl a
  | ok frame =>
    simp only
    split
    · exact spares_act a _
    · exact .refl a

theorem spares_sendDatagram (x : Surroundings) (addr : Address) (data : Bytes) (a : Activity) :
    a.Spares (a.sendDatagram x addr data).2 := by
  unfold sendDatagram
  cases x.transport addr data with
  | ok u => exact spares_act a _
  | error e => exact .refl a

theorem spares_transmit (x : Surroundings) (addr : Address) (data : Bytes) (a : Activity) :
    a.Spares (a.transmit x addr data).2 := by
  unfold transmit
  split
  · exact spares_sendFrame x _ data a
  · split
    · have hlink := spares_prepareLink x addr a
      simp only
      split
      · exact hlink.trans (spares_sendFrame x _ data _)
      · exact hlink.trans (spares_sendDatagram x addr data _)
    · exact spares_sendDatagram x addr data a

theorem spares_sendEnvelope (x : Surroundings) (peer : PublicKey) (armed : ArmedMessage) (addr : Address)
    (a : Activity) : a.Spares (a.sendEnvelope x peer armed addr).2 := spares_transmit x addr _ a

theorem spares_sendMessage (x : Surroundings) (peer : PublicKey) (m : DiscoveryMessage) (addr : Address)
    (a : Activity) : a.Spares (a.sendMessage x peer m addr).2 := by
  have harm := spares_withEngine x (fun S now e r => e.armOutbound S now peer m.encode r) a
  unfold sendMessage
  cases hr : a.withEngine x fun S now e r => e.armOutbound S now peer m.encode r with
  | mk result a₁ =>
    rw [hr] at harm
    cases result with
    | error e => exact harm
    | ok armed => exact harm.trans (spares_sendEnvelope x peer armed addr a₁)

theorem spares_sendAll (x : Surroundings) (messages : List Outbound) (a : Activity) :
    a.Spares (messages.foldl (fun a m => (a.sendMessage x m.recipient m.message m.addr).2) a) :=
  List.foldlRecOn messages _ (.refl a) fun _ h m _ => h.trans (spares_sendMessage x m.recipient m.message m.addr _)

/-! ### The engine -/

theorem engine_closeLink (a : Activity) : a.closeLink.node.engine = a.node.engine := by
  unfold closeLink
  cases a.node.link <;> rfl

theorem engine_checkLink (a : Activity) : a.checkLink.node.engine = a.node.engine := by
  unfold checkLink
  split
  · exact engine_closeLink a
  · rfl

theorem engine_openLink (served : Address) (a : Activity) : (a.openLink served).node.engine = a.node.engine := by
  unfold openLink
  cases a.node.config.fallback.superPeerAddress <;> rfl

theorem engine_prepareLink (x : Surroundings) (served : Address) (a : Activity) :
    (a.prepareLink x served).node.engine = a.node.engine := by
  have hcheck := engine_checkLink a
  unfold prepareLink
  generalize a.checkLink = a₁ at hcheck ⊢
  simp only
  split
  · split
    · exact (engine_openLink served _).trans hcheck
    · exact hcheck
  · exact hcheck

theorem engine_sendFrame (x : Surroundings) (child : Option Address) (data : Bytes) (a : Activity) :
    (a.sendFrame x child data).2.node.engine = a.node.engine := by
  unfold sendFrame
  cases Frame.encode data with
  | error e => rfl
  | ok frame =>
    simp only
    split <;> rfl

theorem engine_sendDatagram (x : Surroundings) (addr : Address) (data : Bytes) (a : Activity) :
    (a.sendDatagram x addr data).2.node.engine = a.node.engine := by
  unfold sendDatagram
  cases x.transport addr data <;> rfl

theorem engine_transmit (x : Surroundings) (addr : Address) (data : Bytes) (a : Activity) :
    (a.transmit x addr data).2.node.engine = a.node.engine := by
  unfold transmit
  split
  · exact engine_sendFrame x _ data a
  · split
    · simp only
      split
      · exact (engine_sendFrame x _ data _).trans (engine_prepareLink x addr a)
      · exact (engine_sendDatagram x addr data _).trans (engine_prepareLink x addr a)
    · exact engine_sendDatagram x addr data a

end Activity

end Overlay
