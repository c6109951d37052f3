import Overlay.Proofs.Discovery.Idle
import Overlay.Proofs.Discovery.SuperPeerSide

/-!
# A child with one super peer

What a child knows of its only super peer changes in two ways only: by heartbeats, and by acknowledgements from the
super peer.  Everything else leaves it alone, and tells nothing of it (`ChildSide.keeps_perform`).

A heartbeat sends the super peer one greeting, with the time (`devoted_heartbeat`).  It tells nothing of a super peer
that was heard of within the timeout (`attached_heartbeat`), and an acknowledgement tells nothing of one that is
reachable and in use (`acknowledged_one`).
-/

namespace Overlay

theorem toNat_stamp {t : Nat} (ht : t ≤ lastMoment) : (UInt64.ofNat t).toNat = t := by
  rw [UInt64.toNat_ofNat']
  unfold lastMoment at ht
  omega

theorem stamp_ne_zero {t : Nat} (hpos : 0 < t) (ht : t ≤ lastMoment) : UInt64.ofNat t ≠ 0 := by
  intro hzero
  have hnat := congrArg UInt64.toNat hzero
  rw [toNat_stamp ht] at hnat
  exact absurd hnat (Nat.ne_of_gt hpos)

/-- An event is about the paths to a peer, or about the super peer in use. -/
def Event.Concerns (p : PublicKey) : Event → Prop
  | .pathAdded peer _ _ | .pathRemoved peer _ => peer = p
  | .superPeerChanged _ => True
  | .longTimeEncryption _ | .forwardSecrecyEncryption _ | .messageReceived _ _ => False

/-- The events that come on top of others do not concern a peer. -/
def Unconcerned (p : PublicKey) (events events' : List Event) : Prop :=
  ∃ news, events' = events ++ news ∧ ∀ e ∈ news, ¬ e.Concerns p

namespace Unconcerned

variable {p : PublicKey} {events events' events'' news : List Event}

theorem refl (p : PublicKey) (events : List Event) : Unconcerned p events events :=
  ⟨[], (List.append_nil _).symm, fun _ h => absurd h List.not_mem_nil⟩

theorem trans (h : Unconcerned p events events') (h' : Unconcerned p events' events'') :
    Unconcerned p events events'' := by
  obtain ⟨news, rfl, hnews⟩ := h
  obtain ⟨more, rfl, hmore⟩ := h'
  exact ⟨news ++ more, List.append_assoc _ _ _, fun e he => (List.mem_append.1 he).elim (hnews e) (hmore e)⟩

theorem of_map {α : Type} {l : List α} {tells : α → Event} (h : ∀ x ∈ l, ¬ (tells x).Concerns p) :
    Unconcerned p events (events ++ l.map tells) := by
  refine ⟨l.map tells, rfl, fun e he => ?_⟩
  obtain ⟨x, hx, rfl⟩ := List.mem_map.1 he
  exact h x hx

theorem prepend (h : Unconcerned p events events') (past : List Event) :
    Unconcerned p (past ++ events) (past ++ events') := by
  obtain ⟨news, rfl, hnews⟩ := h
  exact ⟨news, (List.append_assoc _ _ _).symm, hnews⟩

end Unconcerned

/-! ### The child -/

namespace ChildSide

variable {c c' : ChildSide} {s p : PublicKey} {now : Nat}

/-- A child with one super peer, which it knows of no direct path to.  The greetings that wait to be sent are those on
direct paths. -/
structure Devoted (s : PublicKey) (c : ChildSide) : Prop where
  superPeer : ∃ p, c.superPeers.entries = [(s, p)]
  direct : ∀ q, c.traversing.get? s = some q → q.isConfirmed = false
  outbox : ∀ m ∈ c.outbox, ∀ time childrenTime, m.message = .hello time childrenTime → childrenTime = 0

/-- The super peer is reachable and in use, and was heard of since a moment. -/
structure Attached (s : PublicKey) (since : Nat) (c : ChildSide) : Prop where
  best : c.best = some s
  record : ∀ p, c.superPeers.get? s = some p → p.reachable = true ∧ since ≤ p.lastAckAt

/-- What the child knows of its super peer is left alone, and nothing is told of it. -/
structure Leaves (s : PublicKey) (c c' : ChildSide) : Prop where
  config : c'.config = c.config
  own : c'.own = c.own
  superPeers : c'.superPeers = c.superPeers
  best : c'.best = c.best
  events : Unconcerned s c.events c'.events

theorem Leaves.refl (s : PublicKey) (c : ChildSide) : Leaves s c c := ⟨rfl, rfl, rfl, rfl, .refl s _⟩

theorem Attached.mono {since since' : Nat} (h : Attached s since c) (hle : since' ≤ since) : Attached s since' c :=
  ⟨h.best, fun p hp => ⟨(h.record p hp).1, Nat.le_trans hle (h.record p hp).2⟩⟩

theorem get?_superPeer {q : SuperPeer} (h : c.superPeers.entries = [(s, q)]) (p : PublicKey) :
    c.superPeers.get? p = if s = p then some q else none := by
  rw [Table.get?, h]
  rfl

/-! #### Other messages -/

theorem Devoted.message (h : Devoted s c) {t : Table PublicKey TraversingPeer} {messages : List Outbound}
    (ht : ∀ q, t.get? s = some q → q.isConfirmed = false)
    (hm : ∀ m ∈ messages, ∀ time childrenTime, m.message = .hello time childrenTime → childrenTime = 0) :
    Devoted s (post { c with traversing := t } messages) :=
  ⟨h.superPeer, ht, fun m hmem => (List.mem_append.1 hmem).elim (h.outbox m) (hm m)⟩

theorem hello_probes {key : PublicKey} {q : TraversingPeer} {m : Outbound} (hm : m ∈ probes key q now)
    (time childrenTime : UInt64) (hhello : m.message = .hello time childrenTime) : childrenTime = 0 := by
  obtain ⟨addr, -, rfl⟩ := List.mem_map.1 hm
  cases hhello
  rfl

theorem leaves_introduced (h : Devoted s c) (now : Nat) (sender peer : PublicKey) (addr : Address) :
    Devoted s (c.introduced now sender peer addr).2 ∧ Leaves s c (c.introduced now sender peer addr).2 := by
  rcases c.introduced_cases now sender peer addr with hno | ⟨-, -, -, hyes⟩
  · rw [hno]
    exact ⟨h, .refl s c⟩
  rw [hyes]
  refine ⟨h.message ?_ fun m hm => hello_probes hm, rfl, rfl, rfl, rfl, .refl s _⟩
  intro q hq
  rw [Table.get?_insert] at hq
  split at hq
  · rename_i hpeer
    obtain rfl := Option.some.inj hq
    rw [introducedRecord, confirmed_helloSent]
    subst hpeer
    show ((c.traversing.get? s).getD (.ofAddress addr)).isConfirmed = false
    cases hr : c.traversing.get? s with
    | none => rfl
    | some r => exact h.direct r hr
  · exact h.direct q hq

theorem leaves_greetedOnPath (h : Devoted s c) (now : Nat) (sender : PublicKey) (time childrenTime : UInt64)
    (addr : Address) : Devoted s (c.greetedOnPath now sender time childrenTime addr).2 ∧
      Leaves s c (c.greetedOnPath now sender time childrenTime addr).2 := by
  rcases c.greetedOnPath_cases now sender time childrenTime addr with hno | ⟨r, hr, hyes⟩
  · rw [hno]
    exact ⟨h, .refl s c⟩
  · rw [hyes]
    refine ⟨h.message ?_ ?_, rfl, rfl, rfl, rfl, .refl s _⟩
    · intro q hq
      rw [Table.get?_insert] at hq
      split at hq
      · rename_i hsender
        obtain rfl := Option.some.inj hq
        exact h.direct r (hsender ▸ hr)
      · exact h.direct q hq
    · intro m hm time' childrenTime' hhello
      rw [List.mem_singleton.1 hm] at hhello
      cases hhello

theorem leaves_acknowledgedOnPath (h : Devoted s c) (now : Nat) {sender : PublicKey} (hne : sender ≠ s)
    (time : UInt64) (addr : Address) : Devoted s (c.acknowledgedOnPath now sender time addr).2 ∧
      Leaves s c (c.acknowledgedOnPath now sender time addr).2 := by
  rcases c.acknowledgedOnPath_cases now sender time addr with hno | ⟨r, -, hyes⟩
  · rw [hno]
    exact ⟨h, .refl s c⟩
  rw [hyes]
  refine ⟨⟨h.superPeer, ?_, h.outbox⟩, rfl, rfl, rfl, rfl, ?_⟩
  · intro q hq
    simp only [announce, Table.get?_insert, if_neg (Ne.symm hne)] at hq
    exact h.direct q hq
  · refine ⟨_, rfl, fun e he => ?_⟩
    split at he
    · rw [List.mem_singleton.1 he]
      exact hne
    · cases he

/-- What can be asked of a child besides a heartbeat, but for an acknowledgement from its super peer. -/
def Operation.Aside (s : PublicKey) (op : Operation) : Prop :=
  op ≠ .heartbeat ∧ ∀ time addr, op ≠ .receive s (.acknowledgement time) addr

theorem leaves_receive (h : Devoted s c) (now : Nat) (sender : PublicKey) (m : DiscoveryMessage) (addr : Address)
    (haside : ∀ time, m = .acknowledgement time → sender ≠ s) :
    Devoted s (c.receive now sender m addr).2 ∧ Leaves s c (c.receive now sender m addr).2 := by
  cases m with
  | acknowledgement time =>
    have hne := haside time rfl
    obtain ⟨q, hone⟩ := h.superPeer
    have hother : c.isSuperPeer sender = false := by
      rw [isSuperPeer, Table.contains, get?_superPeer hone, if_neg (Ne.symm hne), Option.isSome_none]
    simp only [receive, hother, Bool.false_eq_true, if_false]
    exact leaves_acknowledgedOnPath h now hne time addr
  | hello time childrenTime => exact leaves_greetedOnPath h now sender time childrenTime addr
  | unite peer at' => exact leaves_introduced h now sender peer at'
  | application _ => exact ⟨h, .refl s c⟩

theorem leaves_applicationSeen (h : Devoted s c) (now : Nat) (peer : PublicKey) :
    Devoted s (c.applicationSeen now peer) ∧ Leaves s c (c.applicationSeen now peer) := by
  refine ⟨⟨h.superPeer, ?_, h.outbox⟩, rfl, rfl, rfl, rfl, .refl s _⟩
  intro q hq
  simp only [applicationSeen, Table.get?_modify] at hq
  split at hq
  · obtain ⟨r, hr, rfl⟩ := Option.map_eq_some_iff.1 hq
    exact h.direct r hr
  · exact h.direct q hq

/-- As `Leaves`, for a child at work and all that it has told. -/
structure Keeps (s : PublicKey) (w w' : Watched ChildSide) : Prop where
  config : w'.side.config = w.side.config
  own : w'.side.own = w.side.own
  superPeers : w'.side.superPeers = w.side.superPeers
  best : w'.side.best = w.side.best
  told : Unconcerned s (w.told ChildSide.events) (w'.told ChildSide.events)

theorem Leaves.keeps {w : Watched ChildSide} (h : Leaves s w.side c) : Keeps s w { w with side := c } :=
  ⟨h.config, h.own, h.superPeers, h.best, h.events.prepend _⟩

theorem Keeps.attached {w w' : Watched ChildSide} (h : Keeps s w w') {since : Nat} (ha : Attached s since w.side) :
    Attached s since w'.side := ⟨h.best.trans ha.best, fun p hp => ha.record p (h.superPeers ▸ hp)⟩

theorem keeps_perform {w : Watched ChildSide} (h : Devoted s w.side) (now : Nat) {op : Operation}
    (haside : op.Aside s) : Devoted s (perform now w op).side ∧ Keeps s w (perform now w op) := by
  have hleaves : ∀ {c}, Devoted s c ∧ Leaves s w.side c → Devoted s c ∧ Keeps s w { w with side := c } :=
    fun ⟨hd, hl⟩ => ⟨hd, hl.keeps⟩
  cases op with
  | heartbeat => exact absurd rfl haside.1
  | receive sender m addr =>
    refine hleaves (leaves_receive h now sender m addr ?_)
    rintro time rfl rfl
    exact haside.2 time addr rfl
  | applicationSeen peer => exact hleaves (leaves_applicationSeen h now peer)
  | route peer =>
    refine hleaves (c := (w.side.route now peer).2) ?_
    unfold ChildSide.route
    split
    · exact leaves_applicationSeen h now peer
    · exact ⟨h, .refl s _⟩
  | drainOutbox =>
    exact hleaves ⟨⟨h.superPeer, h.direct, fun _ hm => absurd hm List.not_mem_nil⟩, rfl, rfl, rfl, rfl, .refl s _⟩
  | drainEvents =>
    refine ⟨⟨h.superPeer, h.direct, h.outbox⟩, rfl, rfl, rfl, rfl, ?_⟩
    have htold : (perform now w .drainEvents).told ChildSide.events = w.told ChildSide.events := Watched.told_handOut rfl
    exact htold ▸ Unconcerned.refl s (w.told ChildSide.events)

/-! #### The super peer -/

/-- The one super peer is taken as the gateway while it is not stale, and stays reachable if it was. -/
theorem chooseGateway_one {q : SuperPeer} (hone : c.superPeers.entries = [(s, q)])
    (hfresh : c.isStaleSuperPeer now q = false) : c.chooseGateway now = c.takeGateway (some s) := by
  have hkept : c.superPeers.mapValues
      (fun _ p => if c.isStaleSuperPeer now p then { p with reachable := false } else p) = c.superPeers := by
    refine Table.ext ?_
    simp [Table.mapValues, hone, hfresh]
  have hlose : c.loseSuperPeers now = c := by
    simp only [loseSuperPeers, announce, hkept, View.removals, hone]
    simp [hfresh]
  have hbest : bestOf (c.superPeers.entries.filter fun e => !c.isStaleSuperPeer now e.2) = some s := by
    simp [hone, hfresh, bestOf, better]
  rw [chooseGateway_eq, hlose, hbest]

theorem takeGateway_same {best : Option PublicKey} (h : c.best = best) : c.takeGateway best = c := by
  subst h
  simp [takeGateway, announce]

theorem Attached.fresh {since : Nat} (h : Attached s since c) {q : SuperPeer} (hq : c.superPeers.get? s = some q)
    (hnow : now ≤ since + c.config.helloTimeout.millis) : c.isStaleSuperPeer now q = false := by
  have hsince := (h.record q hq).2
  simp only [isStaleSuperPeer, SuperPeer.isStale, longAgo, decide_eq_false_iff_not]
  omega

theorem outbox_heartbeat (c : ChildSide) (now : Nat) : (c.heartbeat now).outbox =
    c.outbox ++ (c.superPeers.entries.map fun e => (⟨e.1, e.2.addr, .hello (.ofNat now) (.ofNat now)⟩ : Outbound)) ++
      ((c.heartbeat now).traversing.entries.flatMap fun e => probes e.1 e.2 now) := by
  have hgreeted : ((c.chooseGateway now).greetSuperPeers now).superPeers.entries.map
      (fun e => (⟨e.1, e.2.addr, .hello (.ofNat now) (.ofNat now)⟩ : Outbound)) =
      c.superPeers.entries.map fun e => ⟨e.1, e.2.addr, .hello (.ofNat now) (.ofNat now)⟩ := by
    simp only [greetSuperPeers, chooseGateway, announce, post, Table.mapValues, List.map_map]
    refine List.map_congr_left fun e _ => ?_
    simp only [Function.comp, SuperPeer.helloSent]
    split <;> split <;> rfl
  rw [← hgreeted]
  rfl

/-- At a heartbeat, a child sends its super peer one kind of greeting that asks for a place as a child, with the time. -/
theorem devoted_heartbeat (h : Devoted s c) (now : Nat) :
    Devoted s (c.heartbeat now).drainOutbox.2 ∧
      (∃ m ∈ (c.heartbeat now).outbox, m.recipient = s ∧ m.message = .hello (.ofNat now) (.ofNat now)) ∧
      ∀ m ∈ (c.heartbeat now).outbox, ∀ time childrenTime, m.message = .hello time childrenTime →
        childrenTime = 0 ∨ time = .ofNat now ∧ childrenTime = .ofNat now := by
  obtain ⟨p, hone⟩ := h.superPeer
  refine ⟨⟨?_, ?_, fun _ hm => absurd hm List.not_mem_nil⟩, ?_, ?_⟩
  · have hchosen : (c.chooseGateway now).superPeers.entries = [(s, _)] := congrArg (List.map _) hone
    exact ⟨_, congrArg (List.map _) hchosen⟩
  · intro q hq
    have hq' : (c.heartbeat now).traversing.get? s = some q := hq
    rw [get?_heartbeat] at hq'
    obtain ⟨r, hkept, rfl⟩ := Option.map_eq_some_iff.1 hq'
    rw [confirmed_helloSent]
    exact h.direct r (Option.filter_eq_some_iff.1 hkept).1
  · refine ⟨⟨s, p.addr, .hello (.ofNat now) (.ofNat now)⟩, ?_, rfl, rfl⟩
    rw [outbox_heartbeat, hone]
    exact List.mem_append_left _ (List.mem_append_right _ List.mem_cons_self)
  · intro m hm time childrenTime hhello
    rw [outbox_heartbeat] at hm
    rcases List.mem_append.1 hm with hm | hm
    · rcases List.mem_append.1 hm with hm | hm
      · exact Or.inl (h.outbox m hm time childrenTime hhello)
      · obtain ⟨e, -, rfl⟩ := List.mem_map.1 hm
        cases hhello
        exact Or.inr ⟨rfl, rfl⟩
    · obtain ⟨e, -, hprobe⟩ := List.mem_flatMap.1 hm
      exact Or.inl (hello_probes hprobe time childrenTime hhello)

theorem attached_heartbeat (h : Devoted s c) {since : Nat} (ha : Attached s since c)
    (hnow : now ≤ since + c.config.helloTimeout.millis) :
    Attached s since (c.heartbeat now) ∧ Unconcerned s c.events (c.heartbeat now).events := by
  obtain ⟨q, hone⟩ := h.superPeer
  have hq : c.superPeers.get? s = some q := by rw [get?_superPeer hone, if_pos rfl]
  have hcalm : c.chooseGateway now = c := by
    rw [chooseGateway_one hone (ha.fresh hq hnow), takeGateway_same ha.best]
  have hbeat : c.heartbeat now = (c.greetSuperPeers now).tendPaths now := by rw [heartbeat, hcalm]
  rw [hbeat]
  refine ⟨⟨ha.best, ?_⟩, Unconcerned.of_map ?_⟩
  · intro p hp
    have hp' : (c.superPeers.mapValues fun _ p => p.helloSent now).get? s = some p := hp
    rw [Table.get?_mapValues, hq, Option.map_some, Option.some.injEq] at hp'
    subst hp'
    have hrecord := ha.record q hq
    unfold SuperPeer.helloSent
    split <;> exact hrecord
  · intro e he hs
    obtain ⟨hmem, hlost⟩ := List.mem_filter.1 he
    have hpeer : e.1 = s := hs
    have hdirect := h.direct e.2 (hpeer ▸ Table.mem_entries.1 hmem)
    rw [hdirect, Bool.and_false] at hlost
    cases hlost

/-- An acknowledgement that counts makes the super peer the gateway, and tells nothing if it was already. -/
theorem acknowledged_one (h : Devoted s c) (now : Nat) (time : UInt64)
    (hfresh : c.config.acknowledgementFresh time.toNat now = true) (addr : Address) :
    let c' := (c.acknowledgedBySuperPeer now s time addr).2
    Devoted s c' ∧ c'.config = c.config ∧ c'.own = c.own ∧ Attached s now c' ∧
      ∀ since, Attached s since c → Unconcerned s c.events c'.events := by
  obtain ⟨q, hone⟩ := h.superPeer
  have hq : c.superPeers.get? s = some q := by rw [get?_superPeer hone, if_pos rfl]
  have hentries : ∀ q' : SuperPeer, (c.superPeers.insert s q').entries = [(s, q')] := by
    intro q'
    simp [Table.insert, hone, Table.place]
  let q' : SuperPeer := { q.acknowledged now (now - time.toNat) with reachable := true }
  let c₁ : ChildSide := { c with superPeers := c.superPeers.insert s q' }
  have hstale : ∀ c₂ : ChildSide, c₂.isStaleSuperPeer now q' = false := by
    intro c₂
    have hlast : now ≤ max q'.firstHelloAt q'.lastAckAt := Nat.le_max_right q.firstHelloAt now
    simp only [isStaleSuperPeer, SuperPeer.isStale, longAgo, decide_eq_false_iff_not]
    omega
  have hone' : ∀ events, (c₁.announce events).superPeers.entries = [(s, q')] := fun _ => hentries q'
  have hresult : (c.acknowledgedBySuperPeer now s time addr).2 =
      (c₁.announce (if q.reachable then [] else [.pathAdded s addr .superPeer])).takeGateway (some s) := by
    rw [← chooseGateway_one (hone' _) (hstale _)]
    simp only [acknowledgedBySuperPeer, hq, hfresh, if_true]
    cases q.reachable with
    | true =>
      have hnone : c₁.announce [] = c₁ := by simp [announce]
      simp only [if_true, hnone]
      rfl
    | false => rfl
  rw [hresult]
  refine ⟨⟨⟨q', hentries q'⟩, h.direct, h.outbox⟩, rfl, rfl, ⟨rfl, ?_⟩, ?_⟩
  · intro p hp
    have hp' : (c.superPeers.insert s q').get? s = some p := hp
    rw [Table.get?_insert, if_pos rfl, Option.some.injEq] at hp'
    subst hp'
    exact ⟨rfl, Nat.le_refl now⟩
  · intro since ha
    rw [(ha.record q hq).1, if_pos rfl]
    have hbest : (c₁.announce []).best = some s := ha.best
    rw [takeGateway_same hbest]
    exact ⟨[], rfl, fun _ he => absurd he List.not_mem_nil⟩

end ChildSide

end Overlay
