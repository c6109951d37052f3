import Overlay.Proofs.Discovery.Devoted

/-!
# A child and its super peer in steady state

A child with one super peer greets it at each heartbeat, and the super peer acknowledges that (`Kinship`).  Both go by
their own clocks.  The exchange keeps its rhythm (`Rhythm.Next`) if heartbeats, and arrivals of greetings, are no
further apart than a peer may be silent, if the stamps are close enough to the clocks that they meet, and if each
greeting is acknowledged before the next one.

Then nothing flaps (`Kinship.steady`).  The child's record of the super peer is never stale at a heartbeat, because
the last acknowledgement is not older than the last heartbeat; and the super peer's record of the child is never stale
when it looks.
-/

namespace Overlay

/-! ### The super peer -/

namespace SuperPeerSide

variable {s : SuperPeerSide} {p : PublicKey} {now : Nat}

/-- No acknowledgement but those of one stamp waits to be sent to a child. -/
def Answers (p : PublicKey) (stamp : UInt64 → Prop) (s : SuperPeerSide) : Prop :=
  ∀ m ∈ s.outbox, m.recipient = p → ∀ time, m.message = .acknowledgement time → stamp time

theorem Answers.post {stamp : UInt64 → Prop} (h : Answers p stamp s) {messages : List Outbound}
    (hm : ∀ m ∈ messages, m.recipient = p → ∀ time, m.message = .acknowledgement time → stamp time) :
    Answers p stamp (s.post messages) :=
  fun m hmem => (List.mem_append.1 hmem).elim (h m) (hm m)

/-- What a super peer knows of a child is left alone, and nothing is told of it. -/
structure Keeps (p : PublicKey) (w w' : Watched SuperPeerSide) : Prop where
  config : w'.side.config = w.side.config
  own : w'.side.own = w.side.own
  child : w'.side.children.get? p = w.side.children.get? p
  told : Unconcerned p (w.told SuperPeerSide.events) (w'.told SuperPeerSide.events)

theorem Keeps.quiet {w : Watched SuperPeerSide} (hconfig : s.config = w.side.config) (hown : s.own = w.side.own)
    (hc : s.children.get? p = w.side.children.get? p) (he : s.events = w.side.events) :
    Keeps p w { w with side := s } := by
  refine ⟨hconfig, hown, hc, ?_⟩
  simp only [Watched.told, he]
  exact .refl p _

theorem keeps_greeted {w : Watched SuperPeerSide} {stamp : UInt64 → Prop} (h : Answers p stamp w.side) (now : Nat)
    {sender : PublicKey} (hne : sender ≠ p) (time childrenTime : UInt64) (addr : Address) :
    Answers p stamp (w.side.greeted now sender time childrenTime addr).2 ∧
      Keeps p w { w with side := (w.side.greeted now sender time childrenTime addr).2 } := by
  unfold greeted
  split
  · exact ⟨h, .quiet rfl rfl rfl rfl⟩
  refine ⟨Answers.post h ?_, rfl, rfl, ?_, Unconcerned.prepend ⟨_, rfl, ?_⟩ _⟩
  · intro m hm hp
    rw [List.mem_singleton.1 hm] at hp
    exact absurd hp hne
  · exact (Table.get?_insert _ _ _ _).trans (if_neg (Ne.symm hne))
  · intro e he
    split at he
    · cases he
    · rw [List.mem_singleton.1 he]
      exact hne

theorem keeps_checkStale {w : Watched SuperPeerSide}
    (hfresh : ∀ c, w.side.children.get? p = some c → c.isStale now w.side.config.helloTimeout.millis = false) :
    Keeps p w { w with side := (w.side.checkStale now).2 } := by
  refine ⟨rfl, rfl, ?_, (Unconcerned.of_map ?_).prepend _⟩
  · simp only [checkStale, announce, Table.get?_filter]
    cases hc : w.side.children.get? p with
    | none => rfl
    | some c => simp [Option.filter, hfresh c hc]
  · intro e he hp
    obtain ⟨hmem, hstale⟩ := List.mem_filter.1 he
    have hpeer : e.1 = p := hp
    exact Bool.false_ne_true ((hfresh e.2 (hpeer ▸ Table.mem_entries.1 hmem)).symm.trans hstale)

theorem keeps_relay {w : Watched SuperPeerSide} {stamp : UInt64 → Prop} (h : Answers p stamp w.side) (now : Nat)
    (e : Envelope) : Answers p stamp (w.side.relay now e).2 ∧ Keeps p w { w with side := (w.side.relay now e).2 } := by
  obtain ⟨attempts, messages, hrelay, hunite⟩ := w.side.relay_snd now e
  rw [hrelay]
  refine ⟨Answers.post h ?_, .quiet rfl rfl rfl rfl⟩
  intro m hm _ time hack
  obtain ⟨peer, addr, hmessage⟩ := hunite m hm
  rw [hmessage] at hack
  cases hack

/-- What can be asked of a super peer besides a greeting from a child. -/
def Operation.Aside (p : PublicKey) (op : Operation) : Prop :=
  ∀ time childrenTime addr, op ≠ .greeted p time childrenTime addr

theorem keeps_perform {w : Watched SuperPeerSide} {stamp : UInt64 → Prop} (h : Answers p stamp w.side) (now : Nat)
    {op : Operation} (haside : op.Aside p) (hfresh : op = .checkStale →
      ∀ c, w.side.children.get? p = some c → c.isStale now w.side.config.helloTimeout.millis = false) :
    Answers p stamp (perform now w op).side ∧ Keeps p w (perform now w op) := by
  cases op with
  | greeted sender time childrenTime addr =>
    refine keeps_greeted h now ?_ time childrenTime addr
    rintro rfl
    exact haside time childrenTime addr rfl
  | checkStale => exact ⟨h, keeps_checkStale (hfresh rfl)⟩
  | relay e => exact keeps_relay h now e
  | drainOutbox => exact ⟨fun _ hm => absurd hm List.not_mem_nil, .quiet rfl rfl rfl rfl⟩
  | drainEvents =>
    refine ⟨h, rfl, rfl, rfl, ?_⟩
    have htold : (perform now w .drainEvents).told SuperPeerSide.events = w.told SuperPeerSide.events :=
      Watched.told_handOut rfl
    exact htold ▸ Unconcerned.refl p (w.told SuperPeerSide.events)

/-- A greeting that counts registers the child, is acknowledged, and tells nothing if the child was registered with that
address. -/
theorem greeted_one (hne : p ≠ s.own) (now : Nat) (time : UInt64) {childrenTime : UInt64} (hchild : childrenTime ≠ 0)
    (hoffset : s.config.withinTimeOffset time.toNat now = true) (addr : Address) :
    let s' := (s.greeted now p time childrenTime addr).2
    s'.config = s.config ∧ s'.own = s.own ∧ s'.children.get? p = some ⟨addr, now⟩ ∧
      s'.outbox = s.outbox ++ [⟨p, addr, .acknowledgement time⟩] ∧
      ((s.children.get? p).map (·.addr) = some addr → s'.events = s.events) := by
  have hcounts : ¬ (childrenTime = 0 || p = s.own || !s.config.withinTimeOffset time.toNat now) = true := by
    simp [hchild, hne, hoffset]
  simp only [greeted, if_neg hcounts]
  refine ⟨rfl, rfl, (Table.get?_insert _ _ _ _).trans (if_pos rfl), rfl, ?_⟩
  intro hknown
  simp only [hknown, if_pos, announce, post, List.append_nil]

end SuperPeerSide

/-! ### The exchange -/

/-- A child and its super peer at work, with what is under way between them. -/
structure Kinship where
  child : Watched ChildSide
  superPeer : Watched SuperPeerSide
  greetings : List Outbound := []
  answers : List Outbound := []

namespace Kinship

inductive Act where
  /-- The child's timer fires, and the child sends what waits. -/
  | heartbeat
  /-- What the child has sent arrives, and the super peer sends what waits. -/
  | greeted
  /-- What the super peer has sent arrives. -/
  | answered
  | child (op : ChildSide.Operation)
  | superPeer (op : SuperPeerSide.Operation)
deriving DecidableEq

def hear (now : Nat) (sender : PublicKey) (site : Address) (w : Watched SuperPeerSide) (m : Outbound) :
    Watched SuperPeerSide :=
  match m.message with
  | .hello time childrenTime => SuperPeerSide.perform now w (.greeted sender time childrenTime site)
  | _ => w

def act (site home : Address) (now : Nat) (w : Kinship) : Act → Kinship
  | .heartbeat =>
    let child := ChildSide.perform now w.child .heartbeat
    { w with
      child := ChildSide.perform now child .drainOutbox
      greetings := child.side.outbox.filter (·.recipient = w.superPeer.side.own) }
  | .greeted =>
    let superPeer := w.greetings.foldl (hear now w.child.side.own site) w.superPeer
    { w with
      superPeer := SuperPeerSide.perform now superPeer .drainOutbox
      greetings := []
      answers := superPeer.side.outbox.filter (·.recipient = w.child.side.own) }
  | .answered =>
    { w with
      child := w.answers.foldl
        (fun c m => ChildSide.perform now c (.receive w.superPeer.side.own m.message home)) w.child
      answers := [] }
  | .child op => { w with child := ChildSide.perform now w.child op }
  | .superPeer op => { w with superPeer := SuperPeerSide.perform now w.superPeer op }

def start (me s : PublicKey) (C P : DiscoveryConfig) : Kinship where
  child := ⟨.start me C, []⟩
  superPeer := ⟨.start s P, []⟩

def run (site home : Address) (w : Kinship) (acts : List (Nat × Act)) : Kinship :=
  acts.foldl (fun w o => w.act site home o.1 o.2) w

end Kinship

inductive Rhythm.Phase where
  | resting
  | greeting
  | answering
deriving DecidableEq

/-- Where an exchange stands: both clocks, when the child's last heartbeat was, when its last greeting arrived, and
whether one was acknowledged yet. -/
structure Rhythm where
  childClock : Nat := 0
  superPeerClock : Nat := 0
  beat : Option Nat := none
  arrival : Option Nat := none
  acknowledged : Bool := false
  phase : Rhythm.Phase := .resting

namespace Rhythm

open Kinship

variable {me s : PublicKey} {C P : DiscoveryConfig} {site home : Address}

/-- What comes next in an exchange that keeps its rhythm, between a child and a super peer with their settings. -/
inductive Next (me s : PublicKey) (C P : DiscoveryConfig) (r : Rhythm) : Nat × Act → Rhythm → Prop where
  | heartbeat (now : Nat) (hphase : r.phase = .resting) (hclock : r.childClock ≤ now) (hpos : 0 < now)
      (hlast : now ≤ lastMoment) (hbeat : ∀ t, r.beat = some t → now ≤ t + C.helloTimeout.millis) :
      Next me s C P r (now, .heartbeat) { r with childClock := now, beat := some now, phase := .greeting }
  | greeted (now t : Nat) (hphase : r.phase = .greeting) (hbeat : r.beat = some t) (hclock : r.superPeerClock ≤ now)
      (hoffset : P.withinTimeOffset t now = true)
      (harrival : ∀ u, r.arrival = some u → now ≤ u + P.helloTimeout.millis) :
      Next me s C P r (now, .greeted) { r with superPeerClock := now, arrival := some now, phase := .answering }
  | answered (now t : Nat) (hphase : r.phase = .answering) (hbeat : r.beat = some t) (hclock : r.childClock ≤ now)
      (hsoon : now < t + C.helloTimeout.millis) (hoffset : C.withinTimeOffset t now = true) :
      Next me s C P r (now, .answered) { r with childClock := now, acknowledged := true, phase := .resting }
  | checkStale (now : Nat) (hclock : r.superPeerClock ≤ now)
      (harrival : ∀ u, r.arrival = some u → now ≤ u + P.helloTimeout.millis) :
      Next me s C P r (now, .superPeer .checkStale) { r with superPeerClock := now }
  | child (now : Nat) (op : ChildSide.Operation) (hclock : r.childClock ≤ now) (haside : op.Aside s) :
      Next me s C P r (now, .child op) { r with childClock := now }
  | superPeer (now : Nat) (op : SuperPeerSide.Operation) (hclock : r.superPeerClock ≤ now) (haside : op.Aside me)
      (hcheck : op ≠ .checkStale) : Next me s C P r (now, .superPeer op) { r with superPeerClock := now }

inductive Course (me s : PublicKey) (C P : DiscoveryConfig) : Rhythm → List (Nat × Act) → Rhythm → Prop where
  | nil (r : Rhythm) : Course me s C P r [] r
  | cons {r r' r'' : Rhythm} {o : Nat × Act} {rest : List (Nat × Act)} (ho : Next me s C P r o r')
      (hrest : Course me s C P r' rest r'') : Course me s C P r (o :: rest) r''

/-- What a child sends its super peer at a heartbeat: a greeting that asks for a place as a child, and no other one. -/
structure Greets (t : Nat) (messages : List Outbound) : Prop where
  greeting : ∃ m ∈ messages, m.message = .hello (.ofNat t) (.ofNat t)
  only : ∀ m ∈ messages, ∀ time childrenTime, m.message = .hello time childrenTime →
    childrenTime = 0 ∨ time = .ofNat t ∧ childrenTime = .ofNat t

structure Acknowledges (t : Nat) (messages : List Outbound) : Prop where
  answer : ∃ m ∈ messages, m.message = .acknowledgement (.ofNat t)
  only : ∀ m ∈ messages, ∀ time, m.message = .acknowledgement time → time = .ofNat t

def since (r : Rhythm) : Nat := if r.phase = .resting then r.beat.getD 0 else 0

/-- Where an exchange that keeps its rhythm stands, both sides are in step. -/
structure Kept (me s : PublicKey) (C P : DiscoveryConfig) (site : Address) (r : Rhythm) (w : Kinship) : Prop where
  devoted : w.child.side.Devoted s
  child : w.child.side.own = me ∧ w.child.side.config = C
  superPeer : w.superPeer.side.own = s ∧ w.superPeer.side.config = P
  answers : w.superPeer.side.Answers me fun _ => False
  beat : ∀ t, r.beat = some t → 0 < t ∧ t ≤ lastMoment ∧ t ≤ r.childClock
  beaten : r.acknowledged = true → r.beat.isSome = true
  greeting : r.phase = .greeting → ∀ t, r.beat = some t → Greets t w.greetings
  answering : r.phase = .answering → ∀ t, r.beat = some t → Acknowledges t w.answers
  attached : r.acknowledged = true → w.child.side.Attached s r.since
  registered : ∀ u, r.arrival = some u → w.superPeer.side.children.get? me = some ⟨site, u⟩

/-- What is told when an exchange goes on: nothing of the super peer after the first acknowledgement, and nothing of the
child after the first greeting has arrived. -/
structure Silent (me s : PublicKey) (r : Rhythm) (w w' : Kinship) : Prop where
  child : r.acknowledged = true →
    Unconcerned s (w.child.told ChildSide.events) (w'.child.told ChildSide.events)
  superPeer : r.arrival.isSome = true →
    Unconcerned me (w.superPeer.told SuperPeerSide.events) (w'.superPeer.told SuperPeerSide.events)

/-! #### Each act -/

variable {r : Rhythm} {w : Kinship} {now t : Nat}

theorem Silent.refl (r : Rhythm) (w : Kinship) : Silent me s r w w := ⟨fun _ => .refl s _, fun _ => .refl me _⟩

theorem kept_heartbeat (h : Kept me s C P site r w) (hphase : r.phase = .resting) (hpos : 0 < now)
    (hlast : now ≤ lastMoment) (hbeat : ∀ t, r.beat = some t → now ≤ t + C.helloTimeout.millis) :
    Kept me s C P site { r with childClock := now, beat := some now, phase := .greeting }
      (w.act site home now .heartbeat) ∧ Silent me s r w (w.act site home now .heartbeat) := by
  obtain ⟨hdevoted, ⟨m, hm, hrecipient, hmessage⟩, honly⟩ := ChildSide.devoted_heartbeat h.devoted now
  have hattached : r.acknowledged = true → ChildSide.Attached s 0 (w.child.side.heartbeat now) ∧
      Unconcerned s w.child.side.events (w.child.side.heartbeat now).events := by
    intro hack
    obtain ⟨t, ht⟩ := Option.isSome_iff_exists.1 (h.beaten hack)
    have hsince : r.since = t := by rw [since, if_pos hphase, ht, Option.getD_some]
    have hnow : now ≤ t + w.child.side.config.helloTimeout.millis := h.child.2 ▸ hbeat t ht
    obtain ⟨hstays, htold⟩ := ChildSide.attached_heartbeat h.devoted (hsince ▸ h.attached hack) hnow
    exact ⟨hstays.mono (Nat.zero_le t), htold⟩
  refine ⟨⟨hdevoted, h.child, h.superPeer, h.answers, ?_, fun _ => rfl, ?_, nofun, ?_, h.registered⟩, ?_,
    fun _ => .refl me _⟩
  · rintro t ⟨⟩
    exact ⟨hpos, hlast, Nat.le_refl now⟩
  · rintro - t ⟨⟩
    refine ⟨⟨m, List.mem_filter.2 ⟨hm, ?_⟩, hmessage⟩, fun m hm => honly m (List.mem_filter.1 hm).1⟩
    rw [h.superPeer.1]
    exact decide_eq_true hrecipient
  · intro hack
    exact ⟨(hattached hack).1.best, (hattached hack).1.record⟩
  · intro hack
    exact (hattached hack).2.prepend _

def Heard (me : PublicKey) (site : Address) (now t : Nat) (v : Watched SuperPeerSide) : Prop :=
  v.side.children.get? me = some ⟨site, now⟩ ∧
    ∃ m ∈ v.side.outbox, m.recipient = me ∧ m.message = .acknowledgement (.ofNat t)

/-- Where a super peer takes the messages of a child, it keeps its settings, acknowledges only the one greeting, and tells
nothing if the child was registered at its address. -/
structure Hears (me : PublicKey) (site : Address) (t : Nat) (v v' : Watched SuperPeerSide) : Prop where
  own : v'.side.own = v.side.own
  config : v'.side.config = v.side.config
  answers : v.side.Answers me (· = .ofNat t) → v'.side.Answers me (· = .ofNat t)
  known : (v.side.children.get? me).map (·.addr) = some site →
    (v'.side.children.get? me).map (·.addr) = some site ∧
      Unconcerned me (v.told SuperPeerSide.events) (v'.told SuperPeerSide.events)

theorem Hears.refl (v : Watched SuperPeerSide) : Hears me site t v v :=
  ⟨rfl, rfl, id, fun h => ⟨h, .refl me _⟩⟩

theorem Hears.trans {v v' v'' : Watched SuperPeerSide} (h : Hears me site t v v') (h' : Hears me site t v' v'') :
    Hears me site t v v'' := by
  refine ⟨h'.own.trans h.own, h'.config.trans h.config, h'.answers ∘ h.answers, ?_⟩
  intro hknown
  obtain ⟨hknown', htold⟩ := h.known hknown
  obtain ⟨hknown'', htold'⟩ := h'.known hknown'
  exact ⟨hknown'', htold.trans htold'⟩

theorem hears_greeting (site : Address) {v : Watched SuperPeerSide} (hne : me ≠ v.side.own) (hpos : 0 < t)
    (ht : t ≤ lastMoment) (hoffset : v.side.config.withinTimeOffset t now = true) :
    let v' := SuperPeerSide.perform now v (.greeted me (.ofNat t) (.ofNat t) site)
    Hears me site t v v' ∧ Heard me site now t v' := by
  obtain ⟨hconfig, hown, hchild, houtbox, hevents⟩ := SuperPeerSide.greeted_one (s := v.side) hne now
    (.ofNat t) (stamp_ne_zero hpos ht) (by rwa [toNat_stamp ht]) site
  simp only [SuperPeerSide.perform]
  generalize (v.side.greeted now me (.ofNat t) (.ofNat t) site).2 = s' at *
  refine ⟨⟨hown, hconfig, ?_, ?_⟩, hchild, ?_⟩
  · intro hanswers m hm hp time hack
    have hm' : m ∈ v.side.outbox ++ [⟨me, site, .acknowledgement (.ofNat t)⟩] := houtbox ▸ hm
    rcases List.mem_append.1 hm' with hold | hnew
    · exact hanswers m hold hp time hack
    · rw [List.mem_singleton.1 hnew] at hack
      cases hack
      rfl
  · intro hknown
    refine ⟨by rw [hchild]; rfl, ?_⟩
    simp only [Watched.told, hevents hknown]
    exact .refl me _
  · rw [houtbox]
    exact ⟨_, List.mem_append_right _ List.mem_cons_self, rfl, rfl⟩

theorem hears_one (site : Address) {v : Watched SuperPeerSide} (hne : me ≠ v.side.own) (hpos : 0 < t) (ht : t ≤ lastMoment)
    (hoffset : v.side.config.withinTimeOffset t now = true) {m : Outbound}
    (honly : ∀ time childrenTime, m.message = .hello time childrenTime →
      childrenTime = 0 ∨ time = .ofNat t ∧ childrenTime = .ofNat t) :
    Hears me site t v (hear now me site v m) ∧
      ((Heard me site now t v ∨ m.message = .hello (.ofNat t) (.ofNat t)) →
        Heard me site now t (hear now me site v m)) := by
  -- Messages that are no such greeting change nothing.
  have hidle : hear now me site v m = v → m.message ≠ .hello (.ofNat t) (.ofNat t) →
      Hears me site t v (hear now me site v m) ∧
      ((Heard me site now t v ∨ m.message = .hello (.ofNat t) (.ofNat t)) →
        Heard me site now t (hear now me site v m)) := by
    intro hsame hno
    rw [hsame]
    exact ⟨.refl v, fun h => h.resolve_right hno⟩
  cases hm : m.message with
  | hello time childrenTime =>
    rcases honly time childrenTime hm with rfl | ⟨rfl, rfl⟩
    · rw [← hm]
      refine hidle ?_ ?_
      · simp [hear, hm, SuperPeerSide.perform, SuperPeerSide.greeted]
      · rw [hm]
        intro hhello
        injection hhello with _ hzero
        exact stamp_ne_zero hpos ht hzero.symm
    · obtain ⟨hhears, hheard⟩ := hears_greeting site hne hpos ht hoffset
      simp only [hear, hm]
      exact ⟨hhears, fun _ => hheard⟩
  | acknowledgement _ | unite _ _ | application _ =>
    rw [← hm]
    refine hidle (by simp only [hear, hm]) ?_
    rw [hm]
    intro hhello
    cases hhello

theorem hears_all (site : Address) {messages : List Outbound} {v : Watched SuperPeerSide} (hne : me ≠ v.side.own)
    (hpos : 0 < t) (ht : t ≤ lastMoment) (hoffset : v.side.config.withinTimeOffset t now = true)
    (honly : ∀ m ∈ messages, ∀ time childrenTime, m.message = .hello time childrenTime →
      childrenTime = 0 ∨ time = .ofNat t ∧ childrenTime = .ofNat t) :
    Hears me site t v (messages.foldl (hear now me site) v) ∧
      ((Heard me site now t v ∨ ∃ m ∈ messages, m.message = .hello (.ofNat t) (.ofNat t)) →
        Heard me site now t (messages.foldl (hear now me site) v)) := by
  induction messages generalizing v with
  | nil => exact ⟨.refl v, fun h => h.resolve_right fun ⟨_, hm, _⟩ => absurd hm List.not_mem_nil⟩
  | cons m rest ih =>
    obtain ⟨hfirst, hheard⟩ := hears_one site hne hpos ht hoffset (honly m List.mem_cons_self)
    obtain ⟨hrest, hheard'⟩ := ih (v := hear now me site v m) (hfirst.own ▸ hne) (hfirst.config ▸ hoffset)
      fun m' hm' => honly m' (List.mem_cons_of_mem m hm')
    refine ⟨hfirst.trans hrest, ?_⟩
    rintro (h | ⟨m', hm', hhello⟩)
    · exact hheard' (Or.inl (hheard (Or.inl h)))
    · rcases List.mem_cons.1 hm' with rfl | hm'
      · exact hheard' (Or.inl (hheard (Or.inr hhello)))
      · exact hheard' (Or.inr ⟨m', hm', hhello⟩)

theorem kept_greeted (h : Kept me s C P site r w) (hne : me ≠ s) (hphase : r.phase = .greeting)
    (hbeat : r.beat = some t) (hoffset : P.withinTimeOffset t now = true) :
    Kept me s C P site { r with superPeerClock := now, arrival := some now, phase := .answering }
      (w.act site home now .greeted) ∧ Silent me s r w (w.act site home now .greeted) := by
  obtain ⟨hpos, ht, hle⟩ := h.beat t hbeat
  obtain ⟨hgreeting, honly⟩ := h.greeting hphase t hbeat
  obtain ⟨hhears, hheard⟩ := hears_all site (v := w.superPeer) (h.superPeer.1.symm ▸ hne) hpos ht
    (h.superPeer.2.symm ▸ hoffset) honly
  obtain ⟨hregistered, m, hm, hrecipient, hmessage⟩ := hheard (Or.inr hgreeting)
  have hanswers := hhears.answers fun m hm hp time hack => (h.answers m hm hp time hack).elim
  simp only [act, h.child.1]
  generalize w.greetings.foldl (hear now me site) w.superPeer = v at *
  refine ⟨⟨h.devoted, h.child, ⟨hhears.own.trans h.superPeer.1, hhears.config.trans h.superPeer.2⟩,
    fun _ hm => absurd hm List.not_mem_nil, h.beat, h.beaten, nofun, ?_, ?_, ?_⟩, fun _ => .refl s _, ?_⟩
  · intro _ t' ht'
    obtain rfl := Option.some.inj (hbeat.symm.trans ht')
    refine ⟨⟨m, List.mem_filter.2 ⟨hm, decide_eq_true hrecipient⟩, hmessage⟩, ?_⟩
    intro m' hm' time hack
    obtain ⟨hmem, hp⟩ := List.mem_filter.1 hm'
    exact hanswers m' hmem (of_decide_eq_true hp) time hack
  · intro hack
    exact (h.attached hack).mono (Nat.zero_le _)
  · rintro u ⟨⟩
    exact hregistered
  · intro harrival
    obtain ⟨u, hu⟩ := Option.isSome_iff_exists.1 harrival
    exact (hhears.known (by rw [h.registered u hu]; rfl)).2

theorem answered_one (home : Address) {v : Watched ChildSide} (h : v.side.Devoted s)
    (hfresh : v.side.config.acknowledgementFresh t now = true) (ht : t ≤ lastMoment) {m : DiscoveryMessage}
    (honly : ∀ time, m = .acknowledgement time → time = .ofNat t) :
    let v' := ChildSide.perform now v (.receive s m home)
    v'.side.Devoted s ∧ v'.side.own = v.side.own ∧ v'.side.config = v.side.config ∧
      (∀ since ≤ now, v.side.Attached s since → v'.side.Attached s since ∧
        Unconcerned s (v.told ChildSide.events) (v'.told ChildSide.events)) ∧
      (v.side.Attached s now ∨ m = .acknowledgement (.ofNat t) → v'.side.Attached s now) := by
  by_cases hack : m = .acknowledgement (.ofNat t)
  · subst hack
    obtain ⟨p, hone⟩ := h.superPeer
    have hsuper : v.side.isSuperPeer s = true := by
      rw [ChildSide.isSuperPeer, Table.contains, ChildSide.get?_superPeer hone, if_pos rfl, Option.isSome_some]
    obtain ⟨hdevoted, hconfig, hown, hattached, htold⟩ := ChildSide.acknowledged_one h now
      (.ofNat t) (by rwa [toNat_stamp ht]) home
    have hreceive : ChildSide.perform now v (.receive s (.acknowledgement (.ofNat t)) home) =
        { v with side := (v.side.acknowledgedBySuperPeer now s (.ofNat t) home).2 } := by
      simp only [ChildSide.perform, ChildSide.receive, hsuper, if_true]
    simp only [hreceive]
    exact ⟨hdevoted, hown, hconfig, fun since hle ha => ⟨hattached.mono hle, (htold since ha).prepend _⟩,
      fun _ => hattached⟩
  · have haside : ChildSide.Operation.Aside s (.receive s m home) := by
      refine ⟨?_, ?_⟩
      · rintro ⟨⟩
      · rintro time addr ⟨⟩
        exact hack (honly time rfl ▸ rfl)
    obtain ⟨hdevoted, hkeeps⟩ := ChildSide.keeps_perform h now haside
    exact ⟨hdevoted, hkeeps.own, hkeeps.config, fun since _ ha => ⟨hkeeps.attached ha, hkeeps.told⟩,
      fun ha => hkeeps.attached (ha.resolve_right hack)⟩

theorem answered_all (home : Address) {messages : List Outbound} {v : Watched ChildSide} (h : v.side.Devoted s)
    (hfresh : v.side.config.acknowledgementFresh t now = true) (ht : t ≤ lastMoment)
    (honly : ∀ m ∈ messages, ∀ time, m.message = .acknowledgement time → time = .ofNat t) :
    let v' := messages.foldl (fun c m => ChildSide.perform now c (.receive s m.message home)) v
    v'.side.Devoted s ∧ v'.side.own = v.side.own ∧ v'.side.config = v.side.config ∧
      (∀ since ≤ now, v.side.Attached s since → v'.side.Attached s since ∧
        Unconcerned s (v.told ChildSide.events) (v'.told ChildSide.events)) ∧
      ((v.side.Attached s now ∨ ∃ m ∈ messages, m.message = .acknowledgement (.ofNat t)) → v'.side.Attached s now) := by
  induction messages generalizing v with
  | nil =>
    exact ⟨h, rfl, rfl, fun since _ ha => ⟨ha, .refl s _⟩,
      fun ha => ha.resolve_right fun ⟨_, hm, _⟩ => absurd hm List.not_mem_nil⟩
  | cons m rest ih =>
    obtain ⟨hfirst, hown, hconfig, hstays, hattached⟩ :=
      answered_one home h hfresh ht (honly m List.mem_cons_self)
    obtain ⟨hrest, hown', hconfig', hstays', hattached'⟩ := ih hfirst (hconfig ▸ hfresh)
      fun m' hm' => honly m' (List.mem_cons_of_mem m hm')
    refine ⟨hrest, hown'.trans hown, hconfig'.trans hconfig, ?_, ?_⟩
    · intro since hle ha
      obtain ⟨ha', htold⟩ := hstays since hle ha
      obtain ⟨ha'', htold'⟩ := hstays' since hle ha'
      exact ⟨ha'', htold.trans htold'⟩
    · rintro (ha | ⟨m', hm', hack⟩)
      · exact hattached' (Or.inl (hattached (Or.inl ha)))
      · rcases List.mem_cons.1 hm' with rfl | hm'
        · exact hattached' (Or.inl (hattached (Or.inr hack)))
        · exact hattached' (Or.inr ⟨m', hm', hack⟩)

theorem kept_answered (h : Kept me s C P site r w) (hphase : r.phase = .answering) (hbeat : r.beat = some t)
    (hclock : r.childClock ≤ now) (hsoon : now < t + C.helloTimeout.millis)
    (hoffset : C.withinTimeOffset t now = true) :
    Kept me s C P site { r with childClock := now, acknowledged := true, phase := .resting }
      (w.act site home now .answered) ∧ Silent me s r w (w.act site home now .answered) := by
  obtain ⟨hpos, ht, hle⟩ := h.beat t hbeat
  obtain ⟨hanswer, honly⟩ := h.answering hphase t hbeat
  have hfresh : C.acknowledgementFresh t now = true := by
    have hrecent : now - C.helloTimeout.millis < t := by omega
    rw [DiscoveryConfig.acknowledgementFresh, hoffset, Bool.and_true]
    exact decide_eq_true hrecent
  obtain ⟨hdevoted, hown, hconfig, hstays, hattached⟩ :=
    answered_all home h.devoted (h.child.2.symm ▸ hfresh) ht honly
  simp only [act, h.superPeer.1]
  generalize w.answers.foldl (fun c m => ChildSide.perform now c (.receive s m.message home)) w.child = v at *
  refine ⟨⟨hdevoted, ⟨hown.trans h.child.1, hconfig.trans h.child.2⟩, h.superPeer, h.answers, ?_, ?_, nofun, nofun, ?_,
    h.registered⟩, ?_, fun _ => .refl me _⟩
  · intro t' ht'
    obtain rfl := Option.some.inj (hbeat.symm.trans ht')
    exact ⟨hpos, ht, Nat.le_trans hle hclock⟩
  · intro _
    exact Option.isSome_iff_exists.2 ⟨t, hbeat⟩
  · intro _
    have hsince : since { r with childClock := now, acknowledged := true, phase := .resting } = t := by
      simp only [since, if_pos, hbeat, Option.getD_some]
    rw [hsince]
    exact (hattached (Or.inr hanswer)).mono (Nat.le_trans hle hclock)
  · intro hack
    exact (hstays 0 (Nat.zero_le now) ((h.attached hack).mono (Nat.zero_le _))).2

/-- Whatever comes next in an exchange that keeps its rhythm, both sides stay in step, and nothing is told. -/
theorem kept_next (home : Address) (h : Kept me s C P site r w) (hne : me ≠ s) {o : Nat × Act} {r' : Rhythm}
    (ho : Next me s C P r o r') : Kept me s C P site r' (w.act site home o.1 o.2) ∧
      Silent me s r w (w.act site home o.1 o.2) := by
  cases ho with
  | heartbeat now hphase hclock hpos hlast hbeat => exact kept_heartbeat h hphase hpos hlast hbeat
  | greeted now t hphase hbeat hclock hoffset harrival => exact kept_greeted h hne hphase hbeat hoffset
  | answered now t hphase hbeat hclock hsoon hoffset => exact kept_answered h hphase hbeat hclock hsoon hoffset
  | checkStale now hclock harrival =>
    have hkeeps : r.arrival.isSome = true →
        SuperPeerSide.Keeps me w.superPeer (SuperPeerSide.perform now w.superPeer .checkStale) := by
      intro hknown
      obtain ⟨u, hu⟩ := Option.isSome_iff_exists.1 hknown
      refine SuperPeerSide.keeps_checkStale fun c hc => ?_
      obtain rfl := Option.some.inj ((h.registered u hu).symm.trans hc)
      have hsoon := harrival u hu
      rw [h.superPeer.2]
      simp only [Child.isStale, longAgo, decide_eq_false_iff_not]
      omega
    refine ⟨⟨h.devoted, h.child, h.superPeer, h.answers, h.beat, h.beaten, h.greeting, h.answering, h.attached, ?_⟩,
      fun _ => .refl s _, fun hknown => (hkeeps hknown).told⟩
    intro u hu
    exact (hkeeps (Option.isSome_iff_exists.2 ⟨u, hu⟩)).child.trans (h.registered u hu)
  | child now op hclock haside =>
    obtain ⟨hdevoted, hkeeps⟩ := ChildSide.keeps_perform h.devoted now haside
    refine ⟨⟨hdevoted, ⟨hkeeps.own.trans h.child.1, hkeeps.config.trans h.child.2⟩, h.superPeer, h.answers, ?_, h.beaten,
      h.greeting, h.answering, fun hack => hkeeps.attached (h.attached hack), h.registered⟩,
      fun _ => hkeeps.told, fun _ => .refl me _⟩
    intro t ht
    obtain ⟨hpos, hlast, hle⟩ := h.beat t ht
    exact ⟨hpos, hlast, Nat.le_trans hle hclock⟩
  | superPeer now op hclock haside hcheck =>
    obtain ⟨hanswers, hkeeps⟩ := SuperPeerSide.keeps_perform h.answers now haside fun hstale => absurd hstale hcheck
    refine ⟨⟨h.devoted, h.child, ⟨hkeeps.own.trans h.superPeer.1, hkeeps.config.trans h.superPeer.2⟩, hanswers, h.beat,
      h.beaten, h.greeting, h.answering, h.attached, fun u hu => hkeeps.child.trans (h.registered u hu)⟩,
      fun _ => .refl s _, fun _ => hkeeps.told⟩

theorem Next.lasting {o : Nat × Act} {r' : Rhythm} (ho : Next me s C P r o r') :
    (r.acknowledged = true → r'.acknowledged = true) ∧ (r.arrival.isSome = true → r'.arrival.isSome = true) := by
  cases ho <;> exact ⟨fun h => by first | exact h | rfl, fun h => by first | exact h | rfl⟩

theorem kept_course (home : Address) (h : Kept me s C P site r w) (hne : me ≠ s) {acts : List (Nat × Act)} {r' : Rhythm}
    (hacts : Course me s C P r acts r') :
    Kept me s C P site r' (w.run site home acts) ∧ Silent me s r w (w.run site home acts) ∧
      (r.acknowledged = true → r'.acknowledged = true) := by
  induction hacts generalizing w with
  | nil r => exact ⟨h, .refl r w, id⟩
  | cons ho hrest ih =>
    obtain ⟨hnext, hsilent⟩ := kept_next home h hne ho
    obtain ⟨hlater, hsilent', hlasting⟩ := ih hnext
    refine ⟨hlater, ⟨?_, ?_⟩, hlasting ∘ ho.lasting.1⟩
    · intro hack
      exact (hsilent.child hack).trans (hsilent'.child (ho.lasting.1 hack))
    · intro harrival
      exact (hsilent.superPeer harrival).trans (hsilent'.superPeer (ho.lasting.2 harrival))

theorem kept_start (site : Address) (hone : C.superPeers.entries = [(s, home)]) (hne : me ≠ s) :
    Kept me s C P site {} (.start me s C P) := by
  refine ⟨⟨⟨.ofAddress home, ?_⟩, nofun, fun _ hm => absurd hm List.not_mem_nil⟩, ⟨rfl, rfl⟩, ⟨rfl, rfl⟩,
    fun _ hm => absurd hm List.not_mem_nil, nofun, nofun, nofun, nofun, nofun, nofun⟩
  have hkeep : (C.superPeers.filter fun key _ => key ≠ me).entries = [(s, home)] := by
    simp [Table.filter, hone, Ne.symm hne]
  exact congrArg (List.map fun e => (e.1, SuperPeer.ofAddress e.2)) hkeep

end Rhythm

namespace Kinship

/-- **Nothing flaps in steady state.**  A child with one super peer and its super peer keep their rhythm, from the start
and for as long as they like: heartbeats, and arrivals of greetings, are at most as far apart as a peer may be silent,
and each greeting is acknowledged before the next one, in less time than that, with stamps that are close enough to the
clocks that they meet; the super peer may look for stale children at any time that is not too long after a greeting, and
both may do other things meanwhile.  Then, from the first acknowledgement on, the child tells nothing of its super peer,
and keeps it as its gateway; and from the first greeting on, the super peer tells nothing of the child. -/
theorem steady (me s : PublicKey) (C P : DiscoveryConfig) (site home : Address) (past later : List (Nat × Act))
    (r r' : Rhythm) (hone : C.superPeers.entries = [(s, home)]) (hne : me ≠ s)
    (hpast : Rhythm.Course me s C P {} past r) (hlater : Rhythm.Course me s C P r later r') :
    let w := (start me s C P).run site home past
    let w' := w.run site home later
    (r.acknowledged = true → w'.child.side.best = some s ∧
      Unconcerned s (w.child.told ChildSide.events) (w'.child.told ChildSide.events)) ∧
    (r.arrival.isSome = true →
      Unconcerned me (w.superPeer.told SuperPeerSide.events) (w'.superPeer.told SuperPeerSide.events)) := by
  obtain ⟨hkept, -, -⟩ := Rhythm.kept_course home (Rhythm.kept_start site hone hne) hne hpast
  obtain ⟨hkept', hsilent, hlasting⟩ := Rhythm.kept_course home hkept hne hlater
  exact ⟨fun hack => ⟨(hkept'.attached (hlasting hack)).best, hsilent.child hack⟩, hsilent.superPeer⟩

def resident : PublicKey := ⟨.filled 32 1⟩

def patron : PublicKey := ⟨.filled 32 2⟩

def residence : Address := .ofV4 10 0 0 1 7

def office : Address := .ofV4 10 0 0 2 7

def bonded : DiscoveryConfig := { superPeers := .ofList [(patron, office)] }

def acquainted : List (Nat × Act) := [(1000, .heartbeat), (1010, .greeted), (1020, .answered)]

/-- The next heartbeat and greeting come as late as they may, and so does the acknowledgement.  Meanwhile the super peer
looks for stale children, and the child is introduced to a peer. -/
def belated : List (Nat × Act) :=
  [(31000, .heartbeat), (31010, .superPeer .checkStale), (31010, .greeted),
    (31020, .child (.receive patron (.unite ⟨.filled 32 3⟩ residence) office)), (60999, .answered), (61000, .heartbeat)]

/-- With a silence of up to thirty seconds, nothing is told. -/
theorem steady_belated :
    let w := (start resident patron bonded {}).run residence office acquainted
    let w' := w.run residence office belated
    w.child.told ChildSide.events = [.superPeerChanged (some patron), .pathAdded patron office .superPeer] ∧
      w.superPeer.told SuperPeerSide.events = [.pathAdded resident residence .children] ∧
      w'.child.side.best = some patron ∧
      Unconcerned patron (w.child.told ChildSide.events) (w'.child.told ChildSide.events) ∧
      Unconcerned resident (w.superPeer.told SuperPeerSide.events) (w'.superPeer.told SuperPeerSide.events) := by
  have hpast : ∃ r, Rhythm.Course resident patron bonded {} {} acquainted r ∧ r.acknowledged = true ∧
      r.arrival.isSome = true ∧ ∃ r', Rhythm.Course resident patron bonded {} r belated r' := by
    refine ⟨_, .cons (.heartbeat 1000 rfl (by decide) (by decide) (by decide) nofun)
      (.cons (.greeted 1010 1000 rfl rfl (by decide) (by decide) nofun)
      (.cons (.answered 1020 1000 rfl rfl (by decide) (by decide) (by decide)) (.nil _))), rfl, rfl, _,
      .cons (.heartbeat 31000 rfl (by decide) (by decide) (by decide) ?_)
      (.cons (.checkStale 31010 (by decide) ?_) (.cons (.greeted 31010 31000 rfl rfl (by decide) (by decide) ?_)
      (.cons (.child 31020 _ (by decide) ⟨nofun, nofun⟩)
      (.cons (.answered 60999 31000 rfl rfl (by decide) (by decide) (by decide))
      (.cons (.heartbeat 61000 rfl (by decide) (by decide) (by decide) ?_) (.nil _))))))⟩
    all_goals
      rintro t ⟨⟩
      decide
  obtain ⟨r, hpast, hack, harrival, r', hlater⟩ := hpast
  obtain ⟨hchild, hsuperPeer⟩ := steady resident patron bonded {} residence office acquainted belated r r'
    (by decide) (by decide) hpast hlater
  exact ⟨by decide +kernel, by decide +kernel, (hchild hack).1, (hchild hack).2, hsuperPeer harrival⟩

end Kinship

end Overlay
