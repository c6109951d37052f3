import Overlay.Proofs.Conversation.Basic
import Overlay.Proofs.Discovery.Rendezvous

/-!
# Two children meet

A super peer relays an envelope from one of its children to another, and introduces them to each other.  From then on
both try to reach the other, each on its own: a greeting that comes before the introduction is ignored, and both greet
and answer at once.  Messages are neither lost nor forged, but they may be delivered in any order (`Meeting.Act`).

What is under way between the two is an introduction, a greeting, or the answer to a greeting (`Scene.Proper`), and
each of them is worth something to one of the children.  A child knows the other one or its introduction is still under
way (`Meeting.Introduced`).  Once both know each other, a child that has greeted the other one has a confirmed path, or
its greeting or the answer to it is still under way (`Meeting.Asked`).  Both stay true whatever is delivered next
(`Meeting.Progress`).  So after everything is delivered both know each other, and if both greet each other once more,
then after everything is delivered again both paths are confirmed (`Meeting.rendezvous`).
-/

namespace Overlay

def DiscoveryMessage.stamp? : DiscoveryMessage → Option UInt64
  | .hello time _ | .acknowledgement time => some time
  | .unite _ _ | .application _ => none

/-- A message has no stamp, or one that is close enough to the clock. -/
def DiscoveryConfig.Admits (c : DiscoveryConfig) (now : Nat) (m : DiscoveryMessage) : Prop :=
  ∀ time ∈ m.stamp?, c.withinTimeOffset time.toNat now = true

instance (c : DiscoveryConfig) (now : Nat) (m : DiscoveryMessage) : Decidable (c.Admits now m) :=
  Option.decidableForallMem m.stamp?

/-- An introduction may make a child greet another one, and a greeting may be answered. -/
def DiscoveryMessage.burden : DiscoveryMessage → Nat
  | .unite _ _ => 3
  | .hello _ _ => 2
  | .acknowledgement _ | .application _ => 1

/-- A message under way, with who has sent it and from where. -/
structure Packet where
  sender : PublicKey
  origin : Address
  out : Outbound
deriving DecidableEq

/-- Two children and their super peer: who they are, where they are, the settings of the children, and when it starts
on the clock of each child. -/
structure Scene where
  key : Side → PublicKey
  site : Side → Address
  superPeer : PublicKey
  home : Address
  config : Side → DiscoveryConfig
  start : Side → Nat

namespace Scene

def addressee (Z : Scene) (m : Outbound) : Option Side :=
  [Side.left, Side.right].find? fun σ => m.recipient = Z.key σ ∧ m.addr = Z.site σ

/-- The three are different ones, and no clock stands at zero. -/
structure Proper (Z : Scene) : Prop where
  children : ∀ σ, Z.key σ ≠ Z.key σ.other
  superPeer : ∀ σ, Z.key σ ≠ Z.superPeer
  start : ∀ σ, 0 < Z.start σ

def introduction (Z : Scene) (σ : Side) : Packet :=
  ⟨Z.superPeer, Z.home, Z.key σ, Z.site σ, .unite (Z.key σ.other) (Z.site σ.other)⟩

def greeting (Z : Scene) (σ : Side) (time : UInt64) : Packet :=
  ⟨Z.key σ, Z.site σ, Z.key σ.other, Z.site σ.other, .hello time 0⟩

def answer (Z : Scene) (σ : Side) (time : UInt64) : Packet :=
  ⟨Z.key σ.other, Z.site σ.other, Z.key σ, Z.site σ, .acknowledgement time⟩

/-- A packet for one of the children is not from the other one, and does not introduce anyone. -/
def Aside (Z : Scene) (m : Packet) : Prop :=
  ∀ σ, m.out.recipient = Z.key σ → m.sender ≠ Z.key σ.other ∧ ∀ peer addr, m.out.message ≠ .unite peer addr

/-- What may be under way. -/
inductive Carries (Z : Scene) : Packet → Prop where
  | introduction (σ : Side) : Carries Z (Z.introduction σ)
  | greeting (σ : Side) (time : UInt64) (htime : Z.start σ ≤ time.toNat) : Carries Z (Z.greeting σ time)
  | answer (σ : Side) (time : UInt64) (htime : Z.start σ ≤ time.toNat) : Carries Z (Z.answer σ time)
  | aside (m : Packet) (hm : Z.Aside m) : Carries Z m

variable {Z : Scene} {σ : Side} {m : Outbound}

theorem greeting_other (Z : Scene) (σ : Side) (time : UInt64) : Z.greeting σ.other time =
    ⟨Z.key σ.other, Z.site σ.other, Z.key σ, Z.site σ, .hello time 0⟩ := by rw [greeting, Side.other_other]

theorem answer_other (Z : Scene) (σ : Side) (time : UInt64) : Z.answer σ.other time =
    ⟨Z.key σ, Z.site σ, Z.key σ.other, Z.site σ.other, .acknowledgement time⟩ := by rw [answer, Side.other_other]

theorem Proper.key_injective (hZ : Z.Proper) {σ τ : Side} (h : Z.key σ = Z.key τ) : σ = τ := by
  rcases Side.eq_or_eq_other τ σ with rfl | rfl
  · rfl
  · exact absurd h.symm (hZ.children τ)

theorem of_addressee (h : Z.addressee m = some σ) : m.recipient = Z.key σ ∧ m.addr = Z.site σ :=
  of_decide_eq_true (List.find?_some (p := fun σ => m.recipient = Z.key σ ∧ m.addr = Z.site σ) h)

theorem Proper.addressee (hZ : Z.Proper) (hkey : m.recipient = Z.key σ) (hsite : m.addr = Z.site σ) :
    Z.addressee m = some σ := by
  have hsome : (Z.addressee m).isSome = true := by
    rw [Scene.addressee, List.find?_isSome]
    refine ⟨σ, ?_, decide_eq_true ⟨hkey, hsite⟩⟩
    cases σ <;> decide
  obtain ⟨τ, hτ⟩ := Option.isSome_iff_exists.1 hsome
  rw [hτ, hZ.key_injective ((of_addressee hτ).1.symm.trans hkey)]

theorem Proper.aside (hZ : Z.Proper) (hrecipient : m.recipient ≠ Z.key σ.other)
    (hunite : ∀ peer addr, m.message ≠ .unite peer addr) : Z.Carries ⟨Z.key σ, Z.site σ, m⟩ := by
  refine .aside _ fun τ hτ => ⟨?_, hunite⟩
  rcases Side.eq_or_eq_other σ τ with rfl | rfl
  · exact hZ.children τ
  · exact absurd hτ hrecipient

end Scene

/-- Two children and their super peer at work, and what is under way. -/
structure Meeting where
  child : Side → ChildSide
  superPeer : SuperPeerSide
  wire : List Packet

namespace Meeting

/-- What can happen.  Any message that is under way can be the next that is delivered. -/
inductive Act where
  | heartbeat (σ : Side)
  | deliver (i : Nat)
deriving DecidableEq

def settle (Z : Scene) (w : Meeting) (σ : Side) (c : ChildSide) : Meeting :=
  { w with
    child := Function.update w.child σ c.drainOutbox.2
    wire := w.wire ++ c.drainOutbox.1.map (Packet.mk (Z.key σ) (Z.site σ)) }

def settleSuperPeer (Z : Scene) (w : Meeting) (s : SuperPeerSide) : Meeting :=
  { w with
    superPeer := s.drainOutbox.2
    wire := w.wire ++ s.drainOutbox.1.map (Packet.mk Z.superPeer Z.home) }

/-- A packet reaches a child, or the super peer, which only cares for greetings; or none of the three. -/
def take (Z : Scene) (now : Nat) (w : Meeting) (m : Packet) : Meeting :=
  match Z.addressee m.out with
  | some σ => w.settle Z σ ((w.child σ).receive now m.sender m.out.message m.origin).2
  | none =>
    match m.out.message with
    | .hello time childrenTime =>
      if m.out.recipient = Z.superPeer ∧ m.out.addr = Z.home then
        w.settleSuperPeer Z (w.superPeer.greeted now m.sender time childrenTime m.origin).2
      else w
    | _ => w

def act (Z : Scene) (w : Meeting) (o : Nat × Act) : Meeting :=
  match o.2 with
  | .heartbeat σ => w.settle Z σ ((w.child σ).heartbeat o.1)
  | .deliver i =>
    match w.wire[i]? with
    | some m => take Z o.1 { w with wire := w.wire.eraseIdx i } m
    | none => w

def run (Z : Scene) (w : Meeting) (acts : List (Nat × Act)) : Meeting := acts.foldl (act Z) w

def relay (Z : Scene) (now : Nat) (e : Envelope) (w : Meeting) : Meeting :=
  w.settleSuperPeer Z (w.superPeer.relay now e).2

/-- An act is in time: not so long after the start that a path is stale, and with a stamp of the other child that is close
enough to the clock that it meets. -/
def InTime (Z : Scene) (w : Meeting) (o : Nat × Act) : Prop :=
  match o.2 with
  | .heartbeat σ => (Z.config σ).Spans (Z.start σ) o.1
  | .deliver i => ∀ m ∈ w.wire[i]?, ∀ σ ∈ Z.addressee m.out, (Z.config σ).Spans (Z.start σ) o.1 ∧
      (m.sender = Z.key σ.other → (Z.config σ).Admits o.1 m.out.message)

instance (Z : Scene) (w : Meeting) : (o : Nat × Act) → Decidable (w.InTime Z o)
  | (now, .heartbeat σ) => inferInstanceAs (Decidable ((Z.config σ).Spans (Z.start σ) now))
  | (now, .deliver i) => inferInstanceAs (Decidable (∀ m ∈ w.wire[i]?, ∀ σ ∈ Z.addressee m.out,
      (Z.config σ).Spans (Z.start σ) now ∧ (m.sender = Z.key σ.other → (Z.config σ).Admits now m.out.message)))

def Timely (Z : Scene) (w : Meeting) : List (Nat × Act) → Prop
  | [] => True
  | o :: rest => w.InTime Z o ∧ (w.act Z o).Timely Z rest

instance decidableTimely (Z : Scene) : (w : Meeting) → (acts : List (Nat × Act)) → Decidable (w.Timely Z acts)
  | _, [] => isTrue trivial
  | w, o :: rest => @instDecidableAnd _ _ _ (decidableTimely Z (w.act Z o) rest)

variable {Z : Scene} {w w' w'' : Meeting} {σ : Side} {c : ChildSide} {past : Side → List Address} {now : Nat}
  {x : Option Packet} {rest : List Packet}

theorem timely_append {acts later : List (Nat × Act)} :
    w.Timely Z (acts ++ later) ↔ w.Timely Z acts ∧ (w.run Z acts).Timely Z later := by
  induction acts generalizing w with
  | nil => exact (iff_of_eq (true_and _)).symm
  | cons o rest ih => exact (and_congr_right' ih).trans and_assoc.symm

/-! ### What each child knows -/

def Knows (Z : Scene) (w : Meeting) (σ : Side) : Prop := (w.child σ).Knows (Z.key σ.other)

def Confirms (Z : Scene) (w : Meeting) (σ : Side) : Prop := (w.child σ).confirms (Z.key σ.other) = true

/-- A child knows the other one, or is being introduced. -/
def Introduced (Z : Scene) (w : Meeting) (σ : Side) : Prop := w.Knows Z σ ∨ Z.introduction σ ∈ w.wire

/-- The path of a child is confirmed, or it has asked for that. -/
def Asked (Z : Scene) (w : Meeting) (σ : Side) : Prop :=
  w.Confirms Z σ ∨ ∃ time, Z.greeting σ time ∈ w.wire ∨ Z.answer σ time ∈ w.wire

/-- Both children seek each other, and what is under way has to do with that, or with neither. -/
structure Fits (Z : Scene) (past : Side → List Address) (w : Meeting) : Prop where
  config : ∀ σ, (w.child σ).config = Z.config σ
  outbox : ∀ σ, (w.child σ).outbox = []
  seeks : ∀ σ, (w.child σ).Seeks Z.superPeer (Z.key σ.other) (Z.site σ.other) (Z.start σ) (past σ)
  superPeer : w.superPeer.outbox = []
  packets : ∀ m ∈ w.wire, Z.Carries m

theorem child_settle (Z : Scene) (w : Meeting) (σ : Side) (c : ChildSide) :
    (w.settle Z σ c).child σ = c.drainOutbox.2 := Function.update_self _ _ _

theorem forall_settle {P : Side → ChildSide → Prop} (hp : ∀ τ, P τ (w.child τ)) (hσ : P σ c.drainOutbox.2) (τ : Side) :
    P τ ((w.settle Z σ c).child τ) := by
  by_cases hτ : τ = σ
  · subst hτ
    rwa [child_settle]
  · have hchild : (w.settle Z σ c).child τ = w.child τ := Function.update_of_ne hτ _ _
    rw [hchild]
    exact hp τ

theorem mem_settle {m : Packet} : m ∈ (w.settle Z σ c).wire ↔
    m ∈ w.wire ∨ ∃ out ∈ c.outbox, m = ⟨Z.key σ, Z.site σ, out⟩ := by
  rw [settle, List.mem_append, List.mem_map]
  simp only [ChildSide.drainOutbox, eq_comm]

theorem Fits.settle (h : Fits Z past w) (hremains : (w.child σ).Remains c)
    (hseeks : c.Seeks Z.superPeer (Z.key σ.other) (Z.site σ.other) (Z.start σ) (past σ))
    (hpackets : ∀ m ∈ c.outbox, Z.Carries ⟨Z.key σ, Z.site σ, m⟩) : Fits Z past (w.settle Z σ c) where
  config := forall_settle (P := fun τ c => c.config = Z.config τ) h.config (hremains.config.trans (h.config σ))
  outbox := forall_settle (P := fun _ c => c.outbox = []) h.outbox rfl
  seeks := forall_settle
    (P := fun τ c => c.Seeks Z.superPeer (Z.key τ.other) (Z.site τ.other) (Z.start τ) (past τ)) h.seeks
    ⟨hseeks.superPeer, hseeks.peer, hseeks.own, hseeks.room, hseeks.record, hseeks.told⟩
  superPeer := h.superPeer
  packets m hm := by
    rcases mem_settle.1 hm with hm | ⟨out, hout, rfl⟩
    · exact h.packets m hm
    · exact hpackets out hout

theorem Fits.erase (h : Fits Z past w) (i : Nat) : Fits Z past { w with wire := w.wire.eraseIdx i } :=
  ⟨h.config, h.outbox, h.seeks, h.superPeer, fun m hm => h.packets m (List.mem_of_mem_eraseIdx hm)⟩

/-! ### Progress -/

/-- Whatever happens, nothing is given up that has been reached, or that is under way. -/
structure Progress (Z : Scene) (past : Side → List Address) (w w' : Meeting) : Prop where
  fits : Fits Z past w'
  knows : ∀ σ, w.Knows Z σ → w'.Knows Z σ
  introduced : ∀ σ, w.Introduced Z σ → w'.Introduced Z σ
  asked : (∀ σ, w.Knows Z σ) → ∀ σ, w.Asked Z σ → w'.Asked Z σ

theorem Progress.refl (h : Fits Z past w) : Progress Z past w w := ⟨h, fun _ => id, fun _ => id, fun _ _ => id⟩

theorem Progress.trans (h : Progress Z past w w') (h' : Progress Z past w' w'') : Progress Z past w w'' :=
  ⟨h'.fits, fun σ => h'.knows σ ∘ h.knows σ, fun σ => h'.introduced σ ∘ h.introduced σ,
    fun hknow σ => h'.asked (fun τ => h.knows τ (hknow τ)) σ ∘ h.asked hknow σ⟩

/-- What both know is kept, and what is under way but for one packet. -/
structure Loses (Z : Scene) (x : Option Packet) (w w' : Meeting) : Prop where
  knows : ∀ σ, w.Knows Z σ → w'.Knows Z σ
  confirms : ∀ σ, w.Confirms Z σ → w'.Confirms Z σ
  wire : ∀ m ∈ w.wire, some m ≠ x → m ∈ w'.wire

theorem loses_settle (hrest : ∀ m ∈ w.wire, some m ≠ x → m ∈ rest)
    (hknows : w.Knows Z σ → c.Knows (Z.key σ.other))
    (hconfirms : w.Confirms Z σ → c.confirms (Z.key σ.other) = true) :
    Loses Z x w (settle Z { w with wire := rest } σ c) where
  knows := forall_settle (w := { w with wire := rest })
    (P := fun τ c => w.Knows Z τ → c.Knows (Z.key τ.other)) (fun _ => id) hknows
  confirms := forall_settle (w := { w with wire := rest })
    (P := fun τ c => w.Confirms Z τ → c.confirms (Z.key τ.other) = true) (fun _ => id) hconfirms
  wire m hm hx := mem_settle.2 (Or.inl (hrest m hm hx))

/-- A packet may be lost if it has done its work. -/
theorem Loses.progress (hl : Loses Z x w w') (hfits : Fits Z past w')
    (hintroduction : ∀ σ, x = some (Z.introduction σ) → w'.Knows Z σ)
    (hgreeting : ∀ σ time, x = some (Z.greeting σ time) → (∀ τ, w.Knows Z τ) → Z.answer σ time ∈ w'.wire)
    (hanswer : ∀ σ time, x = some (Z.answer σ time) → (∀ τ, w.Knows Z τ) → w'.Confirms Z σ) :
    Progress Z past w w' := by
  refine ⟨hfits, hl.knows, ?_, ?_⟩
  · rintro σ (hknows | hmem)
    · exact Or.inl (hl.knows σ hknows)
    · by_cases hx : some (Z.introduction σ) = x
      · exact Or.inl (hintroduction σ hx.symm)
      · exact Or.inr (hl.wire _ hmem hx)
  · rintro hknow σ (hconfirms | ⟨time, hmem | hmem⟩)
    · exact Or.inl (hl.confirms σ hconfirms)
    · by_cases hx : some (Z.greeting σ time) = x
      · exact Or.inr ⟨time, Or.inr (hgreeting σ time hx.symm hknow)⟩
      · exact Or.inr ⟨time, Or.inl (hl.wire _ hmem hx)⟩
    · by_cases hx : some (Z.answer σ time) = x
      · exact Or.inl (hanswer σ time hx.symm hknow)
      · exact Or.inr ⟨time, Or.inr (hl.wire _ hmem hx)⟩

theorem mem_eraseIdx_of_ne {l : List Packet} {i : Nat} {m m' : Packet} (hm : l[i]? = some m) (hmem : m' ∈ l)
    (hne : m' ≠ m) : m' ∈ l.eraseIdx i := by
  obtain ⟨hlt, rfl⟩ := List.getElem?_eq_some_iff.1 hm
  exact (List.mem_cons.1 ((List.getElem_cons_eraseIdx_perm hlt).mem_iff.2 hmem)).resolve_left hne

/-! #### Each act -/

theorem progress_heartbeat (hZ : Z.Proper) (h : Fits Z past w) (hspans : (Z.config σ).Spans (Z.start σ) now) :
    Progress Z past w (w.act Z (now, .heartbeat σ)) ∧
      (w.Knows Z σ → (w.act Z (now, .heartbeat σ)).Asked Z σ) := by
  have hstamp : (UInt64.ofNat now).toNat = now := toNat_stamp hspans.2.2.2
  obtain ⟨hpasses, hgreets, hsends⟩ :=
    ChildSide.seeks_heartbeat (h.seeks σ) (hZ.start σ) ((h.config σ).symm ▸ hspans)
  have hpackets : ∀ m ∈ ((w.child σ).heartbeat now).outbox, Z.Carries ⟨Z.key σ, Z.site σ, m⟩ := by
    intro m hm
    rcases hsends m hm with hbefore | rfl | ⟨hne, time, childrenTime, hhello⟩
    · rw [h.outbox σ] at hbefore
      cases hbefore
    · exact .greeting σ (.ofNat now) (hstamp.symm ▸ hspans.1)
    · refine hZ.aside hne fun peer addr hunite => ?_
      cases hhello.symm.trans hunite
  have hloses : Loses Z none w (w.act Z (now, .heartbeat σ)) :=
    loses_settle (fun m hm _ => hm) hpasses.knows.2 fun hconfirms => hpasses.confirms.trans hconfirms
  refine ⟨hloses.progress (h.settle hpasses.toRemains ((h.seeks σ).passes hpasses) hpackets) nofun nofun nofun, ?_⟩
  intro hknows
  exact Or.inr ⟨.ofNat now, Or.inl (mem_settle.2 (Or.inr ⟨_, hgreets hknows, rfl⟩))⟩

/-- A child takes a packet, and all goes on if the packet has done its work then. -/
theorem progress_receive {i : Nat} {m : Packet} (h : Fits Z past w) (hm : w.wire[i]? = some m)
    (haddressee : Z.addressee m.out = some σ)
    (hc : ((w.child σ).receive now m.sender m.out.message m.origin).2 = c) (hremains : (w.child σ).Remains c)
    (hseeks : c.Seeks Z.superPeer (Z.key σ.other) (Z.site σ.other) (Z.start σ) (past σ))
    (hknows : w.Knows Z σ → c.Knows (Z.key σ.other))
    (hconfirms : w.Confirms Z σ → c.confirms (Z.key σ.other) = true)
    (hpackets : ∀ m ∈ c.outbox, Z.Carries ⟨Z.key σ, Z.site σ, m⟩)
    (hintroduction : ∀ τ, m = Z.introduction τ → τ = σ ∧ c.Knows (Z.key σ.other))
    (hgreeting : ∀ τ time, m = Z.greeting τ time → w.Knows Z σ →
      ∃ out ∈ c.outbox, Z.answer τ time = ⟨Z.key σ, Z.site σ, out⟩)
    (hanswer : ∀ τ time, m = Z.answer τ time → w.Knows Z σ → τ = σ ∧ c.confirms (Z.key σ.other) = true) :
    Progress Z past w (w.act Z (now, .deliver i)) := by
  have hact : w.act Z (now, .deliver i) = settle Z { w with wire := w.wire.eraseIdx i } σ c := by
    simp only [act, hm, take, haddressee, hc]
  rw [hact]
  have hloses := loses_settle (Z := Z) (x := some m) (σ := σ)
    (fun m' hmem hne => mem_eraseIdx_of_ne hm hmem fun heq => hne (congrArg some heq)) hknows hconfirms
  refine hloses.progress ((h.erase i).settle hremains hseeks hpackets) ?_ ?_ ?_
  · intro τ hτ
    obtain ⟨rfl, hknown⟩ := hintroduction τ (Option.some.inj hτ)
    rw [Meeting.Knows, child_settle]
    exact hknown
  · intro τ time hτ hknow
    exact mem_settle.2 (Or.inr (hgreeting τ time (Option.some.inj hτ) (hknow σ)))
  · intro τ time hτ hknow
    obtain ⟨rfl, hconfirmed⟩ := hanswer τ time (Option.some.inj hτ) (hknow σ)
    rw [Meeting.Confirms, child_settle]
    exact hconfirmed

variable {i : Nat} {time : UInt64}

theorem progress_introduction (hZ : Z.Proper) (h : Fits Z past w) (hm : w.wire[i]? = some (Z.introduction σ))
    (hspans : (Z.config σ).Spans (Z.start σ) now) : Progress Z past w (w.act Z (now, .deliver i)) := by
  obtain ⟨hseeks, hremains, hknows, hconfirms, houtbox⟩ := ChildSide.seeks_introduced (h.seeks σ) hspans.1
  refine progress_receive h hm (hZ.addressee rfl rfl) rfl hremains hseeks (fun _ => hknows) hconfirms ?_ ?_ ?_ ?_
  · intro m hm
    rw [Scene.introduction, ChildSide.receive, houtbox, h.outbox σ, List.nil_append] at hm
    rw [List.mem_singleton.1 hm]
    exact .greeting σ (.ofNat now) ((toNat_stamp hspans.2.2.2).symm ▸ hspans.1)
  · intro τ hτ
    exact ⟨hZ.key_injective (congrArg (fun m : Packet => m.out.recipient) hτ).symm, hknows⟩
  · intro τ time hτ
    simp [Scene.introduction, Scene.greeting] at hτ
  · intro τ time hτ
    simp [Scene.introduction, Scene.answer] at hτ

theorem progress_greeting (hZ : Z.Proper) (h : Fits Z past w) (hm : w.wire[i]? = some (Z.greeting σ.other time))
    (htime : Z.start σ.other ≤ time.toNat) (hoffset : (Z.config σ).withinTimeOffset time.toNat now = true) :
    Progress Z past w (w.act Z (now, .deliver i)) := by
  obtain ⟨hpasses, hknown, hunknown⟩ :=
    ChildSide.seeks_greetedOnPath (h.seeks σ) ((h.config σ).symm ▸ hoffset)
  have hanswer := Scene.answer_other Z σ time
  rw [Scene.greeting_other] at hm
  refine progress_receive h hm (hZ.addressee rfl rfl) rfl hpasses.toRemains ((h.seeks σ).passes hpasses) hpasses.knows.2
    (fun hconfirms => hpasses.confirms.trans hconfirms) ?_ ?_ ?_ ?_
  · intro m hm
    by_cases hknows : w.Knows Z σ
    · rw [ChildSide.receive, hknown hknows, h.outbox σ, List.nil_append] at hm
      rw [List.mem_singleton.1 hm, ← hanswer]
      exact .answer σ.other time htime
    · rw [ChildSide.receive, hunknown hknows, h.outbox σ] at hm
      cases hm
  · intro τ hτ
    simp [Scene.introduction] at hτ
  · intro τ time' hτ hknows
    have hsender : τ = σ.other := hZ.key_injective (congrArg Packet.sender hτ).symm
    subst hsender
    have hmessage := congrArg (fun m : Packet => m.out.message) hτ
    cases hmessage
    refine ⟨_, ?_, hanswer⟩
    rw [ChildSide.receive, hknown hknows]
    exact List.mem_append_right _ List.mem_cons_self
  · intro τ time' hτ
    simp [Scene.answer] at hτ

theorem progress_answer (hZ : Z.Proper) (h : Fits Z past w) (hm : w.wire[i]? = some (Z.answer σ time))
    (htime : Z.start σ ≤ time.toNat) (hspans : (Z.config σ).Spans (Z.start σ) now)
    (hoffset : (Z.config σ).withinTimeOffset time.toNat now = true) :
    Progress Z past w (w.act Z (now, .deliver i)) := by
  have hfresh := (h.config σ).symm ▸ hspans.acknowledgementFresh (hZ.start σ) htime hoffset
  obtain ⟨hseeks, hremains, hknown, hconfirms, houtbox⟩ :=
    ChildSide.seeks_acknowledgedOnPath (h.seeks σ) (hZ.start σ) hspans.1 hfresh
  have hreceive : ((w.child σ).receive now (Z.key σ.other) (.acknowledgement time) (Z.site σ.other)).2 =
      ((w.child σ).acknowledgedOnPath now (Z.key σ.other) time (Z.site σ.other)).2 := by
    rw [ChildSide.receive, if_neg (by rw [(h.seeks σ).peer]; exact Bool.false_ne_true)]
  refine progress_receive h hm (hZ.addressee rfl rfl) hreceive hremains hseeks (fun hk => (hknown hk).1) hconfirms
    ?_ ?_ ?_ ?_
  · intro m hm
    rw [houtbox, h.outbox σ] at hm
    cases hm
  · intro τ hτ
    simp [Scene.introduction, Scene.answer] at hτ
  · intro τ time' hτ
    simp [Scene.greeting, Scene.answer] at hτ
  · intro τ time' hτ hknows
    exact ⟨hZ.key_injective (congrArg (fun m : Packet => m.out.recipient) hτ).symm, (hknown hknows).2⟩

theorem Fits.settleSuperPeer (h : Fits Z past w) {s : SuperPeerSide}
    (hpackets : ∀ m ∈ s.outbox, Z.Carries ⟨Z.superPeer, Z.home, m⟩) : Fits Z past (w.settleSuperPeer Z s) := by
  refine ⟨h.config, h.outbox, h.seeks, rfl, fun m hm => ?_⟩
  rcases List.mem_append.1 hm with hm | hm
  · exact h.packets m hm
  · obtain ⟨out, hout, rfl⟩ := List.mem_map.1 hm
    exact hpackets out hout

theorem progress_elsewhere (hZ : Z.Proper) (h : Fits Z past w) {m : Packet} (hm : w.wire[i]? = some m)
    (hnone : Z.addressee m.out = none) : Progress Z past w (w.act Z (now, .deliver i)) := by
  have hcase : w.act Z (now, .deliver i) = { w with wire := w.wire.eraseIdx i } ∨ ∃ s : SuperPeerSide,
      (∀ out ∈ s.outbox, ∃ time, out.message = .acknowledgement time) ∧
        w.act Z (now, .deliver i) = settleSuperPeer Z { w with wire := w.wire.eraseIdx i } s := by
    simp only [act, hm, take, hnone]
    split
    · rename_i time childrenTime hhello
      split
      · refine Or.inr ⟨_, ?_, rfl⟩
        intro out hout
        rcases w.superPeer.outbox_greeted now m.sender time childrenTime m.origin with hno | hyes
        · rw [hno, h.superPeer] at hout
          cases hout
        · rw [hyes, h.superPeer, List.nil_append, List.mem_singleton] at hout
          exact ⟨time, hout ▸ rfl⟩
      · exact Or.inl rfl
    · exact Or.inl rfl
  have hkept : ∀ m' ∈ w.wire, some m' ≠ some m → m' ∈ w.wire.eraseIdx i :=
    fun m' hmem hne => mem_eraseIdx_of_ne hm hmem fun heq => hne (congrArg some heq)
  have hgoes : Fits Z past (w.act Z (now, .deliver i)) ∧ Loses Z (some m) w (w.act Z (now, .deliver i)) := by
    rcases hcase with heq | ⟨s, hanswers, heq⟩
    · rw [heq]
      exact ⟨h.erase i, fun _ => id, fun _ => id, hkept⟩
    · rw [heq]
      refine ⟨(h.erase i).settleSuperPeer fun out hout => .aside _ fun σ _ => ⟨hZ.superPeer _ ∘ Eq.symm, ?_⟩,
        fun _ => id, fun _ => id, fun m' hmem hne => List.mem_append_left _ (hkept m' hmem hne)⟩
      intro peer addr hunite
      obtain ⟨time, hack⟩ := hanswers out hout
      cases hack.symm.trans hunite
  have hmissed : ∀ {m' : Packet} (σ : Side), m'.out.recipient = Z.key σ → m'.out.addr = Z.site σ → some m ≠ some m' := by
    intro m' σ hkey hsite heq
    rw [Option.some.inj heq, hZ.addressee hkey hsite] at hnone
    cases hnone
  exact hgoes.2.progress hgoes.1 (fun τ hτ => absurd hτ (hmissed τ rfl rfl))
    (fun τ _ hτ => absurd hτ (hmissed τ.other rfl rfl)) (fun τ _ hτ => absurd hτ (hmissed τ rfl rfl))

theorem progress_aside (hZ : Z.Proper) (h : Fits Z past w) {m : Packet} (hm : w.wire[i]? = some m) (haside : Z.Aside m) :
    Progress Z past w (w.act Z (now, .deliver i)) := by
  cases haddressee : Z.addressee m.out with
  | none => exact progress_elsewhere hZ h hm haddressee
  | some σ =>
    obtain ⟨hrecipient, -⟩ := Scene.of_addressee haddressee
    obtain ⟨hne, hunite⟩ := haside σ hrecipient
    have hpasses := ChildSide.passes_receive hne hunite (w.child σ) now m.origin
    have houtbox := ChildSide.outbox_receive hunite (w.child σ) now m.sender m.origin
    simp only [h.outbox σ, List.nil_append] at houtbox
    refine progress_receive h hm haddressee rfl hpasses.toRemains ((h.seeks σ).passes hpasses) hpasses.knows.2
      (fun hconfirms => hpasses.confirms.trans hconfirms) ?_ ?_ ?_ ?_
    · intro out hout
      rcases houtbox with hno | ⟨time, childrenTime, -, hyes⟩
      · rw [hno] at hout
        cases hout
      · rw [hyes, List.mem_singleton] at hout
        subst hout
        exact hZ.aside hne nofun
    · rintro τ rfl
      exact absurd rfl (hunite _ _)
    · rintro τ time rfl
      obtain rfl := hZ.key_injective hrecipient
      exact absurd (congrArg Z.key τ.other_other.symm) hne
    · rintro τ time rfl
      obtain rfl := hZ.key_injective hrecipient
      exact absurd rfl hne

/-- Whatever happens in time is progress. -/
theorem progress_act (hZ : Z.Proper) (h : Fits Z past w) {o : Nat × Act} (ho : w.InTime Z o) :
    Progress Z past w (w.act Z o) := by
  obtain ⟨now, act⟩ := o
  cases act with
  | heartbeat σ => exact (progress_heartbeat hZ h ho).1
  | deliver i =>
    cases hm : w.wire[i]? with
    | none =>
      have hsame : w.act Z (now, .deliver i) = w := by simp only [Meeting.act, hm]
      rw [hsame]
      exact .refl h
    | some m =>
      have hin := ho m hm
      cases h.packets m (List.mem_of_getElem? hm) with
      | introduction σ => exact progress_introduction hZ h hm (hin σ (hZ.addressee rfl rfl)).1
      | greeting σ time htime =>
        have hoffset := (hin σ.other (hZ.addressee rfl rfl)).2 (congrArg Z.key σ.other_other.symm) time rfl
        rw [← σ.other_other] at hm htime
        exact progress_greeting hZ h hm htime hoffset
      | answer σ time htime =>
        obtain ⟨hspans, hstamp⟩ := hin σ (hZ.addressee rfl rfl)
        exact progress_answer hZ h hm htime hspans (hstamp rfl time rfl)
      | aside m haside => exact progress_aside hZ h hm haside

theorem progress_run (hZ : Z.Proper) (h : Fits Z past w) {acts : List (Nat × Act)} (hacts : w.Timely Z acts) :
    Progress Z past w (w.run Z acts) := by
  induction acts generalizing w with
  | nil => exact .refl h
  | cons o rest ih =>
    have hfirst := progress_act hZ h hacts.1
    exact hfirst.trans (ih hfirst.fits hacts.2)

/-! ### Deliveries come to an end -/

/-- At most that much can come of all that is under way. -/
def burden (w : Meeting) : Nat := (w.wire.map fun m => m.out.message.burden).sum

/-- Less comes of a packet than it was. -/
theorem wire_deliver (hZ : Z.Proper) (h : Fits Z past w) {m : Packet} (hm : w.wire[i]? = some m)
    (hin : w.InTime Z (now, .deliver i)) : ∃ news, (w.act Z (now, .deliver i)).wire = w.wire.eraseIdx i ++ news ∧
      (news.map fun m => m.out.message.burden).sum < m.out.message.burden := by
  have hpos : 0 < m.out.message.burden := by cases m.out.message <;> exact Nat.succ_pos _
  have hnone : w.wire.eraseIdx i = w.wire.eraseIdx i ++ [] := (List.append_nil _).symm
  cases haddressee : Z.addressee m.out with
  | none =>
    simp only [act, hm, take, haddressee]
    split
    · rename_i time childrenTime hhello
      split
      · refine ⟨_, rfl, ?_⟩
        simp only [SuperPeerSide.drainOutbox]
        rcases w.superPeer.outbox_greeted now m.sender time childrenTime m.origin with hno | hyes
        · rw [hno, h.superPeer]
          exact hpos
        · rw [hyes, h.superPeer, hhello]
          exact Nat.lt_succ_self 1
      · exact ⟨[], hnone, hpos⟩
    · exact ⟨[], hnone, hpos⟩
  | some σ =>
    have hact : (w.act Z (now, .deliver i)).wire = w.wire.eraseIdx i ++
        ((w.child σ).receive now m.sender m.out.message m.origin).2.outbox.map (Packet.mk (Z.key σ) (Z.site σ)) := by
      simp only [act, hm, take, haddressee]
      rfl
    refine ⟨_, hact, ?_⟩
    by_cases hunite : ∀ peer addr, m.out.message ≠ .unite peer addr
    · rcases ChildSide.outbox_receive hunite (w.child σ) now m.sender m.origin with hno | ⟨time, _, hhello, hyes⟩
      · rw [hno, h.outbox σ]
        exact hpos
      · rw [hyes, h.outbox σ, hhello]
        exact Nat.lt_succ_self 1
    · simp only [not_forall, not_not] at hunite
      obtain ⟨peer, addr, hunite⟩ := hunite
      cases h.packets m (List.mem_of_getElem? hm) with
      | introduction τ =>
        obtain rfl := hZ.key_injective (Scene.of_addressee haddressee).1
        have hnow := (hin _ hm τ haddressee).1.1
        have houtbox := (ChildSide.seeks_introduced (h.seeks τ) hnow).2.2.2.2
        rw [Scene.introduction, ChildSide.receive, houtbox, h.outbox τ]
        exact Nat.lt_succ_self 2
      | greeting τ time htime => cases hunite
      | answer τ time htime => cases hunite
      | aside m haside => exact absurd hunite ((haside σ (Scene.of_addressee haddressee).1).2 peer addr)

theorem burden_deliver (hZ : Z.Proper) (h : Fits Z past w) {m : Packet} (hm : w.wire[i]? = some m)
    (hin : w.InTime Z (now, .deliver i)) : (w.act Z (now, .deliver i)).burden < w.burden := by
  obtain ⟨news, hwire, hless⟩ := wire_deliver hZ h hm hin
  obtain ⟨hlt, hget⟩ := List.getElem?_eq_some_iff.1 hm
  have hsum : w.burden = m.out.message.burden + ((w.wire.eraseIdx i).map fun m => m.out.message.burden).sum := by
    rw [← hget]
    exact ((List.getElem_cons_eraseIdx_perm hlt).map fun m : Packet => m.out.message.burden).sum_nat.symm
  rw [hsum, burden, hwire, List.map_append, List.sum_append]
  omega

def Delivers (Z : Scene) (w : Meeting) : List (Nat × Act) → Prop
  | [] => True
  | o :: rest => (∃ i, o.2 = .deliver i ∧ i < w.wire.length) ∧ (w.act Z o).Delivers Z rest

/-- **Deliveries come to an end.**  However the messages that are under way are delivered, with all that comes of them,
there are not more deliveries than what was under way is worth. -/
theorem length_deliveries (hZ : Z.Proper) (h : Fits Z past w) {acts : List (Nat × Act)} (htimely : w.Timely Z acts)
    (hdelivers : w.Delivers Z acts) : acts.length ≤ w.burden := by
  induction acts generalizing w with
  | nil => exact Nat.zero_le _
  | cons o rest ih =>
    obtain ⟨⟨i, ho, hlt⟩, hrest⟩ := hdelivers
    obtain ⟨now, act⟩ := o
    obtain rfl : act = .deliver i := ho
    have hless := burden_deliver hZ h (List.getElem?_eq_getElem hlt) htimely.1
    have hlater := ih (progress_act hZ h htimely.1).fits htimely.2 hrest
    rw [List.length_cons]
    omega

/-! ### The meeting -/

/-- The children are registered at the super peer, which they list, and are there where they are registered.  Neither
knows the other one, as a super peer or on a direct path, and both have room for one more.  Nothing waits to be sent, and
what is under way has to do with neither. -/
structure Ready (Z : Scene) (w : Meeting) : Prop where
  own : ∀ σ, (w.child σ).own = Z.key σ
  config : ∀ σ, (w.child σ).config = Z.config σ
  outbox : ∀ σ, (w.child σ).outbox = []
  superPeers : ∀ σ, (w.child σ).isSuperPeer Z.superPeer = true ∧ (w.child σ).isSuperPeer (Z.key σ.other) = false
  unknown : ∀ σ, (w.child σ).traversing.get? (Z.key σ.other) = none
  room : ∀ σ, (Z.config σ).maxPeers = 0 ∨ (w.child σ).traversing.size < (Z.config σ).maxPeers
  superPeer : w.superPeer.own = Z.superPeer ∧ w.superPeer.outbox = []
  registered : ∀ σ, w.superPeer.route (Z.key σ) = some (Z.site σ)
  wire : ∀ m ∈ w.wire, Z.Aside m

/-- The envelope goes from one of the children to the other, which were not introduced to each other lately. -/
structure Introduces (Z : Scene) (w : Meeting) (now : Nat) (e : Envelope) : Prop where
  ends : ∃ σ, e.sender = Z.key σ ∧ e.recipient = Z.key σ.other
  hops : e.hopCount < w.superPeer.config.hopLimit
  attempts : ∀ attempts, w.superPeer.attempts = some attempts →
    attempts.contains (PublicKey.ordered e.sender e.recipient) now = false

theorem Ready.fits (hZ : Z.Proper) (h : w.Ready Z) :
    Fits Z (fun σ => (w.child σ).toldPaths (Z.key σ.other)) w where
  config := h.config
  outbox := h.outbox
  seeks σ := by
    refine ⟨(h.superPeers σ).1, (h.superPeers σ).2, (h.own σ).symm ▸ (hZ.children σ).symm, ?_, ?_, ?_⟩
    · intro _
      rw [h.config σ]
      exact h.room σ
    · intro r hr
      rw [h.unknown σ] at hr
      cases hr
    · rw [ChildSide.confirmedAddr?, h.unknown σ]
      exact (List.append_nil _).symm
  superPeer := h.superPeer.2
  packets m hm := .aside m (h.wire m hm)

theorem fits_relay (hZ : Z.Proper) (h : w.Ready Z) {e : Envelope} (he : w.Introduces Z now e) :
    Fits Z (fun σ => (w.child σ).toldPaths (Z.key σ.other)) (w.relay Z now e) ∧
      ∀ σ, (w.relay Z now e).Introduced Z σ := by
  obtain ⟨ρ, hsender, hrecipient⟩ := he.ends
  obtain ⟨a, ha, hsite⟩ := Option.map_eq_some_iff.1 (h.registered ρ)
  obtain ⟨b, hb, hsite'⟩ := Option.map_eq_some_iff.1 (h.registered ρ.other)
  have hintroduced : ((w.superPeer.relay now e).2.outbox.map (Packet.mk Z.superPeer Z.home)) =
      [Z.introduction ρ, Z.introduction ρ.other] := by
    rw [SuperPeerSide.outbox_relay (a := a) (b := b) (hsender ▸ ha) (hrecipient ▸ hb)
      (by rw [hrecipient, h.superPeer.1]; exact hZ.superPeer _) (by rw [hsender, hrecipient]; exact hZ.children ρ)
      he.hops he.attempts, h.superPeer.2, hsender, hrecipient, hsite, hsite']
    simp only [List.nil_append, List.map_cons, List.map_nil, Scene.introduction, Side.other_other]
  have hwire : (w.relay Z now e).wire = w.wire ++ [Z.introduction ρ, Z.introduction ρ.other] :=
    congrArg (w.wire ++ ·) hintroduced
  refine ⟨⟨h.config, h.outbox, (h.fits hZ).seeks, rfl, ?_⟩, ?_⟩
  · intro m hm
    rw [hwire, List.mem_append] at hm
    rcases hm with hm | hm
    · exact (h.fits hZ).packets m hm
    · rcases List.mem_cons.1 hm with rfl | hm
      · exact .introduction ρ
      · rw [List.mem_singleton.1 hm]
        exact .introduction ρ.other
  · intro σ
    refine Or.inr ?_
    rw [hwire]
    refine List.mem_append_right _ ?_
    rcases Side.eq_or_eq_other ρ σ with rfl | rfl
    · exact List.mem_cons_self
    · exact List.mem_cons_of_mem _ List.mem_cons_self

theorem run_append (Z : Scene) (w : Meeting) (acts later : List (Nat × Act)) :
    w.run Z (acts ++ later) = (w.run Z acts).run Z later := List.foldl_append

/-- Once both children know each other, a heartbeat is enough for a child to have asked. -/
theorem asked_run (hZ : Z.Proper) (h : Fits Z past w) (hknow : ∀ σ, w.Knows Z σ) {acts : List (Nat × Act)}
    (hacts : w.Timely Z acts) (hbeat : ∃ o ∈ acts, o.2 = .heartbeat σ) : (w.run Z acts).Asked Z σ := by
  obtain ⟨⟨now, _⟩, hmem, rfl⟩ := hbeat
  obtain ⟨before, after, rfl⟩ := List.append_of_mem hmem
  obtain ⟨hbefore, hin, hafter⟩ := timely_append.1 hacts
  have hstart := progress_run hZ h hbefore
  obtain ⟨hprogress, hasks⟩ := progress_heartbeat hZ hstart.fits hin
  rw [run_append]
  exact (progress_run hZ hprogress.fits hafter).asked
    (fun τ => hprogress.knows τ (hstart.knows τ (hknow τ))) σ (hasks (hstart.knows σ (hknow σ)))

/-- **A rendezvous succeeds in every order of delivery.**  The super peer of two children relays an envelope from one to
the other, and they do not know each other yet.  Whatever happens then, in time: if everything is delivered at some
point, in any order, and afterwards each child has a heartbeat and everything is delivered again, then each child has a
confirmed direct path to the other one, which messages for the other one take to where it really is; and it has told of
this path exactly once. -/
theorem rendezvous (Z : Scene) (hZ : Z.Proper) (w : Meeting) (hw : w.Ready Z) (now : Nat) (e : Envelope)
    (he : w.Introduces Z now e) (first second : List (Nat × Act))
    (htimely : (w.relay Z now e).Timely Z (first ++ second))
    (hfirst : ((w.relay Z now e).run Z first).wire = []) (hbeats : ∀ σ, ∃ o ∈ second, o.2 = .heartbeat σ)
    (hsecond : ((w.relay Z now e).run Z (first ++ second)).wire = []) (σ : Side) :
    let c := ((w.relay Z now e).run Z (first ++ second)).child σ
    c.confirms (Z.key σ.other) = true ∧
      (∀ t, (Z.config σ).Spans (Z.start σ) t → (c.route t (Z.key σ.other)).1 = some (Z.site σ.other)) ∧
      c.toldPaths (Z.key σ.other) = (w.child σ).toldPaths (Z.key σ.other) ++ [Z.site σ.other] := by
  obtain ⟨hfits, hintroduced⟩ := fits_relay hZ hw he
  obtain ⟨hearly, hlate⟩ := timely_append.1 htimely
  have hmeet := progress_run hZ hfits hearly
  have hknow : ∀ τ, ((w.relay Z now e).run Z first).Knows Z τ := by
    intro τ
    refine (hmeet.introduced τ (hintroduced τ)).resolve_right fun hmem => ?_
    rw [hfirst] at hmem
    cases hmem
  have hasked := asked_run (σ := σ) hZ hmeet.fits hknow hlate (hbeats σ)
  have hend := progress_run hZ hmeet.fits hlate
  rw [← run_append] at hasked hend
  have hconfirmed : ((w.relay Z now e).run Z (first ++ second)).Confirms Z σ := by
    refine hasked.resolve_right ?_
    rintro ⟨time, hmem | hmem⟩
    all_goals
      rw [hsecond] at hmem
      cases hmem
  have hseeks := hend.fits.seeks σ
  refine ⟨hconfirmed, fun t ht => ?_, ?_⟩
  · exact hseeks.route (hZ.start σ) ((hend.fits.config σ).symm ▸ ht) hconfirmed
  · obtain ⟨r, hr, hyes⟩ := (Option.any_eq_true _ _).1 hconfirmed
    rw [hseeks.told, ChildSide.confirmedAddr?, hr, Option.bind_some, TraversingPeer.confirmedAddr?_of hyes,
      (hseeks.record r hr).current]
    rfl

def pair : Scene where
  key σ := if σ = .left then ⟨.filled 32 1⟩ else ⟨.filled 32 2⟩
  site σ := if σ = .left then .ofV4 10 0 0 1 7 else .ofV4 10 0 0 2 7
  superPeer := ⟨.filled 32 3⟩
  home := .ofV4 10 0 0 3 7
  config _ := { superPeers := .ofList [(⟨.filled 32 3⟩, .ofV4 10 0 0 3 7)] }
  start σ := if σ = .left then 1000 else 1030

def apart : Meeting where
  child σ := .start (pair.key σ) (pair.config σ)
  superPeer := { SuperPeerSide.start pair.superPeer {} with
    children := .ofList [(pair.key .left, ⟨pair.site .left, 900⟩), (pair.key .right, ⟨pair.site .right, 910⟩)] }
  wire := []

def envelope : Envelope := ⟨1, 0, pair.key .left, pair.key .right, ⟨⟨.filled 32 0⟩, .filled 24 0, []⟩⟩

/-- The greeting of the left child is delivered before the right one is introduced, so it is ignored. -/
def overtaken : List (Nat × Act) :=
  [(1000, .deliver 0), (1040, .deliver 1), (1041, .deliver 0), (1010, .deliver 0), (1050, .deliver 0)]

/-- Both have a heartbeat, and what comes of that is delivered in no particular order. -/
def again : List (Nat × Act) :=
  [(2000, .heartbeat .left), (2040, .heartbeat .right), (2050, .deliver 1), (2020, .deliver 2), (2060, .deliver 3),
    (2030, .deliver 2), (2010, .deliver 0), (2040, .deliver 1), (2015, .deliver 0), (2070, .deliver 0)]

/-- After the overtaken greeting only the right child has a path to the other one, and after another heartbeat both do. -/
theorem rendezvous_overtaken :
    let w := apart.relay pair 1000 envelope
    ¬ (w.run pair overtaken).Confirms pair .left ∧ ∀ σ,
      let c := (w.run pair (overtaken ++ again)).child σ
      c.confirms (pair.key σ.other) = true ∧ (c.route 3000 (pair.key σ.other)).1 = some (pair.site σ.other) ∧
        c.toldPaths (pair.key σ.other) = [pair.site σ.other] := by
  have hproper : pair.Proper := ⟨by decide, by decide, by decide⟩
  have hready : apart.Ready pair := ⟨fun _ => rfl, fun _ => rfl, fun _ => rfl, by decide, by decide, by decide, ⟨rfl, rfl⟩,
    by decide, fun _ h => absurd h List.not_mem_nil⟩
  have hintroduces : apart.Introduces pair 1000 envelope := by
    refine ⟨⟨.left, rfl, rfl⟩, by decide, ?_⟩
    rintro attempts ⟨⟩
    decide +kernel
  have htimely : (apart.relay pair 1000 envelope).Timely pair (overtaken ++ again) := by decide +kernel
  have hbeats : ∀ σ, ∃ o ∈ again, o.2 = .heartbeat σ := by decide
  refine ⟨by unfold Confirms; decide +kernel, fun σ => ?_⟩
  have hmet := rendezvous pair hproper apart hready 1000 envelope hintroduces overtaken again htimely
    (by decide +kernel) hbeats (by decide +kernel) σ
  refine ⟨hmet.1, hmet.2.1 3000 ?_, hmet.2.2⟩
  cases σ <;> decide

end Meeting

end Overlay
