import Overlay.Proofs.Conversation.Safety
import Overlay.Proofs.Engine.Usable

/-!
# Whatever is armed can be read

What one end of a conversation arms under a short-lived agreement, the other end opens if it is handed over at
once (`opens_armed`), whatever the network has lost, repeated or reordered before.  The sender has promoted the
agreement, so the receiver held it before (`Sane`), with the mirrored keys (`Sane.mirror`); and as long as nothing
takes it away there, it is readable (`readable_of_undisturbed`).

For this a conversation is seen from one end: what its actions ask of that end is a run of that end
(`ends_run`).
-/

namespace Overlay

namespace Conversation

variable {S : Suite} {c : Conversation} {acts : List (Nat × Action)} {a b : Side} {now : Nat}

/-! ### One end of a conversation -/

def asked (S : Suite) (c : Conversation) (b : Side) : List (Nat × Action) → List (Nat × Operation)
  | [] => []
  | (now, act) :: rest =>
    (if act.side = b then (c.operation act).toList.map (now, ·) else []) ++ asked S (c.act S now act) b rest

theorem ends_run (S : Suite) (c : Conversation) (b : Side) (acts : List (Nat × Action)) :
    (c.run S acts).ends b = (c.ends b).run S (asked S c b acts) := by
  induction acts generalizing c with
  | nil => rfl
  | cons o rest ih =>
    obtain ⟨now, act⟩ := o
    rw [asked, Endpoint.run_append]
    refine (ih (c.act S now act)).trans ?_
    congr 1
    rcases Side.eq_or_eq_other act.side b with rfl | rfl
    · rw [if_pos rfl, ends_act_side]
      cases c.operation act <;> rfl
    · rw [if_neg (Side.other_ne act.side).symm, ends_act_other]
      rfl

theorem asked_append (S : Suite) (c : Conversation) (b : Side) (acts rest : List (Nat × Action)) :
    asked S c b (acts ++ rest) = asked S c b acts ++ asked S (c.run S acts) b rest := by
  induction acts generalizing c with
  | nil => rfl
  | cons o acts ih =>
    obtain ⟨now, act⟩ := o
    rw [List.cons_append, asked, asked, ih, List.append_assoc]
    rfl

theorem time_asked {o : Nat × Operation} (ho : o ∈ asked S c b acts) : ∃ act ∈ acts, act.1 = o.1 := by
  induction acts generalizing c with
  | nil => cases ho
  | cons act acts ih =>
    obtain ⟨now, act⟩ := act
    rw [asked, List.mem_append] at ho
    rcases ho with ho | ho
    · split at ho
      · obtain ⟨op, -, rfl⟩ := List.mem_map.1 ho
        exact ⟨(now, act), List.mem_cons_self, rfl⟩
      · cases ho
    · obtain ⟨act', hact', ht⟩ := ih ho
      exact ⟨act', List.mem_cons_of_mem _ hact', ht⟩

/-- What an end holds it has under negotiation, or it has promoted it. -/
theorem Sane.held (h : Sane S c acts) {id : AgreementId} (hb : (c.run S acts).Holds b id) :
    ∃ s, ((c.run S acts).ends b).engine.held (c.address b.other) = some s ∧
      (s.inactiveId = some id ∨ ∃ g, s.Promoted id g) := by
  obtain ⟨s, g, hs, hg, hid⟩ := hb
  rw [session, h.address] at hs
  refine ⟨s, hs, ?_⟩
  rcases hg with hg | hg | ⟨id', i, hi, rfl⟩
  · exact Or.inl (by rw [Session.inactiveId, hg]; exact hid)
  · exact Or.inr ⟨g, Or.inl ⟨hg, hid⟩⟩
  · have hkept : s.Promoted id' i.value := Or.inr ⟨i, hi, rfl⟩
    have hid' := ((h.ends b).session s hs).named id' i.value hkept
    rw [hid, Option.some.injEq] at hid'
    subst hid'
    exact Or.inr ⟨i.value, hkept⟩

/-! ### What is armed -/

/-- A payload that is not armed under the long-time agreement is armed under the active one, which the other end
held before. -/
theorem armed_active (hsane : ∀ acts, Sane S c acts) {payload : Bytes} {m : ArmedMessage}
    (harm : (((c.run S acts).ends a).engine.armOutbound S now (c.address a.other) payload
      ((c.run S acts).ends a).entropy).1 = .ok m)
    (hshort : S.agreementId (c.address a) (c.address a.other) ≠ .ok m.agreementId) :
    ∃ s g bond, (c.run S (acts ++ [(now, .arm a payload)])).session a = some s ∧ s.active = some g ∧
      g.bond = some bond ∧ m.agreementId = bond.id ∧
      S.encrypt bond.pair.tx m.nonce (associatedData (c.address a) (c.address a.other) m.agreementId)
        (ArmMessage.application payload).encode = some m.ciphertext ∧
      HeldBefore S c (acts ++ [(now, .arm a payload)]) a.other bond.id := by
  obtain ⟨s, id, pair, hheld, hsealed, hname⟩ := Endpoint.armOutbound_ok ((hsane acts).sound a) harm
  have hends : (c.run S (acts ++ [(now, .arm a payload)])).ends a =
      (Operation.armOutbound (c.address a.other) payload).perform S now ((c.run S acts).ends a) := by
    rw [run_concat, ← (hsane acts).address]
    exact ends_act_side S now (c.run S acts) (.arm a payload)
  rw [← hends] at hheld
  have hknown := ((hsane _).ends a).session s hheld
  rcases hname with rfl | ⟨g, bond, hactive, hbond, rfl, rfl⟩
  · have hlong := hknown.longTime
    rw [(hsane _).identity, ← hsealed.name] at hlong
    exact absurd hlong hshort
  · refine ⟨s, g, bond, ?_, hactive, hbond, hsealed.name, ?_, ?_⟩
    · rw [session, (hsane _).address]
      exact hheld
    · have hencrypted := hsealed.encrypted
      rw [hsealed.name]
      exact (hsane acts).address a ▸ hencrypted
    · exact hknown.promoted bond.id g (Or.inl ⟨hactive, congrArg (·.map (·.id)) hbond⟩)

/-- **Whatever is armed under a short-lived agreement is opened at the other end**, if it is handed over at once,
and nothing has taken the agreement away there. -/
theorem opens_armed (S : Suite) (hcommutes : S.Commutes) (hbinds : S.Binds) (hopens : S.Opens)
    (identity : Side → KeyPair) (config : Side → ArmConfig) (entropy : Side → Entropy) (c : Conversation)
    (hc : c = start identity config entropy) (acts : List (Nat × Action)) (now : Nat) (a : Side)
    (payload : Bytes) (m : ArmedMessage)
    (hapart : Apart S c (acts ++ [(now, .arm a payload)]))
    (hcollision : NoCollision S c (acts ++ [(now, .arm a payload)]))
    (harm : (((c.run S acts).ends a).engine.armOutbound S now (c.address a.other) payload
      ((c.run S acts).ends a).entropy).1 = .ok m)
    (hshort : S.agreementId (c.address a) (c.address a.other) ≠ .ok m.agreementId)
    (hfs : (config a.other).forwardSecrecy = true)
    (hlasting : 0 < (config a.other).retention.millis ∧
      (config a.other).expireAfter.millis ≤ (config a.other).retention.millis)
    (hclock : ∀ act ∈ acts, act.1 ≤ now)
    (hlive : (((c.run S acts).ends a.other).engine.session (c.address a) now).isSome)
    (hundisturbed : Endpoint.Undisturbed S (config a.other) (c.ends a.other) (asked S c a.other acts)
      (c.address a) m.agreementId now) :
    (((c.run S acts).ends a.other).engine.disarmInbound S now (c.address a) m
      ((c.run S acts).ends a.other).entropy).1 = .ok (.application payload) := by
  have hsane : ∀ acts, Sane S c acts := fun acts => hc ▸ sane_run hbinds identity config entropy acts
  obtain ⟨s, g, bond, hs, hactive, hbond, hname, hencrypted, past, act, rest, hacts, hholds⟩ :=
    armed_active hsane harm hshort
  -- It held the agreement before the message was armed.
  obtain ⟨before, rfl⟩ : ∃ before, acts = past ++ before := by
    rcases List.eq_nil_or_concat rest with rfl | ⟨rest, last, rfl⟩
    · exact ⟨[], by simpa using (List.append_inj' hacts rfl).1⟩
    · refine ⟨act :: rest, ?_⟩
      rw [List.concat_eq_append, ← List.cons_append, ← List.append_assoc] at hacts
      exact (List.append_inj' hacts rfl).1
  have hstart : c.ends a.other = .start (identity a.other) (config a.other) (entropy a.other) := by
    rw [hc]
    rfl
  have hown : c.address a.other = (identity a.other).publicKey := by
    rw [hc]
    rfl
  have hheld := (hsane past).held hholds
  obtain ⟨s', hs'⟩ := Option.isSome_iff_exists.1 hlive
  have hsession : (c.run S (past ++ before)).session a.other = some s' := by
    rw [session, (hsane _).address, Side.other_other]
    exact Engine.held_live ((hsane _).sound a.other) hs'
  -- The other end can read what was sealed under its own copy.
  have hreadable : ((c.run S (past ++ before)).ends a.other).Readable S now (c.address a) s' bond.id := by
    rw [hname, asked_append, hstart] at hundisturbed
    rw [ends_run, hstart, Side.other_other] at hheld
    rw [ends_run, asked_append, hstart] at hs' ⊢
    refine Endpoint.readable_of_undisturbed hopens hfs hlasting ?_ hheld hundisturbed ?_ hs'
    · rw [← hown, Suite.agreementId_comm, ← hname]
      exact hshort
    · intro o ho
      rw [← asked_append] at ho
      obtain ⟨act', hact', htime⟩ := time_asked ho
      exact htime ▸ hclock act' hact'
  obtain ⟨g', bond', hg', hbond', hname', hopened⟩ := hreadable
  have hpair := mirror hcommutes hsane hapart hcollision hs (Or.inr (Or.inl hactive)) hbond hsession hg'
    hbond' hname'
  refine hopened m (.application payload) hname ?_
  rw [hpair, Engine.address, (hsane _).identity]
  exact hencrypted

/-- The left greeter has promoted an agreement that the right one still awaits, and writes under it. -/
theorem opens_armed_greeting : ∃ m,
    (((greeters.run Textbook.suite greeting).ends .left).engine.armOutbound Textbook.suite 8
      (greeters.address .right) [7] ((greeters.run Textbook.suite greeting).ends .left).entropy).1 = .ok m ∧
    (((greeters.run Textbook.suite greeting).ends .right).engine.disarmInbound Textbook.suite 8
      (greeters.address .left) m ((greeters.run Textbook.suite greeting).ends .right).entropy).1 =
        .ok (.application [7]) := by
  have hsome : ((((greeters.run Textbook.suite greeting).ends .left).engine.armOutbound Textbook.suite 8
      (greeters.address .right) [7]
      ((greeters.run Textbook.suite greeting).ends .left).entropy).1.toOption.map (·.agreementId)) =
        some (Endpoint.pact 11 13).id := by decide +kernel
  obtain ⟨m, hm, hid⟩ := Option.map_eq_some_iff.1 hsome
  have harm := ok_of_mem (Option.mem_toList.2 hm)
  have honce : DrewOnce (greeting ++ [(8, .arm .left [7])]) := by
    intro a
    cases a <;> decide +kernel
  refine ⟨m, harm, ?_⟩
  refine opens_armed Textbook.suite Textbook.suite_commutes Textbook.suite_binds Textbook.suite_opens _ _ _
    greeters rfl greeting 8 .left [7] m honce.apart honce.noCollision harm ?_ (by decide) (by decide)
    (by decide) (by decide +kernel) ?_
  · rw [hid]
    decide +kernel
  · rw [hid]
    exact Endpoint.undisturbed_of_never (Endpoint.sound_start _ _ _) (by decide) (by decide +kernel)
      (by decide +kernel) (by decide +kernel)

/-- The greeters with settings of their own, and a payload that the left one writes after some actions. -/
structure Dispatch where
  config : Side → ArmConfig
  acts : List (Nat × Action)
  moment : Nat
  payload : Bytes
  name : AgreementId

namespace Dispatch

def start (d : Dispatch) : Conversation :=
  .start (fun a => Textbook.suite.keyPair ⟨Textbook.remainder (if a = .left then 5 else 7)⟩) d.config
    fun a => Textbook.counting (if a = .left then 11 else 13)

def ends (d : Dispatch) (a : Side) : Endpoint := (d.start.run Textbook.suite d.acts).ends a

def delivered (d : Dispatch) (b : Side) : List Nat :=
  d.acts.filterMap fun act => match act.2 with
    | .deliver a k => if a = b then some k else none
    | _ => none

/-- What seems enough for the payload to be read: short-lived agreements are negotiated; the clock and the
network keep the order, and the network repeats nothing; no end has dropped its session; and the agreement is
not stale at the right end, if it was promoted there. -/
structure Owed (d : Dispatch) : Prop where
  forwardSecrecy : ∀ a, (d.config a).forwardSecrecy = true
  clock : (d.acts.map (·.1) ++ [d.moment]).Pairwise (· ≤ ·)
  order : ∀ a, (d.delivered a).Pairwise (· < ·)
  spares : ∀ a, (d.start.ends a).Throughout Textbook.suite (asked Textbook.suite d.start a d.acts)
    fun now v part => part.Spares Textbook.suite now v (d.start.address a.other)
  live : ∀ a, ((d.ends a).engine.session (d.start.address a.other) d.moment).isSome
  fresh : (d.start.ends .right).Throughout Textbook.suite (asked Textbook.suite d.start .right d.acts)
    fun now v part => part.promoted Textbook.suite now v (d.start.address .left) = some d.name →
      d.moment < after now (d.config .right).expireAfter.millis

/-- The payload is armed under the active agreement of the left end, which is unknown at the right end. -/
def Unread (d : Dispatch) : Prop :=
  (((d.ends .left).engine.held (d.start.address .right)).bind (·.active)).bind (·.id) = some d.name ∧
    ∃ m, ((d.ends .left).engine.armOutbound Textbook.suite d.moment (d.start.address .right) d.payload
        (d.ends .left).entropy).1 = .ok m ∧ m.agreementId = d.name ∧
      ((d.ends .right).engine.disarmInbound Textbook.suite d.moment (d.start.address .left) m
        (d.ends .right).entropy).1 = .error (.unknownAgreementId d.name)

instance (d : Dispatch) : Decidable d.Owed :=
  decidable_of_iff ((∀ a, (d.config a).forwardSecrecy = true) ∧
      (d.acts.map (·.1) ++ [d.moment]).Pairwise (· ≤ ·) ∧ (∀ a, (d.delivered a).Pairwise (· < ·)) ∧
      (∀ a, (d.start.ends a).Throughout Textbook.suite (asked Textbook.suite d.start a d.acts)
        fun now v part => part.Spares Textbook.suite now v (d.start.address a.other)) ∧
      (∀ a, ((d.ends a).engine.session (d.start.address a.other) d.moment).isSome) ∧
      (d.start.ends .right).Throughout Textbook.suite (asked Textbook.suite d.start .right d.acts)
        fun now v part => part.promoted Textbook.suite now v (d.start.address .left) = some d.name →
          d.moment < after now (d.config .right).expireAfter.millis)
    ⟨fun h => ⟨h.1, h.2.1, h.2.2.1, h.2.2.2.1, h.2.2.2.2.1, h.2.2.2.2.2⟩,
      fun h => ⟨h.forwardSecrecy, h.clock, h.order, h.spares, h.live, h.fresh⟩⟩

instance (d : Dispatch) : Decidable d.Unread :=
  decidable_of_iff
    ((((d.ends .left).engine.held (d.start.address .right)).bind (·.active)).bind (·.id) = some d.name ∧
      ∃ m ∈ ((d.ends .left).engine.armOutbound Textbook.suite d.moment (d.start.address .right) d.payload
        (d.ends .left).entropy).1.toOption.toList, m.agreementId = d.name ∧
          ((d.ends .right).engine.disarmInbound Textbook.suite d.moment (d.start.address .left) m
            (d.ends .right).entropy).1 = .error (.unknownAgreementId d.name))
    (and_congr_right fun _ => exists_congr fun m => and_congr_left fun _ =>
      ⟨ok_of_mem, fun h => by rw [h]; exact List.mem_singleton_self m⟩)

/-- The right end has renegotiated the agreement, and its answer was lost. -/
def renegotiated : Dispatch where
  config _ := {}
  acts := greeting ++ [(160000, .chore .left .checkForRenew), (160001, .collect .left),
    (160002, .deliver .right 5)]
  moment := 160003
  payload := [7]
  name := (Endpoint.pact 11 13).id

/-- The right end keeps one agreement, and has promoted another one. -/
def displaced : Dispatch where
  config a := if a = .left then {} else { maxAgreements := 1 }
  acts := greeting ++ [(8, .collect .left), (9, .deliver .right 4), (160000, .chore .right .checkForRenew),
    (160001, .collect .right), (160002, .deliver .left 5), (160003, .collect .left),
    (160004, .deliver .right 6), (160005, .deliver .right 7)]
  moment := 160006
  payload := [7]
  name := (Endpoint.pact 11 13).id

/-- The right end keeps agreements for less than a millisecond. -/
def momentary : Dispatch where
  config a := if a = .left then {} else { expireAfter := .ofNanos 500000, retryInterval := .zero }
  acts := greeting
  moment := 8
  payload := [7]
  name := (Endpoint.pact 11 13).id

/-- **No condition can be left out**: the agreement must not be renegotiated, nor displaced by others, and it must
be kept for as long as it encrypts.  Each of the three payloads is not read. -/
theorem unread_of_owed :
    (renegotiated.Owed ∧ renegotiated.Unread) ∧ (displaced.Owed ∧ displaced.Unread) ∧
      (momentary.Owed ∧ momentary.Unread) := by
  exact ⟨by decide +kernel, by decide +kernel, by decide +kernel⟩

end Dispatch

end Conversation

end Overlay
