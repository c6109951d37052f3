import Overlay.Proofs.Engine.Reach
import Overlay.Proofs.Traffic.Basic

/-!
# Mixed settings

Two engines of which at least one has short-lived agreements disabled.  Whatever they say to each other, and whatever
the network does with it, they talk under the long-time agreement alone: all sessions stay in the long-time state, no
event is due, a disabled engine leaves nothing to send or to do, and what either of them encrypts the other opens, unless
its sessions expire at once (`Traffic.interoperate`).

The invariant is `Traffic.Plain`.  An engine that has short-lived agreements enabled keeps offering keys, which the
disabled one takes no notice of; so the enabled one hears nothing but missives.
-/

namespace Overlay

namespace Traffic

open Engine Endpoint

variable {S : Suite} {secret : Side → SecretKey} {config : Side → ArmConfig} {v : Traffic}

/-- Both ends are plain, and all that is on its way from a disabled end is missives. -/
structure Plain (S : Suite) (secret : Side → SecretKey) (config : Side → ArmConfig) (v : Traffic) : Prop where
  ends : ∀ a, (v.ends a).Plain S
  identity : ∀ a, (v.ends a).engine.identity = S.keyPair (secret a)
  settings : ∀ a, (v.ends a).engine.config = config a
  ttl : ∀ a, (v.ends a).engine.sessions.ttl = (config a).sessionExpireAfter.bound?
  missives : ∀ a, (config a.other).forwardSecrecy = false → ∀ m ∈ v.toward a,
    ∃ payload, Missive S (S.keyPair (secret a.other)) (S.publicOf (secret a)) (.application payload) m

theorem Plain.start (S : Suite) (secret : Side → SecretKey) (config : Side → ArmConfig)
    (entropy : Side → Entropy) : (start S secret config entropy).Plain S secret config :=
  ⟨fun _ => .start S _ _ _, fun _ => rfl, fun _ => rfl, fun _ => rfl, fun _ _ _ hm => absurd hm List.not_mem_nil⟩

theorem Plain.address (h : v.Plain S secret config) (a : Side) : v.address a = S.publicOf (secret a) :=
  congrArg KeyPair.publicKey (h.identity a)

theorem Plain.perform {act : Action} (h : v.Plain S secret config) (hC : S.Commutes) (hO : S.Opens)
    (hoff : ∃ a, (config a).forwardSecrecy = false) (now : Nat) {op : Operation} (hop : v.operation act = some op) :
    (op.perform S now (v.ends act.side)).Plain S := by
  have hplain := h.ends act.side
  cases act with
  | arm a payload =>
    cases hop
    exact hplain.armOutbound now _ payload
  | runDeferred a =>
    cases hop
    exact hplain.runDeferred now
  | evictIdleSessions a =>
    cases hop
    exact hplain.evictIdleSessions now
  | collect a =>
    cases hop
    exact hplain.drainOutbox now
  | drainEvents a =>
    cases hop
    exact hplain.drainEvents now
  | deliver a k =>
    obtain ⟨m, hm, rfl⟩ := Option.map_eq_some_iff.1 hop
    obtain ⟨b, hb⟩ := hoff
    rcases Side.eq_or_eq_other a b with rfl | rfl
    · exact hplain.disabled ((congrArg ArmConfig.forwardSecrecy (h.settings b)).trans hb) now _ m
    · obtain ⟨payload, hmissive⟩ := h.missives a hb m (List.mem_of_getElem? hm)
      rw [h.address]
      exact hplain.missive hC hO (h.identity a) hmissive now
  | lose a k => cases hop
  | copy a k => cases hop

/-- What a disabled end says is missives. -/
theorem Plain.said {act : Action} (h : v.Plain S secret config) {now : Nat}
    (hoff : (config act.side).forwardSecrecy = false) {m : ArmedMessage} (hm : m ∈ v.said S now act) :
    ∃ payload, Missive S (S.keyPair (secret act.side)) (S.publicOf (secret act.side.other))
      (.application payload) m := by
  cases act with
  | arm a payload =>
    have hmissive := (h.ends a).arm_missive (ok_of_mem hm)
    rw [h.identity, h.address] at hmissive
    exact ⟨payload, hmissive⟩
  | collect a =>
    obtain ⟨o, ho, -⟩ := List.mem_map.1 hm
    have hout := ((h.ends a).passive ((congrArg ArmConfig.forwardSecrecy (h.settings a)).trans hoff)).1
    rw [hout] at ho
    cases ho
  | _ => cases hm

theorem Plain.act (h : v.Plain S secret config) (hC : S.Commutes) (hO : S.Opens)
    (hoff : ∃ a, (config a).forwardSecrecy = false) (now : Nat) (act : Action) :
    (v.act S now act).Plain S secret config where
  ends := ends_act_keeps (P := fun _ w => w.Plain S) h.ends fun _ hop => h.perform hC hO hoff now hop
  identity := ends_act_keeps (P := fun a w => w.engine.identity = S.keyPair (secret a)) h.identity
    fun op _ => (op.course S now (h.ends act.side).sound).identity.trans (h.identity act.side)
  settings := ends_act_keeps (P := fun a w => w.engine.config = config a) h.settings
    fun op _ => (op.course S now (h.ends act.side).sound).config.trans (h.settings act.side)
  ttl := ends_act_keeps (P := fun a w => w.engine.sessions.ttl = (config a).sessionExpireAfter.bound?) h.ttl
    fun op _ => (congrArg (·.2.1) ((op.course S now (h.ends act.side).sound).bounds (h.ends act.side).sound)).trans
      (h.ttl act.side)
  missives a ha m hm := by
    rcases mem_toward_act hm with hbefore | ⟨rfl, hsaid⟩
    · exact h.missives a ha m hbefore
    · rw [Side.other_other] at ha ⊢
      exact h.said ha hsaid

theorem Plain.run (h : v.Plain S secret config) (hC : S.Commutes) (hO : S.Opens)
    (hoff : ∃ a, (config a).forwardSecrecy = false) (acts : List (Nat × Action)) :
    (v.run S acts).Plain S secret config := by
  induction acts generalizing v with
  | nil => exact h
  | cons act acts ih => exact ih (h.act hC hO hoff act.1 act.2)

/-- **Mixed settings interoperate.**  Let short-lived agreements be disabled at one end at least.  After any actions,
with a network that loses, copies and reorders messages, all sessions are in the long-time state and have no active
agreement, no event has been told or is due, a disabled end has nothing to send and no job, and whatever payload either
end has ever encrypted the other end decrypts at any later moment exactly if its sessions do not expire at once. -/
theorem interoperate (hC : S.Commutes) (hO : S.Opens) (secret : Side → SecretKey) (config : Side → ArmConfig)
    (entropy : Side → Entropy) (hoff : ∃ a, (config a).forwardSecrecy = false) (acts : List (Nat × Action))
    (v : Traffic) (hv : v = (start S secret config entropy).run S acts) :
    (∀ a p s, (v.ends a).engine.held p = some s → s.state = .longTime ∧ s.active = none) ∧
    (∀ a, (v.ends a).handedOut ++ (v.ends a).engine.events = []) ∧
    (∀ a, (config a).forwardSecrecy = false → (v.ends a).engine.outbox = [] ∧ (v.ends a).engine.deferred = []) ∧
    ∀ a payload past now later m u, acts = past ++ (now, .arm a payload) :: later →
      u = (start S secret config entropy).run S past →
      ((u.ends a).engine.armOutbound S now (u.address a.other) payload (u.ends a).entropy).1 = .ok m → ∀ t,
      (((v.ends a.other).engine.disarmInbound S t (v.address a) m (v.ends a.other).entropy).1 =
        .ok (.application payload) ↔ (config a.other).Lasting) := by
  have hrun := fun acts => (Plain.start S secret config entropy).run hC hO hoff acts
  have hplain := hv ▸ hrun acts
  refine ⟨?_, ?_, ?_, ?_⟩
  · intro a p s hs
    have hsession := (hplain.ends a).sessions p s hs
    exact ⟨hsession.state, hsession.active⟩
  · intro a
    rw [(hplain.ends a).handedOut, (hplain.ends a).events]
    rfl
  · intro a ha
    exact (hplain.ends a).passive ((congrArg ArmConfig.forwardSecrecy (hplain.settings a)).trans ha)
  · rintro a payload past now later m u - rfl hm t
    have hpast := hrun past
    have hmissive := (hpast.ends a).arm_missive hm
    rw [hpast.identity, hpast.address] at hmissive
    rw [hplain.address, (hplain.ends a.other).reads_iff hC hO (hplain.identity a.other) hmissive t, hplain.ttl,
      ArmConfig.lasting_iff]

/-- Short-lived agreements are disabled at the left end. -/
def reserved (a : Side) : ArmConfig := { enabled := a = .right }

/-- The right end says something and offers its key, which arrives twice. -/
def visit : List (Nat × Action) := [(1, .arm .right [1]), (2, .deliver .left 0), (3, .runDeferred .right),
  (4, .collect .right), (5, .copy .left 0), (6, .deliver .left 1), (7, .deliver .left 0)]

/-- The left end answers, and the answer arrives, but a copy of it is still on its way. -/
def answer : List (Nat × Action) := [(8, .arm .left [2]), (9, .copy .right 0), (10, .deliver .right 1),
  (11, .runDeferred .right)]

def visited : Traffic := (start Textbook.suite secrets reserved sources).run Textbook.suite visit

def answered : Traffic := (start Textbook.suite secrets reserved sources).run Textbook.suite (visit ++ answer)

/-- Short-lived agreements are disabled at the left end, and sessions at the right end may be idle for half a
millisecond. -/
def hasty (a : Side) : ArmConfig :=
  if a = .left then { enabled := false } else { sessionExpireAfter := .ofNanos 500000 }

/-- The visitor's session is on the long-time agreement, and reads the copy of the answer.  A visitor in haste does not
read what is delivered at once. -/
theorem interoperate_visit : ((answered.ends .right).engine.held (answered.address .left)).any
      (fun s => s.state = .longTime ∧ s.active = none) ∧
    ((visited.ends .left).engine.armOutbound Textbook.suite 8 (visited.address .right) [2]
      (visited.ends .left).entropy).1.toOption.map (fun m => ((answered.ends .right).engine.disarmInbound
        Textbook.suite 12 (answered.address .left) m (answered.ends .right).entropy).1) =
          some (.ok (.application [2])) ∧
    let u := start Textbook.suite secrets hasty sources
    let v := u.run Textbook.suite [(1, .arm .left [2])]
    ∃ m ∈ v.toward .right, ((v.ends .right).engine.disarmInbound Textbook.suite 1 (v.address .left) m
      (v.ends .right).entropy).1 ≠ .ok (.application [2]) := by
  have hheld : ((answered.ends .right).engine.held (answered.address .left)).isSome := by decide +kernel
  have harmed : ((visited.ends .left).engine.armOutbound Textbook.suite 8 (visited.address .right) [2]
      (visited.ends .left).entropy).1.toOption.isSome := by decide +kernel
  obtain ⟨s, hs⟩ := Option.isSome_iff_exists.1 hheld
  obtain ⟨m, hm⟩ := Option.isSome_iff_exists.1 harmed
  obtain ⟨hsessions, -, -, hread⟩ := interoperate Textbook.suite_commutes Textbook.suite_opens secrets reserved
    sources ⟨.left, rfl⟩ (visit ++ answer) answered rfl
  rw [hs, hm, Option.any_some, Option.map_some, decide_eq_true_eq]
  refine ⟨hsessions .right _ s hs, congrArg some ((hread .left [2] visit 8 _ m visited rfl rfl
    (ok_of_mem (Option.mem_toList.2 hm)) 12).2 (.inr (by decide))), ?_⟩
  intro u v
  have hsent : ((u.ends .left).engine.armOutbound Textbook.suite 1 (u.address .right) [2]
      (u.ends .left).entropy).1.toOption.any (· ∈ v.toward .right) := by decide +kernel
  obtain ⟨n, hn, hway⟩ := (Option.any_eq_true _ _).1 hsent
  obtain ⟨-, -, -, hread⟩ := interoperate Textbook.suite_commutes Textbook.suite_opens secrets hasty sources
    ⟨.left, rfl⟩ [(1, .arm .left [2])] v rfl
  refine ⟨n, of_decide_eq_true hway, fun hopens => ?_⟩
  rcases (hread .left [2] [] 1 [] n u rfl rfl (ok_of_mem (Option.mem_toList.2 hn)) 1).1 hopens with hzero | hmillis
  · exact absurd hzero (by decide)
  · exact hmillis (by decide)

end Traffic

end Overlay
