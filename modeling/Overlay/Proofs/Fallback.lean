import Mathlib.Data.List.Induction
import Overlay.Fallback

/-!
# When a stream is tried

A fallback keeps one moment, since when the super peers have been silent.  It is the moment of a datagram that was sent
to a super peer and not answered since (`Unanswered`): that of the last attempt, or of the first such datagram if nothing
was attempted since the last answer.  No attempt of the whole run lies later, whatever connections were closed in between.
This is the invariant of a run (`Silence`, `silence_run`).

So a datagram leads to an attempt exactly if there is no connection, an unanswered datagram lies more than the timeout
back, and so do all attempts.  `attempts_spaced` says this of every datagram of a run, and what an arriving datagram does.
-/

namespace Overlay

namespace Fallback

/-- What is reported to a fallback: a datagram that is about to be sent to a super peer, one that has arrived, or the end
of the connection. -/
inductive Operation where
  | send (now : Nat)
  | inbound (sender : Address)
  | closed
deriving DecidableEq

def perform (f : Fallback) : Operation → Fallback
  | .send now => (f.onSend now).2
  | .inbound sender => (f.onInbound sender).2
  | .closed => f.connectionClosed

def run (config : FallbackConfig) (addrs : List Address) (ops : List Operation) : Fallback :=
  ops.foldl perform (start config addrs)

def Operation.moment? : Operation → Option Nat
  | .send now => some now
  | _ => none

/-- A datagram was sent at a moment, and nothing has arrived from a super peer since. -/
def Unanswered (addrs : List Address) (ops : List Operation) (t : Nat) : Prop :=
  ∃ past later, ops = past ++ .send t :: later ∧ ∀ sender ∈ addrs, .inbound sender ∉ later

def Attempted (config : FallbackConfig) (addrs : List Address) (ops : List Operation) (t : Nat) : Prop :=
  ∃ past later, ops = past ++ .send t :: later ∧ ((run config addrs past).onSend t).1 = true

/-- The clock is not set back between datagrams. -/
def Ordered (ops : List Operation) : Prop := (ops.filterMap Operation.moment?).Pairwise (· ≤ ·)

variable {config : FallbackConfig} {addrs : List Address} {ops past later : List Operation} {op op' : Operation}
  {f : Fallback} {sender : Address} {now t : Nat}

/-! ### The last operation -/

theorem run_concat (config : FallbackConfig) (addrs : List Address) (ops : List Operation) (op : Operation) :
    run config addrs (ops ++ [op]) = (run config addrs ops).perform op :=
  List.foldl_append

theorem split_concat (h : ops ++ [op] = past ++ op' :: later) :
    ops = past ∧ op = op' ∧ later = [] ∨ ∃ rest, later = rest ++ [op] ∧ ops = past ++ op' :: rest := by
  induction later using List.reverseRecOn with
  | nil =>
    obtain ⟨rfl, hop⟩ := List.append_inj' h rfl
    exact .inl ⟨rfl, List.singleton_inj.1 hop, rfl⟩
  | append_singleton rest last _ =>
    rw [← List.cons_append, ← List.append_assoc] at h
    obtain ⟨rfl, hop⟩ := List.append_inj' h rfl
    exact .inr ⟨rest, by rw [List.singleton_inj.1 hop], rfl⟩

theorem unanswered_send : Unanswered addrs (ops ++ [.send now]) t ↔ t = now ∨ Unanswered addrs ops t := by
  constructor
  · rintro ⟨past, later, hops, hlater⟩
    obtain ⟨-, hnow, -⟩ | ⟨rest, rfl, rfl⟩ := split_concat hops
    · exact .inl (Operation.send.inj hnow).symm
    · exact .inr ⟨past, rest, rfl, fun sender hs hi => hlater sender hs (List.mem_append_left _ hi)⟩
  · rintro (rfl | ⟨past, later, rfl, hlater⟩)
    · exact ⟨ops, [], rfl, fun _ _ => List.not_mem_nil⟩
    · refine ⟨past, later ++ [.send now], by simp, fun sender hs hi => ?_⟩
      exact hlater sender hs (by simpa using hi)

theorem not_unanswered_inbound (hs : sender ∈ addrs) : ¬ Unanswered addrs (ops ++ [.inbound sender]) t := by
  rintro ⟨past, later, hops, hlater⟩
  obtain ⟨-, hop, -⟩ | ⟨rest, rfl, -⟩ := split_concat hops
  · cases hop
  · exact hlater sender hs (List.mem_append_right _ (List.mem_singleton_self _))

/-- What is unanswered only changes with a datagram to or from a super peer. -/
theorem unanswered_concat (hsend : op.moment? = none) (hs : ∀ sender ∈ addrs, op ≠ .inbound sender) :
    Unanswered addrs (ops ++ [op]) t ↔ Unanswered addrs ops t := by
  constructor
  · rintro ⟨past, later, hops, hlater⟩
    obtain ⟨-, rfl, -⟩ | ⟨rest, rfl, rfl⟩ := split_concat hops
    · cases hsend
    · exact ⟨past, rest, rfl, fun sender hs hi => hlater sender hs (List.mem_append_left _ hi)⟩
  · rintro ⟨past, later, rfl, hlater⟩
    refine ⟨past, later ++ [op], by simp, fun sender hmem hi => ?_⟩
    obtain hi | hi := List.mem_append.1 hi
    · exact hlater sender hmem hi
    · exact hs sender hmem (List.mem_singleton.1 hi).symm

theorem Attempted.concat (h : Attempted config addrs ops t) (op : Operation) :
    Attempted config addrs (ops ++ [op]) t := by
  obtain ⟨past, later, rfl, hattempt⟩ := h
  exact ⟨past, later ++ [op], by simp, hattempt⟩

theorem attempted_concat : Attempted config addrs (ops ++ [op]) t ↔
    Attempted config addrs ops t ∨ op = .send t ∧ ((run config addrs ops).onSend t).1 = true := by
  constructor
  · rintro ⟨past, later, hops, hattempt⟩
    obtain ⟨rfl, rfl, -⟩ | ⟨rest, rfl, rfl⟩ := split_concat hops
    · exact .inr ⟨rfl, hattempt⟩
    · exact .inl ⟨past, rest, rfl, hattempt⟩
  · rintro (h | ⟨rfl, hattempt⟩)
    · exact h.concat op
    · exact ⟨ops, [], rfl, hattempt⟩

theorem Ordered.of_append (h : Ordered (past ++ later)) : Ordered past := by
  rw [Ordered, List.filterMap_append] at h
  exact (List.pairwise_append.1 h).1

theorem Ordered.sent_le (h : Ordered (past ++ .send t :: later ++ [.send now])) : t ≤ now := by
  rw [Ordered, List.filterMap_append] at h
  refine (List.pairwise_append.1 h).2.2 t ?_ now (by simp [Operation.moment?])
  exact List.mem_filterMap.2 ⟨.send t, by simp, rfl⟩

theorem Ordered.unanswered_le (h : Ordered (ops ++ [.send now])) (ht : Unanswered addrs ops t) : t ≤ now := by
  obtain ⟨past, later, rfl, -⟩ := ht
  exact h.sent_le

theorem Ordered.attempted_le (h : Ordered (ops ++ [.send now])) (ht : Attempted config addrs ops t) : t ≤ now := by
  obtain ⟨past, later, rfl, -⟩ := ht
  exact h.sent_le

/-! ### What the state says about the operations so far -/

/-- The moment that is kept tells what is unanswered and what was attempted. -/
structure Silence (config : FallbackConfig) (addrs : List Address) (ops : List Operation) (f : Fallback) : Prop where
  timeout : f.timeout = config.timeout.millis
  superPeers : f.superPeerAddrs = addrs
  /-- No moment is kept if everything is answered. -/
  answered : f.silentSince = 0 → f.active = false ∧ ∀ t, ¬ Unanswered addrs ops t
  unanswered : f.silentSince ≠ 0 → Unanswered addrs ops f.silentSince
  /-- The moment is that of an attempt, or no unanswered datagram was sent earlier. -/
  begun : f.silentSince ≠ 0 →
    Attempted config addrs ops f.silentSince ∨ ∀ t, Unanswered addrs ops t → f.silentSince ≤ t
  attempted : f.silentSince ≠ 0 → ∀ t, Attempted config addrs ops t → t ≤ f.silentSince

theorem silence_start (config : FallbackConfig) (addrs : List Address) :
    Silence config addrs [] (start config addrs) where
  timeout := rfl
  superPeers := rfl
  answered _ := ⟨rfl, fun _ ⟨past, _, h, _⟩ => by cases past <;> cases h⟩
  unanswered h := absurd rfl h
  begun h := absurd rfl h
  attempted h := absurd rfl h

/-- What a datagram leads to: nothing while there is a connection, an attempt if the moment lies too far back, and
otherwise the moment is kept or begins. -/
theorem onSend_cases (f : Fallback) (now : Nat) :
    f.active = true ∧ f.onSend now = (false, f) ∨
    f.active = false ∧ f.silentSince ≠ 0 ∧ f.silentSince + f.timeout < now ∧
      f.onSend now = (true, { f with silentSince := now, active := true }) ∨
    f.active = false ∧ f.silentSince ≠ 0 ∧ now ≤ f.silentSince + f.timeout ∧ f.onSend now = (false, f) ∨
    f.active = false ∧ f.silentSince = 0 ∧ f.onSend now = (false, { f with silentSince := now }) := by
  obtain ⟨timeout, addrs, since, active⟩ := f
  cases active with
  | true => exact .inl ⟨rfl, rfl⟩
  | false =>
    right
    by_cases hzero : since = 0
    · have hlate : ¬ now < now - timeout := by omega
      exact .inr (.inr ⟨rfl, hzero, by simp [onSend, hzero, hlate]⟩)
    · by_cases hlate : since < now - timeout
      · exact .inl ⟨rfl, hzero, by simp only; omega, by simp [onSend, hzero, hlate]⟩
      · exact .inr (.inl ⟨rfl, hzero, by simp only; omega, by simp [onSend, hzero, hlate]⟩)

/-- Under the invariant, a datagram leads to an attempt exactly if one that is unanswered and all attempts lie more than
the timeout back. -/
theorem Silence.onSend_iff (h : Silence config addrs ops f) (now : Nat) :
    (f.onSend now).1 = true ↔
      f.active = false ∧ (∃ t, Unanswered addrs ops t ∧ t + config.timeout.millis < now) ∧
        ∀ t, Attempted config addrs ops t → t + config.timeout.millis < now := by
  obtain ⟨hactive, heq⟩ | ⟨hactive, hzero, hlate, heq⟩ | ⟨hactive, hzero, hearly, heq⟩ | ⟨hactive, hzero, heq⟩ :=
    onSend_cases f now <;> rw [heq]
  · simp [hactive]
  · rw [h.timeout] at hlate
    refine iff_of_true rfl ⟨hactive, ⟨_, h.unanswered hzero, hlate⟩, fun t ht => ?_⟩
    have := h.attempted hzero t ht
    omega
  · rw [h.timeout] at hearly
    refine iff_of_false Bool.false_ne_true ?_
    rintro ⟨-, ⟨t, ht, hlate⟩, hattempts⟩
    obtain hattempt | hfirst := h.begun hzero
    · have := hattempts _ hattempt
      omega
    · have := hfirst t ht
      omega
  · refine iff_of_false Bool.false_ne_true ?_
    rintro ⟨-, ⟨t, ht, -⟩, -⟩
    exact (h.answered hzero).2 t ht

theorem Silence.isSuperPeer_iff (h : Silence config addrs ops f) (sender : Address) :
    f.isSuperPeer sender = true ↔ sender ∈ addrs := by
  rw [isSuperPeer, h.superPeers, List.contains_iff_mem]

/-! ### What the operations preserve -/

theorem Silence.concat_same (h : Silence config addrs ops f) (hmoment : op.moment? = none)
    (hinbound : ∀ sender ∈ addrs, op ≠ .inbound sender) (active : Bool) (hactive : f.active = false → active = false) :
    Silence config addrs (ops ++ [op]) { f with active := active } := by
  have hattempted : ∀ t, Attempted config addrs (ops ++ [op]) t ↔ Attempted config addrs ops t := fun t =>
    attempted_concat.trans (or_iff_left (by rintro ⟨rfl, -⟩; cases hmoment))
  refine ⟨h.timeout, h.superPeers, ?_, ?_, ?_, ?_⟩ <;> simp only [hattempted, unanswered_concat hmoment hinbound]
  · intro hzero
    exact ⟨hactive (h.answered hzero).1, (h.answered hzero).2⟩
  · exact h.unanswered
  · exact h.begun
  · exact h.attempted

theorem Silence.concat_kept (h : Silence config addrs ops (run config addrs ops))
    (hclock : Ordered (ops ++ [.send now])) (hsince : (run config addrs ops).silentSince ≠ 0)
    (heq : (run config addrs ops).onSend now = (false, run config addrs ops)) :
    Silence config addrs (ops ++ [.send now]) (run config addrs ops) := by
  have hattempted : ∀ t, Attempted config addrs (ops ++ [.send now]) t ↔ Attempted config addrs ops t := by
    intro t
    refine attempted_concat.trans (or_iff_left ?_)
    rintro ⟨hnow, hattempt⟩
    cases hnow
    rw [heq] at hattempt
    cases hattempt
  refine ⟨h.timeout, h.superPeers, fun hzero => absurd hzero hsince, fun _ => ?_, fun _ => ?_, fun _ t ht => ?_⟩
  · exact unanswered_send.2 (.inr (h.unanswered hsince))
  · refine (h.begun hsince).imp (hattempted _).2 fun hfirst t ht => ?_
    obtain rfl | ht := unanswered_send.1 ht
    · exact hclock.unanswered_le (h.unanswered hsince)
    · exact hfirst t ht
  · exact h.attempted hsince t ((hattempted t).1 ht)

theorem Silence.send (h : Silence config addrs ops (run config addrs ops)) (hclock : Ordered (ops ++ [.send now]))
    (hpos : 0 < now) : Silence config addrs (ops ++ [.send now]) ((run config addrs ops).perform (.send now)) := by
  have hattempted : ∀ t, Attempted config addrs (ops ++ [.send now]) t → t ≤ now := by
    intro t ht
    obtain ht | ⟨hnow, -⟩ := attempted_concat.1 ht
    · exact hclock.attempted_le ht
    · exact Nat.le_of_eq (Operation.send.inj hnow).symm
  have hsent : Unanswered addrs (ops ++ [.send now]) now := unanswered_send.2 (.inl rfl)
  obtain ⟨hactive, heq⟩ | ⟨-, hsince, -, heq⟩ | ⟨-, hsince, -, heq⟩ | ⟨-, hzero, heq⟩ :=
    onSend_cases (run config addrs ops) now <;> rw [perform, heq]
  · refine h.concat_kept hclock (fun hzero => ?_) heq
    exact Bool.false_ne_true ((h.answered hzero).1.symm.trans hactive)
  · have hattempt : Attempted config addrs (ops ++ [.send now]) now :=
      attempted_concat.2 (.inr ⟨rfl, congrArg Prod.fst heq⟩)
    exact ⟨h.timeout, h.superPeers, fun hzero => absurd hzero (Nat.pos_iff_ne_zero.1 hpos), fun _ => hsent,
      fun _ => .inl hattempt, fun _ => hattempted⟩
  · exact h.concat_kept hclock hsince heq
  · refine ⟨h.timeout, h.superPeers, fun hzero => absurd hzero (Nat.pos_iff_ne_zero.1 hpos), fun _ => hsent,
      fun _ => .inr ?_, fun _ => hattempted⟩
    intro t ht
    obtain rfl | ht := unanswered_send.1 ht
    · exact Nat.le_refl _
    · exact absurd ht ((h.answered hzero).2 t)

theorem Silence.inbound (h : Silence config addrs ops f) (sender : Address) :
    Silence config addrs (ops ++ [.inbound sender]) (f.perform (.inbound sender)) := by
  by_cases hs : sender ∈ addrs
  · rw [perform, onInbound, if_pos ((h.isSuperPeer_iff sender).2 hs)]
    exact ⟨h.timeout, h.superPeers, fun _ => ⟨rfl, fun _ => not_unanswered_inbound hs⟩, fun hne => absurd rfl hne,
      fun hne => absurd rfl hne, fun hne => absurd rfl hne⟩
  · rw [perform, onInbound, if_neg (mt (h.isSuperPeer_iff sender).1 hs)]
    refine h.concat_same rfl (fun other hother hop => ?_) f.active id
    exact hs (Operation.inbound.inj hop ▸ hother)

theorem Silence.closed (h : Silence config addrs ops f) :
    Silence config addrs (ops ++ [.closed]) (f.perform .closed) :=
  h.concat_same rfl (fun _ _ => Operation.noConfusion) false fun _ => rfl

/-- The invariant holds throughout every run whose clock is not set back. -/
theorem silence_run (hclock : Ordered ops) (hpos : ∀ now, .send now ∈ ops → 0 < now) :
    Silence config addrs ops (run config addrs ops) := by
  induction ops using List.reverseRecOn with
  | nil => exact silence_start config addrs
  | append_singleton ops op ih =>
    have h := ih hclock.of_append fun now hnow => hpos now (List.mem_append_left _ hnow)
    rw [run_concat]
    cases op with
    | send now => exact h.send hclock (hpos now (by simp))
    | inbound sender => exact h.inbound sender
    | closed => exact h.closed

/-- Throughout a run whose clock is past zero and not set back, a datagram to a super peer leads to an attempt exactly if
there is no connection, one that is unanswered lies more than the timeout back, and so do all attempts so far.  A datagram
from a super peer closes the connection if there is one, and one from anyone else changes nothing. -/
theorem attempts_spaced (config : FallbackConfig) (addrs : List Address) (ops : List Operation) (hclock : Ordered ops)
    (hpos : ∀ now, .send now ∈ ops → 0 < now) :
    (∀ past now later, ops = past ++ .send now :: later →
      (((run config addrs past).onSend now).1 = true ↔ (run config addrs past).active = false ∧
        (∃ t, Unanswered addrs past t ∧ t + config.timeout.millis < now) ∧
        ∀ t, Attempted config addrs past t → t + config.timeout.millis < now)) ∧
    ∀ past sender later, ops = past ++ .inbound sender :: later →
      (((run config addrs past).onInbound sender).1 = true ↔
        sender ∈ addrs ∧ (run config addrs past).active = true) ∧
      (sender ∈ addrs → (run config addrs (past ++ [.inbound sender])).active = false) ∧
      (sender ∉ addrs → run config addrs (past ++ [.inbound sender]) = run config addrs past) := by
  have hrun : ∀ past op later, ops = past ++ op :: later → Silence config addrs past (run config addrs past) := by
    rintro past op later rfl
    exact silence_run hclock.of_append fun now hnow => hpos now (List.mem_append_left _ hnow)
  refine ⟨fun past now later h => (hrun past _ later h).onSend_iff now, fun past sender later h => ?_⟩
  have hs := (hrun past _ later h).isSuperPeer_iff sender
  rw [run_concat, perform, onInbound]
  split
  · rename_i hsuper
    exact ⟨(and_iff_right (hs.1 hsuper)).symm, fun _ => rfl, fun hnot => absurd (hs.1 hsuper) hnot⟩
  · rename_i hother
    have hnot : sender ∉ addrs := mt hs.2 hother
    exact ⟨iff_of_false Bool.false_ne_true fun h => hnot h.1, fun hmem => absurd hmem hnot, fun _ => rfl⟩

/-- An attempt, a connection that ends, and the next attempt. -/
theorem attempts_spaced_script :
    let ops : List Operation := [.send 1000, .send 16001, .closed, .send 31001, .send 31002, .inbound default]
    Ordered ops ∧ (∀ now, .send now ∈ ops → 0 < now) ∧
      ((run {} [default] [.send 1000, .send 16001, .closed]).onSend 31001).1 = false ∧
      ((run {} [default] [.send 1000, .send 16001, .closed, .send 31001]).onSend 31002).1 = true ∧
      (∀ t, Attempted {} [default] [.send 1000, .send 16001, .closed, .send 31001] t → t + 15000 < 31002) ∧
      ((run {} [default] [.send 1000, .send 16001, .closed, .send 31001, .send 31002]).onInbound default).1 = true := by
  intro ops
  have hclock : Ordered ops := by unfold Ordered ops; decide
  have hpos : ∀ now, .send now ∈ ops → 0 < now := by simp [ops]
  obtain ⟨hsend, hinbound⟩ := attempts_spaced {} [default] ops hclock hpos
  have hagain : ((run {} [default] [.send 1000, .send 16001, .closed, .send 31001]).onSend 31002).1 = true := by decide
  have hearly : ((run {} [default] [.send 1000, .send 16001, .closed]).onSend 31001).1 = false := by decide
  refine ⟨hclock, hpos, hearly, hagain, ?_, ?_⟩
  · exact ((hsend _ 31002 _ (show ops = [.send 1000, .send 16001, .closed, .send 31001] ++ _ from rfl)).1 hagain).2.2
  · exact (hinbound _ default [] rfl).1.2 ⟨List.mem_singleton_self _, by decide⟩

end Fallback

end Overlay
