import Overlay.Proofs.Engine.Live
import Overlay.Proofs.Session.Sealing

/-!
# The pace of key exchanges

A session notes when it last sent a key, and when it last attempted a renewal or promoted an agreement.  How these
times move in one turn, and which keys are sent in it, is its `Pace`: nothing happens; a key is sent, a retry
interval after the last one; the time of the last renewal is set because an agreement was promoted; or a renewal is
attempted, a retry interval after the last attempt or promotion.  Only a check for renewal is of the last kind, and
it is of no other but the first.

Every operation has such a pace (`Operation.pace_turn`), and acknowledges at most one agreement, which only the
receipt of a key can make it do (`Turn.acks_disarmSeals`).
-/

namespace Overlay

namespace ArmMessage

def isKey : ArmMessage → Bool
  | .keyExchange _ => true
  | _ => false

def isAck : ArmMessage → Bool
  | .acknowledgement _ => true
  | _ => false

end ArmMessage

namespace Seal

def keys (l : List Seal) : List Seal := l.filter (·.content.isKey)

def acks (l : List Seal) : List Seal := l.filter (·.content.isAck)

theorem keys_append (l l' : List Seal) : keys (l ++ l') = keys l ++ keys l' := List.filter_append ..

theorem acks_append (l l' : List Seal) : acks (l ++ l') = acks l ++ acks l' := List.filter_append ..

end Seal

namespace Session

structure Steady (s s' : Session) : Prop where
  exchange : s'.lastKeyExchangeAt = s.lastKeyExchangeAt
  renewal : s'.lastRenewAttemptAt = s.lastRenewAttemptAt
  inactive : s.inactive ≠ none → s'.inactive ≠ none

namespace Steady

theorem refl (s : Session) : s.Steady s := ⟨rfl, rfl, id⟩

theorem trans {s s' s'' : Session} (h : s.Steady s') (g : s'.Steady s'') : s.Steady s'' :=
  ⟨g.exchange.trans h.exchange, g.renewal.trans h.renewal, fun hi => g.inactive (h.inactive hi)⟩

end Steady

/-- How the times of a session move in a turn that sends the given keys; `renews` tells whether it is a check for
renewal. -/
inductive Pace (x : Context) (s s' : Session) : (renews : Bool) → List Seal → Prop where
  | rest (renews : Bool) (h : s.Steady s') : Pace x s s' renews []
  | exchange (k : Seal) (hdue : intervalElapsed s.lastKeyExchangeAt x.now x.config.retryInterval.millis = true)
      (hk : s'.lastKeyExchangeAt = some x.now) (hr : s'.lastRenewAttemptAt = s.lastRenewAttemptAt)
      (hi : s.inactive ≠ none → s'.inactive ≠ none) : Pace x s s' false [k]
  | promotion (hk : s'.lastKeyExchangeAt = s.lastKeyExchangeAt) (hr : s'.lastRenewAttemptAt = some x.now) :
      Pace x s s' false []
  | renewal (k : Option Seal)
      (hdue : intervalElapsed s.lastRenewAttemptAt x.now x.config.retryInterval.millis = true)
      (hk : s'.lastKeyExchangeAt = if k.isSome then some x.now else s.lastKeyExchangeAt)
      (hr : s'.lastRenewAttemptAt = some x.now) (hi : s.inactive ≠ none → s'.inactive ≠ none) :
      Pace x s s' true k.toList

theorem Steady.pace {x : Context} {s s' s'' : Session} {l : List Seal} (h : s.Steady s')
    (g : Pace x s' s'' false l) : Pace x s s'' false l := by
  cases g with
  | rest _ hg => exact .rest false (h.trans hg)
  | exchange k hdue hk hr hi =>
    exact .exchange k (h.exchange ▸ hdue) hk (hr.trans h.renewal) fun hs => hi (h.inactive hs)
  | promotion hk hr => exact .promotion (hk.trans h.exchange) hr

theorem Pace.trans {x : Context} {s s' s'' : Session} (h : Pace x s s' false []) (g : Pace x s' s'' false []) :
    Pace x s s'' false [] := by
  cases h with
  | rest _ h => exact h.pace g
  | promotion hk hr =>
    cases g with
    | rest _ g => exact .promotion (g.exchange.trans hk) (g.renewal.trans hr)
    | promotion hk' hr' => exact .promotion (hk'.trans hk) hr'

end Session

namespace Turn

open Session

variable {x : Context} {t : Turn} {s : Seal}

/-! ### Keys -/

theorem steady_ensureInactive (x : Context) (t : Turn) : t.session.Steady (t.ensureInactive x).2.session := by
  unfold ensureInactive
  cases ha : t.session.inactive with
  | some a => exact .refl _
  | none => exact ⟨rfl, rfl, fun _ => nofun⟩

theorem steady_bondInactive (x : Context) (key : PublicKey) (t : Turn) :
    t.session.Steady (t.bondInactive x key).2.session := by
  rcases bondInactive_cases x key t with ⟨-, hr⟩ | ⟨a, err, -, -, hr⟩ | ⟨a, b, -, -, hr⟩
  · rw [hr]
    exact .refl _
  · rw [hr]
    exact .refl _
  · rw [hr]
    exact ⟨rfl, rfl, fun _ => nofun⟩

/-- A key is sent and the time noted, or nothing happens. -/
theorem sendKeyExchange_cases (x : Context) (key : PublicKey) (t : Turn) :
    (t.longTimeSeals x (.keyExchange key) = [] ∧ (t.sendKeyExchange x key).2.session = t.session) ∨
      ∃ k, t.longTimeSeals x (.keyExchange key) = [k] ∧ Seal.keys [k] = [k] ∧
        (t.sendKeyExchange x key).2.session = { t.session with lastKeyExchangeAt := some x.now } := by
  have hsession := session_sealLongTime x (.keyExchange key) t
  unfold sendKeyExchange
  obtain ⟨t', -, ⟨hr, hs⟩ | ⟨k, hr, hs⟩⟩ := sealLongTime_cases x (.keyExchange key) t
  · rw [hr] at hsession ⊢
    exact Or.inl ⟨hs, hsession⟩
  · have hmem : k ∈ t.longTimeSeals x (.keyExchange key) := by
      rw [hs]
      exact List.mem_cons_self
    have hkey : k.content.isKey = true := by
      rw [(of_seals hmem).2]
      rfl
    have hsession' : t'.session = t.session := by rwa [hr] at hsession
    rw [hr]
    refine Or.inr ⟨k, hs, ?_, ?_⟩
    · exact List.filter_cons_of_pos hkey
    · show { t'.session with lastKeyExchangeAt := some x.now } = _
      rw [hsession']

theorem pace_doKeyExchange (x : Context) (t : Turn) :
    Pace x t.session (t.doKeyExchange x).2.session false (Seal.keys (t.exchangeSeals x)) := by
  have hoffer := steady_ensureInactive x t
  unfold doKeyExchange exchangeSeals
  cases hr : t.ensureInactive x with
  | mk key t' =>
    rw [hr] at hoffer
    simp only
    split
    · rename_i hdue
      refine hoffer.pace ?_
      rcases sendKeyExchange_cases x key t' with ⟨hnone, hsame⟩ | ⟨k, hone, hkey, hnoted⟩
      · rw [hnone, hsame]
        exact .rest false (.refl _)
      · rw [hone, hkey, hnoted]
        exact .exchange k hdue rfl rfl id
    · exact .rest false hoffer

theorem keys_ackSeals (x : Context) (t : Turn) :
    Seal.keys (t.ackSeals x) = [] ∧ (Seal.acks (t.ackSeals x)).length ≤ 1 := by
  unfold ackSeals
  cases t.session.inactiveId with
  | none => exact ⟨rfl, Nat.zero_le _⟩
  | some id =>
    obtain ⟨t', -, ⟨-, hs⟩ | ⟨k, -, hs⟩⟩ := sealLongTime_cases x (.acknowledgement id) t
    · rw [Option.elim_some, hs]
      exact ⟨rfl, Nat.zero_le _⟩
    · have hmem : k ∈ t.longTimeSeals x (.acknowledgement id) := by
        rw [hs]
        exact List.mem_cons_self
      have hkey : ¬ k.content.isKey = true := by
        rw [(of_seals hmem).2]
        exact nofun
      rw [Option.elim_some, hs]
      exact ⟨List.filter_cons_of_neg hkey, List.length_filter_le _ _⟩

theorem acks_longTimeSeals (x : Context) (key : PublicKey) (t : Turn) :
    Seal.acks (t.longTimeSeals x (.keyExchange key)) = [] := by
  refine List.filter_eq_nil_iff.2 ?_
  intro k hk
  rw [(of_seals hk).2]
  exact nofun

theorem acks_exchangeSeals (x : Context) (t : Turn) : Seal.acks (t.exchangeSeals x) = [] := by
  simp only [exchangeSeals]
  split
  · exact acks_longTimeSeals x _ _
  · rfl

theorem acks_renewalSeals (x : Context) (t : Turn) : Seal.acks (t.renewalSeals x) = [] := by
  unfold renewalSeals
  cases t.session.active with
  | none => rfl
  | some a =>
    simp only [Option.elim_some]
    split
    · rfl
    · split
      · exact acks_longTimeSeals x _ _
      · rfl

/-- A key that was received is answered with ours if one is due, and with at most one acknowledgement. -/
theorem pace_receivedKeyExchange (x : Context) (key : PublicKey) (t : Turn) :
    Pace x t.session (t.receivedKeyExchange x key).2.session false (Seal.keys (t.answerSeals x key)) ∧
      (Seal.acks (t.answerSeals x key)).length ≤ 1 := by
  unfold receivedKeyExchange answerSeals
  split
  · exact ⟨.rest false (.refl _), Nat.zero_le _⟩
  have hbond := (steady_ensureInactive x t).trans (steady_bondInactive x key (t.ensureInactive x).2)
  simp only
  cases hr : (t.ensureInactive x).2.bondInactive x key with
  | mk result t₁ =>
    rw [hr] at hbond
    cases result with
    | error e => exact ⟨.rest false hbond, Nat.zero_le _⟩
    | ok u =>
      simp only
      split
      · have hsend := pace_doKeyExchange x t₁
        have hquiet := acks_exchangeSeals x t₁
        cases hd : t₁.doKeyExchange x with
        | mk result t₂ =>
          rw [hd] at hsend
          cases result with
          | error e =>
            rw [List.append_nil]
            exact ⟨hbond.pace hsend, by rw [hquiet]; exact Nat.zero_le _⟩
          | ok u =>
            obtain ⟨hkeys, hacks⟩ := keys_ackSeals x t₂
            simp only [session_sendAck]
            rw [Seal.keys_append, Seal.acks_append, hkeys, hquiet, List.append_nil, List.nil_append]
            exact ⟨hbond.pace hsend, hacks⟩
      · obtain ⟨hkeys, hacks⟩ := keys_ackSeals x t₁
        rw [session_sendAck, hkeys]
        exact ⟨.rest false hbond, hacks⟩

/-! ### Promotion and renewal -/

theorem pace_promote (x : Context) (id : AgreementId) (t : Turn) :
    Pace x t.session (t.promote x id).2.session false [] := by
  rcases promote_cases x id t with ⟨-, ht⟩ | ⟨g, -, -, ht⟩
  · rw [ht]
    exact .rest false (.refl _)
  · rw [ht]
    exact .promotion rfl rfl

theorem pace_checkForRenew (x : Context) (t : Turn) :
    Pace x t.session (t.checkForRenew x).2.session true (Seal.keys (t.renewalSeals x)) := by
  simp only [checkForRenew, renewalSeals]
  cases ha : t.session.active with
  | none => exact .rest true (.refl _)
  | some a =>
    simp only [Option.elim_some]
    split
    · rw [resumeLongTime_session]
      exact .rest true ⟨rfl, rfl, id⟩
    · split
      · rename_i hdue
        rw [Bool.and_eq_true] at hdue
        have hoffer := steady_ensureInactive x (t.withSession { t.session with lastRenewAttemptAt := some x.now })
        simp only [ha] at hoffer ⊢
        cases hr : (t.withSession { t.session with lastRenewAttemptAt := some x.now }).ensureInactive x with
        | mk key t' =>
          simp only [ha] at hr
          rw [hr] at hoffer ⊢
          simp only
          rcases sendKeyExchange_cases x key t' with ⟨hnone, hsame⟩ | ⟨k, hone, hkey, hnoted⟩
          · rw [hnone, hsame]
            exact .renewal none hdue.2 hoffer.exchange hoffer.renewal hoffer.inactive
          · rw [hone, hkey, hnoted]
            exact .renewal (some k) hdue.2 rfl hoffer.renewal hoffer.inactive
      · exact .rest true (.refl _)

/-! ### Messages -/

/-- Opening a message sends nothing.  It moves the times only if it promotes an agreement. -/
theorem pace_openInbound (hs : t.session.initialized.Sound) (x : Context) (m : ArmedMessage) :
    Pace x t.session (t.openInbound x m).2.session false [] := by
  rcases session_opening (opening_openInbound hs x m) with hsame | hsame | ⟨a, -, -, -, hsame⟩ | ⟨g, -, -, hsame⟩ <;>
    rw [hsame]
  · exact .rest false (.refl _)
  · exact .rest false ⟨rfl, rfl, id⟩
  · exact .rest false ⟨rfl, rfl, id⟩
  · exact .promotion rfl rfl

theorem opened_longTime {content : ArmMessage} {m : ArmedMessage} {t' : Turn}
    (ho : Opening x m t (.ok (content, true)) t') : openMessage x t.session.longTimePair m = .ok content := by
  obtain ⟨hid, -⟩ := opening_longTime ho
  generalize hr : (.ok (content, true) : Except ArmError (ArmMessage × Bool)) = r at ho
  cases ho with
  | longTime _ =>
    cases hopen : openMessage x t.session.longTimePair m with
    | error e =>
      rw [hopen] at hr
      cases hr
    | ok content' =>
      rw [hopen] at hr
      cases hr
      rfl
  | kept a pair hid' ha hp hs => exact absurd hid hid'
  | last a pair content hid' ha hp hs ho => exact absurd hid hid'
  | blank a hid' ha hp => exact absurd hid hid'
  | promoted g s hid' ha hg hi hs => exact absurd hid hid'
  | unknown hid' ha hi => exact absurd hid hid'

/-- A message is answered with a key if one is due.  Nothing but a key under the long-time agreement is
acknowledged, and that once. -/
theorem pace_disarmInbound (hs : t.session.initialized.Sound) (x : Context) (m : ArmedMessage) :
    Pace x t.session (t.disarmInbound x m).2.session false (Seal.keys (t.disarmSeals x m)) ∧
      (Seal.acks (t.disarmSeals x m)).length ≤ 1 ∧ (Seal.acks (t.disarmSeals x m) ≠ [] →
        ∃ key, openMessage x t.session.longTimePair m = .ok (.keyExchange key)) := by
  have hsession := session_deferIf x.config.forwardSecrecy .checkRenewal t
  unfold disarmInbound disarmSeals
  generalize (if x.config.forwardSecrecy then t.defer .checkRenewal else t) = t₁ at hsession ⊢
  rw [← hsession] at hs ⊢
  have hopen := pace_openInbound hs x m
  have hopening := opening_openInbound hs x m
  have hquiet : ∀ s' : Session, Pace x t₁.session s' false [] →
      Pace x t₁.session s' false (Seal.keys []) ∧ (Seal.acks []).length ≤ 1 ∧
        (Seal.acks [] ≠ [] → ∃ key, openMessage x t₁.session.longTimePair m = .ok (.keyExchange key)) :=
    fun s' hpace => ⟨hpace, Nat.zero_le _, fun h => absurd rfl h⟩
  simp only
  cases hr : t₁.openInbound x m with
  | mk result t₂ =>
    rw [hr] at hopen hopening
    cases result with
    | error e => exact hquiet _ hopen
    | ok opened =>
      obtain ⟨content, longTime⟩ := opened
      cases content with
      | application payload => exact hquiet _ hopen
      | acknowledgement id =>
        simp only [handle]
        split
        · exact hquiet _ (hopen.trans (pace_promote x id t₂))
        · exact hquiet _ hopen
      | keyExchange key =>
        cases longTime with
        | false => exact hquiet _ hopen
        | true =>
          simp only [handle, Bool.true_and]
          split
          · obtain ⟨hid, rfl⟩ := opening_longTime hopening
            obtain ⟨hpace, hacks⟩ := pace_receivedKeyExchange x key t₂
            exact ⟨hpace, hacks, fun _ => ⟨key, opened_longTime hopening⟩⟩
          · exact hquiet _ hopen

end Turn

/-! ### Operations -/

namespace Operation

open Session

variable {x : Context} {t : Turn}

def renews : Operation → Bool
  | checkForRenew _ => true
  | _ => false

def turnSeals (x : Context) (t : Turn) : Operation → List Seal
  | armOutbound _ payload => t.payloadSeals x payload
  | disarmInbound _ m => t.disarmSeals x m
  | doKeyExchange _ => t.exchangeSeals x
  | receivedKeyExchange _ key => t.answerSeals x key
  | sendAck _ => t.ackSeals x
  | checkForRenew _ => t.renewalSeals x
  | receivedAck _ _ | defer _ _ | runDeferred | evictIdleSessions | drainOutbox | drainEvents => []

/-- **Every operation keeps the pace.** -/
theorem pace_turn (hs : t.session.initialized.Sound) (x : Context) (op : Operation) :
    Pace x t.session (op.turn x t).session op.renews (Seal.keys (op.turnSeals x t)) := by
  cases op with
  | armOutbound peer payload =>
    have hkeys : Seal.keys (t.payloadSeals x payload) = [] := by
      refine List.filter_eq_nil_iff.2 ?_
      intro k hk
      rw [(Turn.of_payloadSeals hk).2]
      exact nofun
    show Pace x t.session (t.armOutbound x payload).2.session false (Seal.keys (t.payloadSeals x payload))
    rw [Turn.session_armOutbound, hkeys]
    exact .rest false (.refl _)
  | disarmInbound peer m => exact (Turn.pace_disarmInbound hs x m).1
  | doKeyExchange peer => exact Turn.pace_doKeyExchange x t
  | receivedKeyExchange peer key => exact (Turn.pace_receivedKeyExchange x key t).1
  | sendAck peer =>
    show Pace x t.session (t.sendAck x).2.session false (Seal.keys (t.ackSeals x))
    rw [Turn.session_sendAck, (Turn.keys_ackSeals x t).1]
    exact .rest false (.refl _)
  | receivedAck peer id => exact Turn.pace_promote x id t
  | checkForRenew peer => exact Turn.pace_checkForRenew x t
  | _ => exact .rest false (.refl _)

end Operation

end Overlay
