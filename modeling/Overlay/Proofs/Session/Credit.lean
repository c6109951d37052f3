import Overlay.Proofs.Session.Pace

/-!
# The credit of a session

While the clock stands still, a session may send one key for an exchange, if one is due, and one for a renewal, if one
is due.  This is its `Session.credit`.  The keys of a turn are taken from it (`Session.Pace.credit`).

All that a session sends but payloads goes under its long-time agreement (`Operation.longTime_turnSeals`), and is a key
or an acknowledgement (`Seal.length_negotiation`).  What is left for later acknowledges nothing, and leaves nothing for
later itself (`Deferred.turn`).
-/

namespace Overlay

theorem intervalElapsed_now (now interval : Nat) : intervalElapsed (some now) now interval = false := by
  show decide (interval < now - now) = false
  rw [Nat.sub_self]
  exact decide_eq_false (Nat.not_lt_zero interval)

namespace Session

/-- How many keys a session may still send while the clock stands still. -/
def credit (interval now : Nat) (s : Session) : Nat :=
  (intervalElapsed s.lastKeyExchangeAt now interval).toNat + (intervalElapsed s.lastRenewAttemptAt now interval).toNat

theorem credit_le (interval now : Nat) (s : Session) : s.credit interval now ≤ 2 :=
  Nat.add_le_add (Bool.toNat_le _) (Bool.toNat_le _)

/-- **The keys of a turn are taken from the credit of the session.** -/
theorem Pace.credit {x : Context} {s s' : Session} {renews : Bool} {l : List Seal} (h : Pace x s s' renews l) :
    s'.credit x.config.retryInterval.millis x.now + l.length ≤ s.credit x.config.retryInterval.millis x.now := by
  unfold Session.credit
  cases h with
  | rest _ h => rw [h.exchange, h.renewal, List.length_nil, Nat.add_zero]
  | exchange k hdue hk hr hi =>
    rw [hk, hr, hdue, intervalElapsed_now, List.length_singleton, Bool.toNat_false, Bool.toNat_true]
    omega
  | promotion hk hr =>
    rw [hk, hr, intervalElapsed_now, List.length_nil, Bool.toNat_false]
    omega
  | renewal k hdue hk hr hi =>
    rw [hr, hdue, intervalElapsed_now, Bool.toNat_false, Bool.toNat_true]
    cases k with
    | none =>
      rw [hk, Option.isSome_none, if_neg Bool.false_ne_true, Option.toList_none, List.length_nil]
      omega
    | some k =>
      rw [hk, Option.isSome_some, if_pos rfl, intervalElapsed_now, Option.toList_some, List.length_singleton,
        Bool.toNat_false]
      omega

end Session

/-! ### What is sent -/

namespace Seal

theorem length_negotiation {l : List Seal} (h : ∀ s ∈ l, ∀ payload, s.content ≠ .application payload) :
    l.length = (keys l).length + (acks l).length := by
  have hacks : acks l = l.filter fun s => !s.content.isKey := by
    refine List.filter_congr ?_
    intro s hs
    cases hc : s.content with
    | application payload => exact absurd hc (h s hs payload)
    | keyExchange key => rfl
    | acknowledgement id => rfl
  rw [hacks, keys]
  exact List.length_eq_length_filter_add fun s : Seal => s.content.isKey

def LongTime (s : Session) (k : Seal) : Prop := k.key = s.longTimePair.tx ∧ k.id = s.longTimeId

end Seal

namespace Turn

variable {x : Context} {t t' : Turn} {s : Seal}

theorem Moves.seal {h : Hearing} (hm : Moves x h t t') (hs : s.LongTime t'.session) : s.LongTime t.session :=
  ⟨hs.1.trans (congrArg SessionPair.tx hm.longTime.2), hs.2.trans hm.longTime.1⟩

theorem longTime_longTimeSeals {content : ArmMessage} (hs : s ∈ t.longTimeSeals x content) :
    s.LongTime t.session := by
  obtain ⟨c, -, rfl⟩ := List.mem_map.1 hs
  exact ⟨rfl, rfl⟩

theorem longTime_exchangeSeals (hs : s ∈ t.exchangeSeals x) : s.LongTime t.session := by
  have hm := moves_ensureInactive x .silence t
  unfold exchangeSeals at hs
  cases hr : t.ensureInactive x with
  | mk key t' =>
    rw [hr] at hs hm
    simp only at hs
    split at hs
    · exact hm.seal (longTime_longTimeSeals hs)
    · cases hs

theorem longTime_ackSeals (hs : s ∈ t.ackSeals x) : s.LongTime t.session := by
  unfold ackSeals at hs
  cases hid : t.session.inactiveId with
  | none =>
    rw [hid] at hs
    cases hs
  | some id =>
    rw [hid] at hs
    exact longTime_longTimeSeals hs

theorem longTime_renewalSeals (hs : s ∈ t.renewalSeals x) : s.LongTime t.session := by
  unfold renewalSeals at hs
  cases ha : t.session.active with
  | none =>
    rw [ha] at hs
    cases hs
  | some a =>
    simp only [ha, Option.elim_some] at hs
    split at hs
    · cases hs
    split at hs
    · have hm := moves_ensureInactive x .silence (t.withSession { t.session with lastRenewAttemptAt := some x.now })
      simp only [ha] at hm
      exact hm.seal (longTime_longTimeSeals hs)
    · cases hs

theorem longTime_answerSeals {key : PublicKey} (hs : s ∈ t.answerSeals x key) : s.LongTime t.session := by
  have hbond : Moves x (.ofKey key) t ((t.ensureInactive x).2.bondInactive x key).2 :=
    (moves_ensureInactive x (.ofKey key) t).trans (moves_bondInactive rfl (t.ensureInactive x).2)
  unfold answerSeals at hs
  split at hs
  · cases hs
  cases hr : (t.ensureInactive x).2.bondInactive x key with
  | mk result t₁ =>
    rw [hr] at hs hbond
    cases result with
    | error e => cases hs
    | ok u =>
      refine Moves.seal hbond ?_
      simp only at hs
      split at hs
      · rcases List.mem_append.1 hs with hs | hs
        · exact longTime_exchangeSeals hs
        have hsend := moves_doKeyExchange x .silence t₁
        cases hd : t₁.doKeyExchange x with
        | mk result t₂ =>
          rw [hd] at hs hsend
          cases result with
          | error e => cases hs
          | ok u => exact hsend.seal (longTime_ackSeals hs)
      · exact longTime_ackSeals hs

theorem longTime_disarmSeals {m : ArmedMessage} (hsound : t.session.initialized.Sound) (hs : s ∈ t.disarmSeals x m) :
    s.LongTime t.session := by
  have hsession := session_deferIf x.config.forwardSecrecy .checkRenewal t
  unfold disarmSeals at hs
  generalize (if x.config.forwardSecrecy then t.defer .checkRenewal else t) = t₁ at hsession hs
  rw [← hsession] at hsound ⊢
  have hopening := opening_openInbound hsound x m
  split at hs
  · rename_i key t₂ hr
    rw [hr] at hopening
    obtain ⟨-, rfl⟩ := opening_longTime hopening
    split at hs
    · exact longTime_answerSeals hs
    · cases hs
  · cases hs

/-! ### What is left for later -/

theorem resumeLongTime_deferred (x : Context) (t : Turn) : (t.resumeLongTime x).deferred = t.deferred := by
  unfold resumeLongTime
  split <;> rfl

theorem deferred_ensureInactive (x : Context) (t : Turn) : (t.ensureInactive x).2.deferred = t.deferred := by
  unfold ensureInactive
  cases t.session.inactive <;> rfl

theorem deferred_sendKeyExchange (x : Context) (key : PublicKey) (t : Turn) :
    (t.sendKeyExchange x key).2.deferred = t.deferred := by
  have hseal : (t.sealLongTime x (.keyExchange key)).2.deferred = t.deferred := rfl
  unfold sendKeyExchange
  cases hr : t.sealLongTime x (.keyExchange key) with
  | mk result t' =>
    rw [hr] at hseal
    cases result <;> exact hseal

theorem deferred_doKeyExchange (x : Context) (t : Turn) : (t.doKeyExchange x).2.deferred = t.deferred := by
  have hoffer := deferred_ensureInactive x t
  unfold doKeyExchange
  cases hr : t.ensureInactive x with
  | mk key t' =>
    rw [hr] at hoffer
    simp only
    split
    · exact (deferred_sendKeyExchange x key t').trans hoffer
    · exact hoffer

theorem deferred_checkForRenew (x : Context) (t : Turn) : (t.checkForRenew x).2.deferred = t.deferred := by
  simp only [checkForRenew]
  cases ha : t.session.active with
  | none => rfl
  | some a =>
    simp only
    split
    · exact resumeLongTime_deferred x _
    · split
      · exact (deferred_sendKeyExchange x _ _).trans (deferred_ensureInactive x _)
      · rfl

end Turn

/-! ### Operations -/

namespace Operation

variable {x : Context} {t : Turn} {s : Seal} {op : Operation}

/-- All that a turn sends but payloads belongs to the handshake, and goes under the long-time agreement. -/
theorem longTime_turnSeals (hsound : t.session.initialized.Sound)
    (harm : ∀ peer payload, op ≠ .armOutbound peer payload) (hs : s ∈ op.turnSeals x t) :
    s.Negotiates x ∧ s.LongTime t.session := by
  cases op with
  | armOutbound peer payload => exact absurd rfl (harm peer payload)
  | disarmInbound peer m => exact ⟨Turn.negotiates_disarmSeals hs, Turn.longTime_disarmSeals hsound hs⟩
  | doKeyExchange peer => exact ⟨Turn.negotiates_exchangeSeals hs, Turn.longTime_exchangeSeals hs⟩
  | receivedKeyExchange peer key => exact ⟨Turn.negotiates_answerSeals hs, Turn.longTime_answerSeals hs⟩
  | sendAck peer => exact ⟨Turn.negotiates_ackSeals hs, Turn.longTime_ackSeals hs⟩
  | checkForRenew peer => exact ⟨Turn.negotiates_renewalSeals hs, Turn.longTime_renewalSeals hs⟩
  | _ => cases hs

end Operation

/-- A job acknowledges nothing, and leaves no job. -/
theorem Deferred.turn (work : Deferred) (peer : PublicKey) (x : Context) (t : Turn) :
    Seal.acks ((work.operation peer).turnSeals x t) = [] ∧
      ((work.operation peer).turn x t).deferred = t.deferred := by
  cases work with
  | checkRenewal => exact ⟨Turn.acks_renewalSeals x t, Turn.deferred_checkForRenew x t⟩
  | keyExchange => exact ⟨Turn.acks_exchangeSeals x t, Turn.deferred_doKeyExchange x t⟩

end Overlay
