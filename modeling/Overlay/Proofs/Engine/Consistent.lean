import Overlay.Proofs.Engine.Operation
import Overlay.Proofs.Session.Consistent

/-!
# Stored sessions are consistent

In a run of an engine whose clock does not go back, every stored session is consistent after every operation
(`consistent_run`).  Every operation keeps it: what is stored was stored before, is fresh, or comes out of a turn
(`Course.consistent`).
-/

namespace Overlay

namespace Endpoint

open Engine

variable {S : Suite} {now : Nat} {sc : Scope} {w w' : Endpoint}

def Consistent (S : Suite) (now : Nat) (w : Endpoint) : Prop :=
  ∀ p s, w.engine.held p = some s → s.Consistent S w.engine.config now

theorem Consistent.later (hw : w.Consistent S now) (hc : w.engine.config.Fits) {moment : Nat}
    (hle : now ≤ moment) : w.Consistent S moment :=
  fun p s hs => (hw p s hs).later hc hle

/-- An operation keeps it: what is stored was stored before, is fresh, or comes out of a turn. -/
theorem Course.consistent (hs : Course S now sc w w') (hw : w.engine.sessions.Sound)
    (hc : w.engine.config.Fits) (hroom : now + w.engine.config.expireAfter.millis < 2 ^ 64)
    (hcons : w.Consistent S now) : w'.Consistent S now := by
  intro p s hp
  rw [hs.config]
  refine hs.sessions (Q := fun _ s => s.Consistent S w.engine.config now) hw ?_ ?_ hcons p s hp
  · intro p s hfresh
    obtain ⟨b, -, rfl⟩ := freshSession_ok hfresh
    exact .fresh S w.engine.config now b.id b.pair
  · intro p t t' hm ht
    exact hm.consistent hc hroom ht

/-- **Stored sessions are consistent.**  In a run of an engine whose clock does not go back and leaves room
for a lifetime, every stored session, expired or not, is consistent at the moment of the last operation and
passes its own check. -/
theorem consistent_run (S : Suite) (identity : KeyPair) (config : ArmConfig) (entropy : Entropy)
    (ops : List (Nat × Operation)) (now : Nat) (op : Operation) (hfits : config.Fits)
    (hclock : ((ops ++ [(now, op)]).map Prod.fst).Pairwise (· ≤ ·))
    (hroom : ∀ o ∈ ops ++ [(now, op)], o.1 + config.expireAfter.millis < 2 ^ 64)
    (p : PublicKey) (i : Item PublicKey Session)
    (hi : ((start identity config entropy).run S (ops ++ [(now, op)])).engine.sessions.stored p = some i) :
    i.value.Consistent S config now ∧ i.value.check now = .ok () := by
  have hsound := fun ops => sound_run (S := S) (sound_start identity config entropy) ops
  have hconfig := fun ops => config_run (S := S) (sound_start identity config entropy) ops
  -- An operation at a moment keeps what was consistent before that moment.
  have hop : ∀ (past : List (Nat × Operation)) (o : Nat × Operation),
      o.1 + config.expireAfter.millis < 2 ^ 64 →
      ((start identity config entropy).run S past).Consistent S o.1 →
      ((start identity config entropy).run S (past ++ [o])).Consistent S o.1 := by
    intro past o ho hcons
    have hcourse := o.2.course S o.1 (hsound past)
    rw [run_concat]
    refine hcourse.consistent (hsound past) ?_ ?_ hcons
    · rw [hconfig]
      exact hfits
    · rw [hconfig]
      exact ho
  have hpast : ∀ (past : List (Nat × Operation)) (moment : Nat),
      (past.map Prod.fst).Pairwise (· ≤ ·) → (∀ o ∈ past, o.1 ≤ moment) →
      (∀ o ∈ past, o.1 + config.expireAfter.millis < 2 ^ 64) →
      ((start identity config entropy).run S past).Consistent S moment := by
    intro past
    induction past using List.reverseRecOn with
    | nil =>
      intro moment _ _ _ q s hq
      cases hq
    | append_singleton past o ih =>
      intro moment hsorted hle hroom
      rw [List.map_append, List.pairwise_append] at hsorted
      have hbefore := ih o.1 hsorted.1
        (fun o' ho' => hsorted.2.2 o'.1 (List.mem_map_of_mem ho') o.1 (by simp))
        fun o' ho' => hroom o' (by simp [ho'])
      have hfits' : ((start identity config entropy).run S (past ++ [o])).engine.config.Fits := by
        rw [hconfig]
        exact hfits
      exact (hop past o (hroom o (by simp)) hbefore).later hfits' (hle o (by simp))
  rw [List.map_append, List.pairwise_append] at hclock
  have hbefore := hpast ops now hclock.1
    (fun o ho => hclock.2.2 o.1 (List.mem_map_of_mem ho) now (by simp))
    fun o ho => hroom o (by simp [ho])
  have hafter := hop ops (now, op) (hroom (now, op) (by simp)) hbefore p i.value
    (by rw [held, hi]; rfl)
  rw [hconfig] at hafter
  exact ⟨hafter, hafter.check⟩

/-- The session with the partner is consistent, now that it is protected by a short-lived agreement. -/
theorem consistent_acquaintance :
    ∃ i, (newcomer.run Textbook.suite acquaintance).engine.sessions.stored partner = some i ∧
      i.value.state = .forwardSecrecy ∧ i.value.Consistent Textbook.suite {} 2 ∧
      i.value.check 2 = .ok () := by
  have hstate : ((newcomer.run Textbook.suite acquaintance).engine.sessions.stored partner).map
      (·.value.state) = some .forwardSecrecy := by decide +kernel
  obtain ⟨i, hi, hs⟩ := Option.map_eq_some_iff.1 hstate
  refine ⟨i, hi, hs, consistent_run Textbook.suite _ {} _ [acquaintance.head (by decide)] 2 _ ?_ ?_ ?_
    partner i hi⟩
  · unfold ArmConfig.Fits
    decide +kernel
  · decide +kernel
  · decide +kernel

end Endpoint

end Overlay
