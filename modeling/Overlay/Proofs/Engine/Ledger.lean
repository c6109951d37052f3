import Overlay.Proofs.Engine.Live

/-!
# For whom secrets are drawn

A secret is drawn for the session whose agreement it is to become part of, and for no other one.  A ledger notes
for each draw the peer of that session: the agreement under negotiation with a peer has a key pair that was drawn
for that peer, and the bond that belongs to its two keys (`Endpoint.Ledger`).  Every run goes on with such a ledger,
and does not change what was noted before it (`ledger_run`).

An entry can be struck out when the agreement has been promoted (`Ledger.strike`): the key pair is not
offered again.
-/

namespace Overlay

/-- The agreement under negotiation has a key pair drawn with a number of some kind, and the bond that belongs to
its keys. -/
def Session.Offers (S : Suite) (e : Entropy) (A : Nat → Prop) (s : Session) : Prop :=
  ∀ g, s.inactive = some g →
    (∃ i < e.secretsDrawn, A i ∧ g.keyPair = S.keyPair (e.secretAt i)) ∧
      ∀ b, g.bond = some b → Agreement.bondWith S g.keyPair b.recipient = .ok b

theorem Session.Offers.mono {S : Suite} {e e' : Entropy} {A B : Nat → Prop} {s : Session}
    (h : s.Offers S e A) (hsecrets : e'.secretAt = e.secretAt) (hdrawn : e.secretsDrawn ≤ e'.secretsDrawn)
    (hAB : ∀ i < e.secretsDrawn, A i → B i) : s.Offers S e' B := by
  intro g hg
  obtain ⟨⟨i, hi, hA, hkey⟩, hbond⟩ := h g hg
  exact ⟨⟨i, Nat.lt_of_lt_of_le hi hdrawn, hAB i hi hA, by rw [hsecrets]; exact hkey⟩, hbond⟩

namespace Turn

variable {x : Context} {h : Hearing} {t t' : Turn}

/-- A move leaves the agreement under negotiation alone, bonds it, promotes it, or draws a new one. -/
theorem Move.offers (hm : Move x h t t') {A : Nat → Prop} (hA : ∀ i, t.entropy.secretsDrawn ≤ i → A i)
    (ht : t.session.Offers x.suite t.entropy A) : t'.session.Offers x.suite t'.entropy A := by
  have hsame := hm.entropy
  have hkept : t'.session.inactive = t.session.inactive → t'.session.Offers x.suite t'.entropy A := by
    intro hi g hg
    exact ht.mono hsame.1 hsame.2 (fun _ _ h => h) g (hi ▸ hg)
  cases hm with
  | offer hn =>
    intro g hg
    cases hg
    exact ⟨⟨t.entropy.secretsDrawn, Nat.lt_succ_self _, hA _ (Nat.le_refl _), rfl⟩, nofun⟩
  | bond a key b hk ha hb =>
    intro g hg
    cases hg
    refine ⟨(ht a ha).1, ?_⟩
    intro b' hb'
    cases hb'
    rw [(bondWith_ok hb).1]
    exact hb
  | promote a id hid ha hi =>
    intro g hg
    rw [promote_of_id ha hi] at hg
    cases hg
  | evict id => exact hkept (by rw [evictAgreement, resumeLongTime_session]; rfl)
  | retire o => exact hkept (by rw [resumeLongTime_session]; rfl)
  | _ => exact hkept rfl

theorem Moves.offers (hm : Moves x h t t') {A : Nat → Prop} (hA : ∀ i, t.entropy.secretsDrawn ≤ i → A i)
    (ht : t.session.Offers x.suite t.entropy A) : t'.session.Offers x.suite t'.entropy A := by
  induction hm with
  | refl => exact ht
  | tail hms hm ih =>
    exact hm.offers (fun i hi => hA i (Nat.le_trans (Moves.entropy hms).2 hi)) ih

end Turn

namespace Endpoint

open Engine

variable {S : Suite} {now : Nat} {sc : Scope} {w w' : Endpoint} {p : PublicKey}
  {owner owner' : Nat → Option PublicKey}

/-- Every agreement under negotiation has a key pair that was drawn for its peer. -/
def Ledger (S : Suite) (owner : Nat → Option PublicKey) (w : Endpoint) : Prop :=
  ∀ p s, w.engine.held p = some s → s.Offers S w.entropy fun i => owner i = some p

/-- A later ledger agrees with an earlier one on what was drawn by then. -/
def Continues (w : Endpoint) (owner owner' : Nat → Option PublicKey) : Prop :=
  ∀ i < w.entropy.secretsDrawn, owner' i = owner i

theorem ledger_start (S : Suite) (identity : KeyPair) (config : ArmConfig) (entropy : Entropy)
    (owner : Nat → Option PublicKey) : (start identity config entropy).Ledger S owner := by
  intro p s hp
  cases hp

theorem Step.ledger (hs : Step S now sc w w') (hw : w.engine.sessions.Sound) (h : w.Ledger S owner) :
    ∃ owner', w.Continues owner owner' ∧ w'.Ledger S owner' := by
  have hfresh : ∀ p s, w.engine.freshSession S p = .ok s → s.Offers S w.entropy fun i => owner i = some p := by
    intro p s hs g hg
    obtain ⟨b, -, rfl⟩ := freshSession_ok hs
    cases hg
  cases hs with
  | settle c events hc hb hf =>
    refine ⟨owner, fun _ _ => rfl, ?_⟩
    intro p s hp
    have hfate := hf p
    rw [show (c.stored p).map (·.value) = some s from hp] at hfate
    rcases hfate.origin with hheld | ⟨-, hs⟩
    · exact h p s hheld
    · exact hfresh p s hs
  | lapse c q i hc hb hi hstored hl =>
    refine ⟨owner, fun _ _ => rfl, ?_⟩
    intro p s hp
    have hp' : (c.stored p).map (·.value) = some s := hp
    rw [hstored p] at hp'
    split at hp'
    · cases hp'
    · exact h p s hp'
  | turn q s t hpeer hq hm =>
    obtain ⟨hsecrets, hdrawn⟩ := hm.entropy
    refine ⟨fun i => if i < w.entropy.secretsDrawn then owner i else some q, fun i hi => if_pos hi, ?_⟩
    intro p s' hp
    have hp' : (w.engine.absorb q t).held p = some s' := hp
    rw [held_absorb hw hq] at hp'
    split at hp'
    · rename_i hpq
      subst hpq
      cases hp'
      refine Turn.Moves.offers hm (fun i hi => if_neg (Nat.not_lt.2 hi)) ?_
      exact (h p s hq).mono rfl (Nat.le_refl _) fun i hi howner => (if_pos hi).trans howner
    · exact (h p s' hp').mono hsecrets hdrawn fun i hi howner => (if_pos hi).trans howner
  | queue deferred outbox hd ho => exact ⟨owner, fun _ _ => rfl, h⟩
  | handOut => exact ⟨owner, fun _ _ => rfl, h⟩

theorem Steps.ledger (hs : Steps S now sc w w') (hw : w.engine.sessions.Sound) (h : w.Ledger S owner) :
    ∃ owner', w.Continues owner owner' ∧ w'.Ledger S owner' := by
  have hall : w.entropy.secretsDrawn ≤ w'.entropy.secretsDrawn ∧
      ∃ owner', w.Continues owner owner' ∧ w'.Ledger S owner' := by
    refine hs.keeps (P := fun v => w.entropy.secretsDrawn ≤ v.entropy.secretsDrawn ∧
      ∃ owner', w.Continues owner owner' ∧ v.Ledger S owner') hw ?_
      ⟨Nat.le_refl _, owner, fun _ _ => rfl, h⟩
    rintro v v' hv hstep ⟨hle, owner₁, hcontinues, hledger⟩
    obtain ⟨owner₂, hcontinues₂, hledger₂⟩ := hstep.ledger hv hledger
    refine ⟨Nat.le_trans hle hstep.entropy.2, owner₂, ?_, hledger₂⟩
    intro i hi
    exact (hcontinues₂ i (Nat.lt_of_lt_of_le hi hle)).trans (hcontinues i hi)
  exact hall.2

theorem ledger_run (S : Suite) (hw : w.engine.sessions.Sound) (h : w.Ledger S owner)
    (ops : List (Nat × Operation)) :
    ∃ owner', w.Continues owner owner' ∧ (w.run S ops).Ledger S owner' := by
  induction ops using List.reverseRecOn with
  | nil => exact ⟨owner, fun _ _ => rfl, h⟩
  | append_singleton ops o ih =>
    obtain ⟨owner₁, hcontinues, hledger⟩ := ih
    have hsound := sound_run (S := S) hw ops
    have hdrawn := (entropy_run (S := S) hw ops).2
    obtain ⟨v, hsteps, hclose⟩ := o.2.course S o.1 hsound
    obtain ⟨owner₂, hcontinues₂, hledger₂⟩ := hsteps.ledger hsound hledger
    refine ⟨owner₂, fun i hi => (hcontinues₂ i (Nat.lt_of_lt_of_le hi hdrawn)).trans (hcontinues i hi), ?_⟩
    rw [run_concat]
    intro p s hp
    rw [held, hclose.sessions] at hp
    rw [hclose.same.2.1]
    exact hledger₂ p s hp

/-- What was drawn for a peer with whom nothing is under negotiation may be struck out. -/
theorem Ledger.strike (h : w.Ledger S owner) (hp : ∀ s, w.engine.held p = some s → s.inactive = none) :
    w.Ledger S fun i => if owner i = some p then none else owner i := by
  intro q s hq g hg
  have hne : q ≠ p := by
    rintro rfl
    rw [hp s hq] at hg
    cases hg
  refine (h q s hq).mono rfl (Nat.le_refl _) ?_ g hg
  intro i _ howner
  have howner' : owner i ≠ some p := fun he => hne (Option.some.inj (howner.symm.trans he))
  exact (if_neg howner').trans howner

end Endpoint

end Overlay
