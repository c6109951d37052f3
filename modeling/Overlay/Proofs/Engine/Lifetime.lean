import Mathlib.Data.List.Infix
import Overlay.Proofs.Engine.Found
import Overlay.Proofs.Engine.Ledger
import Overlay.Proofs.Engine.Retention
import Overlay.Proofs.Session.Limited

/-!
# The lifetime of agreements

However long a short-lived agreement is in use, it ends (`lifetime_promoted`).  From the promotion on nothing is
encrypted under it when its lifetime is over, nothing is opened under it when its retention is over, and it is not
promoted again, whatever is received and however often.

There are two parts to this.  A session has promoted the agreement at some moment at the latest, and goes on like
this as long as it does not promote it again (`Limited.run`).  And it cannot promote it again, since its name
belongs to the key pair that was spent on it: what is under negotiation later has a key pair that was drawn for
another agreement (`Endpoint.Ledger`), and hence another name (`named_otherwise`).
-/

namespace Overlay

namespace Operation

variable {x : Context} {t : Turn} {c : ArmConfig} {id : AgreementId} {t₀ : Nat} {op : Operation}

theorem limits_turn (h : t.session.Limits c id t₀) (hx : x.config = c)
    (hstart : t.session.inactiveId = some id → (op.turn x t).session.inactive = none → x.now ≤ t₀) :
    (op.turn x t).session.Limits c id t₀ := by
  rcases turn_cases x t op with hn | ⟨peer, m, rfl⟩ | ⟨peer, name, rfl⟩ | ⟨peer, rfl⟩
  · exact h.negotiated hn
  · exact Turn.limits_disarmInbound h hx hstart
  · exact Turn.limits_promote h hx name hstart
  · exact Turn.limits_checkForRenew h

end Operation

def Entropy.key (S : Suite) (e : Entropy) (i : Nat) : PublicKey := S.publicOf (e.secretAt i)

namespace Endpoint

open Engine Operation

variable {S : Suite} {now : Nat} {w : Endpoint} {p q : PublicKey} {s : Session} {c : ArmConfig}
  {id : AgreementId} {t₀ : Nat} {op : Operation} {ops : List (Nat × Operation)}

/-! ### Limits -/

/-- In the session with a peer, an agreement of a given name was promoted at `t₀` at the latest, if at all. -/
structure Limited (c : ArmConfig) (p : PublicKey) (id : AgreementId) (t₀ : Nat) (w : Endpoint) : Prop where
  config : w.engine.config = c
  session : ∀ s, w.engine.held p = some s → s.Limits c id t₀

theorem limited_start (identity : KeyPair) (config : ArmConfig) (entropy : Entropy) (p : PublicKey)
    (id : AgreementId) (t₀ : Nat) : (start identity config entropy).Limited config p id t₀ := by
  refine ⟨rfl, ?_⟩
  intro s hs
  cases hs

theorem Limited.finds (h : w.Limited c p id t₀) (hw : w.engine.sessions.Sound)
    (hs : w.engine.Finds S now p s) : s.Limits c id t₀ := by
  rcases hs with hlive | ⟨-, hfresh⟩
  · exact h.session s (held_live hw hlive)
  · obtain ⟨b, -, rfl⟩ := freshSession_ok hfresh
    rw [← h.config]
    refine ⟨⟨Cache.sound_empty _ _ _, rfl⟩, ?_, ?_⟩
    · intro g hg
      cases hg
    · intro i hi
      cases hi

theorem Limited.single (h : w.Limited c p id t₀) (hw : w.engine.sessions.Sound)
    (hfs : c.forwardSecrecy = true) (hop : op ≠ .runDeferred)
    (hstart : ∀ s, w.engine.held p = some s → s.inactiveId = some id →
      (op.turn (w.engine.context S now p) { session := s, entropy := w.entropy }).session.inactive = none →
      now ≤ t₀) : (op.perform S now w).Limited c p id t₀ := by
  refine ⟨(op.course S now hw).config.trans h.config, ?_⟩
  intro s' hs'
  rcases held_perform S now p hw (h.config ▸ hfs) hop with hsame | hnone | ⟨s, hfinds, hturn⟩
  · exact h.session s' (hsame ▸ hs')
  · rw [hnone] at hs'
    cases hs'
  · rw [hturn] at hs'
    cases hs'
    refine limits_turn (h.finds hw hfinds) h.config ?_
    intro hid hnone
    rcases hfinds with hlive | ⟨-, hfresh⟩
    · exact hstart s (held_live hw hlive) hid hnone
    · -- A fresh session has nothing to promote.
      obtain ⟨b, -, rfl⟩ := freshSession_ok hfresh
      cases hid

/-- An operation keeps an agreement limited if it comes early enough, or if another one is under negotiation. -/
theorem Limited.perform (h : w.Limited c p id t₀) (hw : w.engine.sessions.Sound)
    (hfs : c.forwardSecrecy = true)
    (hstart : now ≤ t₀ ∨ ∀ s, w.engine.held p = some s → s.inactiveId ≠ some id) :
    (op.perform S now w).Limited c p id t₀ := by
  by_cases hop : op = .runDeferred
  swap
  · exact h.single hw hfs hop fun s hs hid _ => hstart.resolve_right fun hother => hother s hs hid
  subst hop
  rw [perform_runDeferred]
  refine keeps_afterJobs (I := fun v => v.Limited c p id t₀) ⟨h.config, h.session⟩ _ ?_
  intro l₁ job l₂ _ hlimited
  refine hlimited.single (sound_afterJobs hw l₁) hfs (job.2.operation_ne_runDeferred job.1) ?_
  intro s _ hid hnone
  have hinactive : s.inactive ≠ none := by
    intro hvacant
    rw [Session.inactiveId, hvacant] at hid
    cases hid
  exact absurd hnone (inactive_turn_job hinactive job)

/-- **A run keeps an agreement limited** if every operation comes early enough, or finds another one under
negotiation. -/
theorem Limited.run (h : w.Limited c p id t₀) (hw : w.engine.sessions.Sound)
    (hfs : c.forwardSecrecy = true)
    (hstart : ∀ before o after, ops = before ++ o :: after →
      o.1 ≤ t₀ ∨ ∀ s, (w.run S before).engine.held p = some s → s.inactiveId ≠ some id) :
    (w.run S ops).Limited c p id t₀ := by
  induction ops using List.reverseRecOn with
  | nil => exact h
  | append_singleton ops o ih =>
    rw [run_concat]
    refine (ih ?_).perform (sound_run hw ops) hfs (hstart ops o [] rfl)
    intro before o' after hops
    exact hstart before o' (after ++ [o]) (by rw [hops, List.append_assoc]; rfl)

/-! ### Fresh keys -/

/-- The keys that an endpoint has come across in its conversation with a peer, besides those it has drawn: the two
addresses, and the peer's key of the agreement under negotiation. -/
def keysMet (w : Endpoint) (p : PublicKey) : List PublicKey :=
  w.engine.address :: p :: (((w.engine.held p).bind (·.inactive)).bind (·.recipient)).toList

/-- The two keys of the long-time agreement with a peer, and those of the agreement under negotiation. -/
def pairsMet (w : Endpoint) (p : PublicKey) : List (PublicKey × PublicKey) :=
  (w.engine.address, p) ::
    (((w.engine.held p).bind (·.inactive)).bind fun g => g.recipient.map (g.keyPair.publicKey, ·)).toList

theorem recipient_mem_keysMet {g : Agreement} {b : Bond} (hs : w.engine.held p = some s)
    (hg : s.inactive = some g) (hb : g.bond = some b) : b.recipient ∈ w.keysMet p := by
  simp [keysMet, hs, hg, Agreement.recipient, hb]

theorem keys_mem_pairsMet {g : Agreement} {b : Bond} (hs : w.engine.held p = some s)
    (hg : s.inactive = some g) (hb : g.bond = some b) :
    (g.keyPair.publicKey, b.recipient) ∈ w.pairsMet p := by
  simp [pairsMet, hs, hg, Agreement.recipient, hb]

section

variable (S : Suite) (w : Endpoint) (ops : List (Nat × Operation)) (p q : PublicKey)

/-- The keys drawn in a run differ from one another, and from all that were met with a peer before they were
drawn. -/
structure DrawsFresh : Prop where
  distinct : ∀ j < (w.run S ops).entropy.secretsDrawn, ∀ i < j, w.entropy.key S i ≠ w.entropy.key S j
  unmet : ∀ past ∈ ops.inits, ∀ i < (w.run S ops).entropy.secretsDrawn,
    (w.run S past).entropy.secretsDrawn ≤ i → w.entropy.key S i ∉ (w.run S past).keysMet p

instance : Decidable (w.DrawsFresh S ops p) :=
  decidable_of_iff
    ((∀ j < (w.run S ops).entropy.secretsDrawn, ∀ i < j, w.entropy.key S i ≠ w.entropy.key S j) ∧
      ∀ past ∈ ops.inits, ∀ i < (w.run S ops).entropy.secretsDrawn,
        (w.run S past).entropy.secretsDrawn ≤ i → w.entropy.key S i ∉ (w.run S past).keysMet p)
    ⟨fun h => ⟨h.1, h.2⟩, fun h => ⟨h.distinct, h.unmet⟩⟩

/-- The names of the agreements that come up with two peers in a run tell their keys. -/
def NamesTell : Prop := ∀ past ∈ ops.inits, ∀ past' ∈ ops.inits,
  ∀ k ∈ (w.run S past).pairsMet p, ∀ k' ∈ (w.run S past').pairsMet q,
    ∀ id ∈ (S.agreementId k.1 k.2).toOption, S.agreementId k'.1 k'.2 = .ok id → k = k' ∨ k = k'.swap

instance : Decidable (w.NamesTell S ops p q) := by
  unfold NamesTell
  infer_instance

end

theorem DrawsFresh.key_ne {ops : List (Nat × Operation)} (h : w.DrawsFresh S ops p) {i j : Nat}
    (hi : i < (w.run S ops).entropy.secretsDrawn) (hj : j < (w.run S ops).entropy.secretsDrawn) (hne : i ≠ j) :
    w.entropy.key S i ≠ w.entropy.key S j := by
  rcases Nat.lt_or_gt_of_ne hne with hlt | hlt
  · exact h.distinct j hj i hlt
  · exact (h.distinct i hi j hlt).symm

/-- What is under negotiation in a run has a key pair that was drawn in the run, for its own peer. -/
theorem offers_run (S : Suite) (identity : KeyPair) (config : ArmConfig) (entropy : Entropy)
    (ops : List (Nat × Operation)) :
    ∃ owner, (∀ i < entropy.secretsDrawn, owner i = none) ∧
      ((start identity config entropy).run S ops).Ledger S owner :=
  ledger_run S (sound_start identity config entropy) (ledger_start S identity config entropy fun _ => none) ops

/-- After a promotion, a key pair that was spent on it is never under negotiation again, and with the same peer
only those are that were drawn since. -/
theorem offers_later {owner : Nat → Option PublicKey} {i : Nat} (hw : w.engine.sessions.Sound)
    (hledger : w.Ledger S owner) (hi : i < w.entropy.secretsDrawn) (howner : owner i = some p)
    (hvacant : ∀ s, w.engine.held p = some s → s.inactive = none) (ops : List (Nat × Operation)) (q : PublicKey)
    (s : Session) (hs : (w.run S ops).engine.held q = some s) :
    s.Offers S (w.run S ops).entropy fun j => j ≠ i ∧ (q = p → w.entropy.secretsDrawn ≤ j) := by
  obtain ⟨owner', hcontinues, hledger'⟩ := ledger_run S hw (hledger.strike hvacant) ops
  refine (hledger' q s hs).mono rfl (Nat.le_refl _) ?_
  intro j _ hj
  have hstruck : ∀ k < w.entropy.secretsDrawn, owner' k = some q → owner k ≠ some p ∧ owner k = some q := by
    intro k hk hkq
    have hkept : (if owner k = some p then none else owner k) = some q := (hcontinues k hk).symm.trans hkq
    split at hkept
    · cases hkept
    · exact ⟨by assumption, hkept⟩
  refine ⟨?_, ?_⟩
  · rintro rfl
    exact (hstruck j hi hj).1 howner
  · rintro rfl
    by_contra hlt
    obtain ⟨hne, hsame⟩ := hstruck j (Nat.not_le.1 hlt) hj
    exact hne hsame

/-! ### Promotions -/

theorem promoted_eq_some (h : op.promoted S now w p = some id) :
    (∃ s g b, w.engine.held p = some s ∧ s.inactive = some g ∧ g.bond = some b ∧ b.id = id) ∧
      ∀ s, (op.perform S now w).engine.held p = some s → s.inactive = none := by
  obtain ⟨hid, hgone⟩ := Option.filter_eq_some_iff.1 h
  obtain ⟨s, hs, hid⟩ := Option.bind_eq_some_iff.1 hid
  obtain ⟨g, hg, hid⟩ := Option.bind_eq_some_iff.1 hid
  obtain ⟨b, hb, hid⟩ := Option.map_eq_some_iff.1 hid
  refine ⟨⟨s, g, b, hs, hg, hb, hid⟩, ?_⟩
  intro s' hs'
  rw [hs'] at hgone
  exact of_decide_eq_true hgone

/-- A promoted agreement has a key pair that was drawn in the run, and since then that is under negotiation nowhere;
with the same peer only later ones are. -/
theorem spent_of_promoted (S : Suite) (identity : KeyPair) (config : ArmConfig) (entropy : Entropy)
    (past : List (Nat × Operation)) (t₀ : Nat) {w₀ : Endpoint} (hw₀ : w₀ = start identity config entropy)
    (hpromoted : op.promoted S t₀ (w₀.run S past) p = some id) :
    ∃ i r, entropy.secretsDrawn ≤ i ∧ i < (w₀.run S past).entropy.secretsDrawn ∧
      (entropy.key S i, r) ∈ (w₀.run S past).pairsMet p ∧ r ∈ (w₀.run S past).keysMet p ∧
      S.agreementId (entropy.key S i) r = .ok id ∧
      ∀ mid q s, (w₀.run S (past ++ (t₀, op) :: mid)).engine.held q = some s →
        s.Offers S (w₀.run S (past ++ (t₀, op) :: mid)).entropy fun j =>
          j ≠ i ∧ (q = p → (w₀.run S past).entropy.secretsDrawn ≤ j) := by
  obtain ⟨⟨s, g, b, hs, hg, hb, rfl⟩, hvacant⟩ := promoted_eq_some hpromoted
  have hsound : w₀.engine.sessions.Sound := hw₀ ▸ sound_start identity config entropy
  have hentropy : w₀.entropy = entropy := by rw [hw₀]; rfl
  obtain ⟨owner, hnone, hledger⟩ := offers_run S identity config entropy past
  rw [← hw₀] at hledger
  obtain ⟨⟨i, hi, howner, hkey⟩, hbond⟩ := hledger p s hs g hg
  have hpublic : g.keyPair.publicKey = entropy.key S i := by
    rw [hkey, (entropy_run hsound past).1, hentropy]
    rfl
  have hbefore := sound_run (S := S) hsound past
  have hafter := (op.course S t₀ hbefore).sound hbefore
  have hdrawn := (op.course S t₀ hbefore).entropy.2
  obtain ⟨owner', hcontinues, hledger'⟩ := ledger_run S hbefore hledger [(t₀, op)]
  refine ⟨i, b.recipient, ?_, hi, ?_, recipient_mem_keysMet hs hg hb, ?_, ?_⟩
  · by_contra hlt
    rw [hnone i (Nat.not_le.1 hlt)] at howner
    cases howner
  · rw [← hpublic]
    exact keys_mem_pairsMet hs hg hb
  · rw [← hpublic]
    exact (bondWith_ok (hbond b hb)).2.1
  · intro mid q s' hs'
    rw [run_append] at hs' ⊢
    have hoffers := offers_later hafter hledger' (Nat.lt_of_lt_of_le hi hdrawn)
      ((hcontinues i hi).trans howner) hvacant mid q s' hs'
    exact hoffers.mono rfl (Nat.le_refl _) fun j _ hj => ⟨hj.1, fun hqp => Nat.le_trans hdrawn (hj.2 hqp)⟩

section

variable {identity : KeyPair} {config : ArmConfig} {entropy : Entropy} {past later : List (Nat × Operation)}
  {w₀ : Endpoint}

/-- **No other agreement has the name of one that was promoted**: neither a long-time agreement, nor one that is
under negotiation later. -/
theorem named_otherwise (hw₀ : w₀ = start identity config entropy)
    (hpromoted : op.promoted S t₀ (w₀.run S past) p = some id)
    (hfresh : w₀.DrawsFresh S (past ++ (t₀, op) :: later) p)
    (htell : w₀.NamesTell S (past ++ (t₀, op) :: later) p q)
    (hother : q = p ∨ ∀ i < (w₀.run S (past ++ (t₀, op) :: later)).entropy.secretsDrawn,
      w₀.entropy.key S i ≠ q ∧ w₀.entropy.key S i ∉ (w₀.run S past).keysMet p) :
    S.agreementId identity.publicKey q ≠ .ok id ∧ ∀ mid, mid <+: later → ∀ s,
      (w₀.run S (past ++ (t₀, op) :: mid)).engine.held q = some s → s.inactiveId ≠ some id := by
  obtain ⟨i, r, hfirst, hi, hpair, hr, hid, hoffers⟩ :=
    spent_of_promoted S identity config entropy past t₀ hw₀ hpromoted
  have hsound : w₀.engine.sessions.Sound := hw₀ ▸ sound_start identity config entropy
  have hentropy : w₀.entropy = entropy := by rw [hw₀]; rfl
  have hidentity : w₀.engine.address = identity.publicKey := by rw [hw₀]; rfl
  have hbefore := sound_run (S := S) hsound past
  rw [← hentropy] at hfirst hpair hid
  have hend : i < (w₀.run S (past ++ (t₀, op) :: later)).entropy.secretsDrawn :=
    Nat.lt_of_lt_of_le hi (drawn_mono S hsound (List.prefix_append _ _))
  have hpast : past ∈ (past ++ (t₀, op) :: later).inits := (List.mem_inits _ _).2 (List.prefix_append _ _)
  have hstart : [] ∈ (past ++ (t₀, op) :: later).inits := (List.mem_inits _ _).2 List.nil_prefix
  -- The agreement is told apart from any other one by its keys.
  have hkeys : ∀ before ∈ (past ++ (t₀, op) :: later).inits, ∀ k ∈ (w₀.run S before).pairsMet q,
      S.agreementId k.1 k.2 = .ok id →
        (w₀.entropy.key S i = k.1 ∧ r = k.2) ∨ (w₀.entropy.key S i = k.2 ∧ r = k.1) := by
    intro before hmem k hk hkid
    have hsame := htell past hpast before hmem _ hpair k hk id (by rw [hid]; rfl) hkid
    rcases hsame with h | h
    · exact Or.inl ⟨congrArg Prod.fst h, congrArg Prod.snd h⟩
    · exact Or.inr ⟨congrArg Prod.fst h, congrArg Prod.snd h⟩
  have hunmet : w₀.entropy.key S i ≠ w₀.engine.address ∧ w₀.entropy.key S i ≠ p := by
    have hnew : w₀.entropy.key S i ∉ w₀.keysMet p := hfresh.unmet [] hstart i hend hfirst
    rw [keysMet, List.mem_cons, List.mem_cons, not_or, not_or] at hnew
    exact ⟨hnew.1, hnew.2.1⟩
  refine ⟨?_, ?_⟩
  · intro hlong
    rw [← hidentity] at hlong
    rcases hkeys [] hstart (w₀.engine.address, q) List.mem_cons_self hlong with ⟨hown, -⟩ | ⟨hpeer, -⟩
    · exact hunmet.1 hown
    · rcases hother with rfl | hother
      · exact hunmet.2 hpeer
      · exact (hother i hend).1 hpeer
  · intro mid hmid s hs hsame
    obtain ⟨g, hg, hgid⟩ := Option.bind_eq_some_iff.1 hsame
    obtain ⟨b, hb, hbid⟩ := Option.map_eq_some_iff.1 hgid
    obtain ⟨⟨j, hj, ⟨hne, hlate⟩, hkey⟩, hbond⟩ := hoffers mid q s hs g hg
    have hpublic : g.keyPair.publicKey = w₀.entropy.key S j := by
      rw [hkey, (entropy_run hsound _).1]
      rfl
    have hprefix : past ++ (t₀, op) :: mid <+: past ++ (t₀, op) :: later :=
      (List.prefix_append_right_inj _).2 (List.cons_prefix_cons.2 ⟨rfl, hmid⟩)
    have hjend := Nat.lt_of_lt_of_le hj (drawn_mono S hsound hprefix)
    have hmem : past ++ (t₀, op) :: mid ∈ (past ++ (t₀, op) :: later).inits := (List.mem_inits _ _).2 hprefix
    have hnamed := (bondWith_ok (hbond b hb)).2.1
    rw [hbid] at hnamed
    rcases hkeys _ hmem _ (keys_mem_pairsMet hs hg hb) hnamed with ⟨hown, -⟩ | ⟨-, hpeer⟩
    · rw [hpublic] at hown
      exact hfresh.key_ne hend hjend (Ne.symm hne) hown
    · have hmet : w₀.entropy.key S j ∈ (w₀.run S past).keysMet p := by
        rw [← hpublic, ← show r = g.keyPair.publicKey from hpeer]
        exact hr
      rcases hother with rfl | hother
      · exact hfresh.unmet past hpast j hjend (hlate rfl) hmet
      · exact (hother j hjend).2 hmet

end

end Endpoint

end Overlay
