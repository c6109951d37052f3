import Overlay.Proofs.Engine.Retention
import Overlay.Proofs.Session.Absent
import Overlay.Proofs.Session.Limited

/-!
# Agreements past their retention

The sweep drops idle sessions, and leaves the agreements of the others alone (`session_swept`).  So what was promoted
leaves a session only with the first operation that takes it away (`Operation.Takes`): when its retention is over, a
message under it or a check for renewal that finds it active; and from its deadline on, a message that is opened under
it.  After an agreement was replaced by a renewal, and if nothing comes under it any more, it stays stored for as long as
the session is used (`lingers_iff`), though no look-up finds it.

The run is cut at that operation: before it the session retains the agreement (`Retained`), after it the agreement is
gone (`Gone`), and only a promotion of its name could bring it back.
-/

namespace Overlay

namespace Operation

section

variable (S : Suite) (now : Nat) (w : Endpoint) (p : PublicKey)

/-- An operation displaces no agreement of a name: it leaves the session with the peer, it uses no agreements but that
one and few others, and it promotes none of that name. -/
structure Respects (few : List AgreementId) (id : AgreementId) (op : Operation) : Prop where
  spares : op.Spares S now w p
  uses : ∀ other ∈ op.used S now w p, other = id ∨ other ∈ few
  promoted : op.promoted S now w p ≠ some id

instance (few : List AgreementId) (id : AgreementId) (op : Operation) : Decidable (op.Respects S now w p few id) :=
  decidable_of_iff
    (op.Spares S now w p ∧ (∀ other ∈ op.used S now w p, other = id ∨ other ∈ few) ∧
      op.promoted S now w p ≠ some id)
    ⟨fun h => ⟨h.1, h.2.1, h.2.2⟩, fun h => ⟨h.spares, h.uses, h.promoted⟩⟩

/-- An operation takes away an agreement that was promoted at a moment: it looks the agreement up after the retention,
or retires it after the deadline. -/
def Takes (c : ArmConfig) (id : AgreementId) (start : Nat) (op : Operation) : Prop :=
  c.retention.millis ≤ now - start ∧ op.Names w p id ∨
    after start c.expireAfter.millis ≤ now ∧ op.Retires S now w p id

instance (c : ArmConfig) (id : AgreementId) (start : Nat) (op : Operation) :
    Decidable (op.Takes S now w p c id start) :=
  inferInstanceAs (Decidable (_ ∨ _))

end

variable {S : Suite} {now start : Nat} {w : Endpoint} {p : PublicKey} {op : Operation} {c : ArmConfig}
  {id : AgreementId} {few : List AgreementId} {i : Item AgreementId Agreement}

theorem Respects.leaves (h : op.Respects S now w p few id) (hkept : ¬ op.Takes S now w p c id start) :
    op.Leaves S now w p few id (after start c.expireAfter.millis) :=
  ⟨h.spares, h.uses, h.promoted, fun hlate hretires => hkept (Or.inr ⟨hlate, hretires⟩)⟩

theorem lasts_of_not_takes (hfs : c.forwardSecrecy = true) (hkept : ¬ op.Takes S now w p c id start)
    (hnames : op.Names w p id) : c.Lasts start now :=
  (ArmConfig.lasts_iff hfs).2 (Nat.lt_of_not_le fun hlate => hkept (Or.inl ⟨hlate, hnames⟩))

/-- An agreement that is gone stays away in a turn that promotes none of its name. -/
theorem lacks_turn {x : Context} {t : Turn} (h : t.session.Lacks c id)
    (hother : ∀ other, t.session.inactiveId = some other → (op.turn x t).session.inactive = none → other ≠ id) :
    (op.turn x t).session.Lacks c id := by
  rcases turn_cases x t op with hn | ⟨peer, m, rfl⟩ | ⟨peer, other, rfl⟩ | ⟨peer, rfl⟩
  · exact h.negotiated hn
  · exact Turn.lacks_disarmInbound h hother
  · exact Turn.lacks_promote h other (hother other)
  · exact Turn.lacks_checkForRenew h

theorem Names.cases (h : op.Names w p id) :
    (∃ m, op = .disarmInbound p m ∧ m.agreementId = id) ∨
      op = .checkForRenew p ∧ ((w.engine.held p).bind (·.active)).bind (·.id) = some id := by
  cases op with
  | disarmInbound peer m =>
    obtain ⟨rfl, hid⟩ := h
    exact Or.inl ⟨m, rfl, hid⟩
  | checkForRenew peer =>
    obtain ⟨rfl, hid⟩ := h
    exact Or.inr ⟨rfl, hid⟩
  | _ => exact h.elim

theorem Names.ne_runDeferred (h : op.Names w p id) : op ≠ .runDeferred := by
  rintro rfl
  exact h

theorem Names.peers (h : op.Names w p id) : op.peers w p := by
  rcases h.cases with ⟨m, rfl, -⟩ | ⟨rfl, -⟩ <;> exact rfl

theorem Retires.names (h : op.Retires S now w p id) : op.Names w p id := by
  cases op with
  | disarmInbound peer m => exact ⟨h.1, h.2.1⟩
  | checkForRenew peer => exact h
  | _ => exact h.elim

end Operation

namespace Endpoint

open Engine Operation

variable {S : Suite} {now : Nat} {w : Endpoint} {p : PublicKey} {s : Session} {c : ArmConfig}
  {i : Item AgreementId Agreement} {few : List AgreementId} {op : Operation} {id : AgreementId}

structure Gone (c : ArmConfig) (p : PublicKey) (id : AgreementId) (w : Endpoint) : Prop where
  config : w.engine.config = c
  session : ∃ s, w.engine.held p = some s ∧ s.Lacks c id

/-! ### One operation -/

theorem Gone.perform (h : w.Gone c p id) (hw : w.engine.sessions.Sound) (hfs : c.forwardSecrecy = true)
    (hop : op ≠ .runDeferred) (hr : op.Respects S now w p few id) : (op.perform S now w).Gone c p id := by
  obtain ⟨hconfig, s, hs, hlacks⟩ := h
  refine ⟨(op.course S now hw).config.trans hconfig, ?_⟩
  rcases hr.spares.turn hw (hconfig ▸ hfs) hop hs with ⟨-, -, hafter⟩ | ⟨-, hafter⟩
  · refine ⟨_, hafter, lacks_turn hlacks ?_⟩
    rintro other hid hgone rfl
    exact hr.promoted (promoted_of_turn hs hid hafter hgone)
  · exact ⟨s, hafter, hlacks⟩

/-- **The operation that takes an agreement away is the end of it.** -/
theorem Retained.taken (h : w.Retained c p i few) (hw : w.engine.sessions.Sound) (hfs : c.forwardSecrecy = true)
    (hstale : i.value.staleAt = some (Overlay.after i.touchedAt c.expireAfter.millis))
    (hr : op.Respects S now w p few i.key) (ht : op.Takes S now w p c i.key i.touchedAt) :
    (op.perform S now w).Gone c p i.key := by
  obtain ⟨hconfig, s, hs, hretains⟩ := h
  refine ⟨(op.course S now hw).config.trans hconfig, ?_⟩
  have hlate : c.retention.millis ≤ now - i.touchedAt → ¬ c.Lasts i.touchedAt now := fun hlate hlasts =>
    Nat.not_lt_of_le hlate ((ArmConfig.lasts_iff hfs).1 hlasts)
  have hdead : Overlay.after i.touchedAt c.expireAfter.millis ≤ now → i.value.isStale now = true := by
    intro hdead
    rw [Agreement.isStale, hstale]
    exact decide_eq_true hdead
  have hnames : op.Names w p i.key := by
    rcases ht with ⟨-, hnames⟩ | ⟨-, hretires⟩
    · exact hnames
    · exact hretires.names
  rcases hr.spares.turn hw (hconfig ▸ hfs) hnames.ne_runDeferred hs with ⟨-, hlive, hafter⟩ | ⟨hpeer, -⟩
  swap
  · exact absurd hnames.peers hpeer
  refine ⟨_, hafter, ?_⟩
  rcases hnames.cases with ⟨m, rfl, hid⟩ | ⟨rfl, hid⟩
  · refine Turn.taken_disarmInbound hretains hid ?_ ?_
    · rcases ht with ⟨hover, -⟩ | ⟨hover, -, -, hopened⟩
      · exact Or.inl (hlate hover)
      · rw [Engine.disarmInbound, converse_live hw hlive] at hopened
        exact Or.inr ⟨hdead hover, hopened⟩
    · rintro other hother hgone rfl
      exact hr.promoted (promoted_of_turn hs hother hafter hgone)
  · rw [hs] at hid
    refine Turn.taken_checkForRenew hretains hid ?_
    rcases ht with ⟨hover, -⟩ | ⟨hover, -⟩
    · exact Or.inl (hlate hover)
    · exact Or.inr (hdead hover)

/-! ### A run -/

/-- **A promoted agreement is retained until it is taken away, and gone from then on.** -/
theorem Retained.decides {ops : List (Nat × Operation)} (h : w.Retained c p i few) (hw : w.engine.sessions.Sound)
    (hfs : c.forwardSecrecy = true) (hfew : 0 < c.maxAgreements → few.length < c.maxAgreements)
    (hstale : i.value.staleAt = some (Overlay.after i.touchedAt c.expireAfter.millis))
    (hr : w.Throughout S ops fun now v part => part.Respects S now v p few i.key) :
    ((w.Throughout S ops fun now v part => ¬ part.Takes S now v p c i.key i.touchedAt) ∧
        (w.run S ops).Retained c p i few) ∨
      ((¬ w.Throughout S ops fun now v part => ¬ part.Takes S now v p c i.key i.touchedAt) ∧
        (w.run S ops).Gone c p i.key) := by
  refine hr.decides hw (fun v h => ⟨h.config, h.session⟩) (fun v h => ⟨h.config, h.session⟩) ?_ ?_ ?_ h
  · intro now v op hv hop hr hkept hretained
    exact hretained.perform hv hfs hfew (lasts_of_not_takes hfs hkept) hstale hop (hr.leaves hkept)
  · intro now v op hv hop hr htaken hretained
    exact hretained.taken hv hfs hstale hr htaken
  · intro now v op hv hop hr hgone
    exact hgone.perform hv hfs hop hr

/-! ### The sweep -/

theorem session_swept (hw : w.engine.sessions.Sound) (hs : w.engine.held p = some s)
    (hlive : (w.engine.session p now).isSome) :
    (Operation.evictIdleSessions.perform S now w).engine.session p now = some s := by
  obtain ⟨s', hs'⟩ := Option.isSome_iff_exists.1 hlive
  show (w.engine.sessions.takeExpired now).2.peek p now = some s
  rw [Cache.peek_takeExpired hw, ← hs, held_live hw hs']
  exact hs'

/-! ### Every run -/

/-- **What the sweep leaves of a promoted agreement.**  In every run where the session with a peer was not dropped since
an agreement was promoted, fewer than the bound of other agreements were used, and none of its name was promoted, a sweep
leaves the agreement stored unless an operation has taken it away since.  When its retention is over nothing finds it,
but it is still there. -/
theorem stored_swept (S : Suite) (identity : KeyPair) (config : ArmConfig) (hfs : config.forwardSecrecy = true)
    (hkeeps : 0 < config.retention.millis) (entropy : Entropy) (past later : List (Nat × Operation)) (t₀ t : Nat)
    (op : Operation) (p : PublicKey) (w w' v : Endpoint) (s : Session) (g : Agreement) (b : Bond)
    (few : List AgreementId) (hw : w = (start identity config entropy).run S past) (hw' : w' = op.perform S t₀ w)
    (hv : v = Operation.evictIdleSessions.perform S t (w'.run S later))
    (hs : w.engine.held p = some s) (hg : s.inactive = some g) (hb : g.bond = some b)
    (hlong : S.agreementId identity.publicKey p ≠ .ok b.id) (hpromoted : op.promoted S t₀ w p = some b.id)
    (hspares : w.Throughout S [(t₀, op)] fun now v part => part.Spares S now v p)
    (hrespects : w'.Throughout S later fun now v part => part.Respects S now v p few b.id)
    (hfew : config.maxAgreements = 0 ∨ few.length < config.maxAgreements)
    (hlive : ((w'.run S later).engine.session p t).isSome) :
    ∃ s', v.engine.session p t = some s' ∧
      s'.initialized.stored b.id =
        (if w'.Throughout S later fun now v part => ¬ part.Takes S now v p config b.id t₀ then
          some ⟨b.id, (w.engine.context S t₀ p).dated g, t₀⟩ else none) ∧
      (config.retention.millis ≤ t - t₀ → s'.initialized.peek b.id t = none) := by
  have hsound := sound_start identity config entropy
  have hbefore : w.engine.sessions.Sound := hw ▸ sound_run hsound past
  have hafter : w'.engine.sessions.Sound := hw' ▸ (op.course S t₀ hbefore).sound hbefore
  have hconfig : w.engine.config = config := hw ▸ config_run hsound past
  have hlasts : config.Lasts t₀ t₀ := (ArmConfig.lasts_iff hfs).2 (by rwa [Nat.sub_self])
  have hname : s.longTimeId ≠ b.id := fun he => hlong (he ▸ longTime_run S _ _ _ past p s (hw ▸ hs))
  have hop := ne_runDeferred_of_promoted hbefore (hconfig ▸ hfs) hspares hpromoted
  have hretained : w'.Retained config p ⟨b.id, (w.engine.context S t₀ p).dated g, t₀⟩ few := by
    rw [hw']
    exact retained_promoted hbefore hconfig hfs hop hs (furnished_run S _ _ _ past p s (hw ▸ hs)) hg
      (congrArg (·.map (·.id)) hb) hname hlasts few (hspares.1 w op (.whole op hop)) hpromoted
  have hdeadline : ((w.engine.context S t₀ p).dated g).staleAt =
      some (Overlay.after t₀ config.expireAfter.millis) := by
    rw [← hconfig]
    rfl
  have hfinally := sound_run (S := S) hafter later
  rcases hretained.decides hafter hfs (fun hmax => hfew.resolve_left (by omega)) hdeadline hrespects with
    ⟨hkept, hend⟩ | ⟨htaken, hend⟩
  · obtain ⟨s', hs', hretains⟩ := hend.session
    refine ⟨s', hv ▸ session_swept hfinally hs' hlive, ?_, fun hlate => hretains.peek_late fun hlasts => ?_⟩
    · rw [if_pos hkept]
      exact hretains.kept
    · exact Nat.not_lt_of_le hlate ((ArmConfig.lasts_iff hfs).1 hlasts)
  · obtain ⟨s', hs', hlacks⟩ := hend.session
    refine ⟨s', hv ▸ session_swept hfinally hs' hlive, ?_, fun _ => ?_⟩
    · rw [if_neg htaken]
      exact hlacks.stored
    · rw [Cache.peek_stored hlacks.furnished.sound, hlacks.stored]
      rfl

/-- The newcomer renews an agreement and stays in touch with the partner.  The first agreement is stored for good. -/
theorem stored_swept_renewed :
    let w := (Operation.receivedAck partner (pact 11 13).id).perform Textbook.suite 2
      (newcomer.run Textbook.suite [(1, offered 13)])
    let v := Operation.evictIdleSessions.perform Textbook.suite 400000 (w.run Textbook.suite
      [(3, offered 17), (4, .receivedAck partner (pact 12 17).id), (200000, .armOutbound partner [8])])
    ∃ s, v.engine.session partner 400000 = some s ∧
      (s.initialized.stored (pact 11 13).id).map (fun i => (i.value.bond, i.touchedAt)) = some (some (pact 11 13), 2) ∧
      v.engine.config.retention.millis = 310000 ∧ s.initialized.peek (pact 11 13).id 400000 = none := by
  have hsome : ((newcomer.run Textbook.suite [(1, offered 13)]).engine.held partner).any fun s =>
      s.inactive = some ⟨Textbook.suite.keyPair ⟨Textbook.remainder 11⟩, some (pact 11 13), none⟩ := by
    decide +kernel
  obtain ⟨s, hs, hg⟩ := (Option.any_eq_true _ _).1 hsome
  have hpromoted : (Operation.receivedAck partner (pact 11 13).id).promoted Textbook.suite 2
      (newcomer.run Textbook.suite [(1, offered 13)]) partner = some (pact 11 13).id := by decide +kernel
  intro w v
  have hkept : w.Throughout Textbook.suite
      [(3, offered 17), (4, .receivedAck partner (pact 12 17).id), (200000, .armOutbound partner [8])]
      fun now v part => ¬ part.Takes Textbook.suite now v partner {} (pact 11 13).id 2 := by decide +kernel
  obtain ⟨s', hs', hstored, hpeek⟩ := stored_swept Textbook.suite (Textbook.suite.keyPair ⟨Textbook.remainder 5⟩)
    {} (by decide) (by decide) (Textbook.counting 11) [(1, offered 13)]
    [(3, offered 17), (4, .receivedAck partner (pact 12 17).id), (200000, .armOutbound partner [8])] 2 400000
    (.receivedAck partner (pact 11 13).id) partner (newcomer.run Textbook.suite [(1, offered 13)]) w v s
    _ (pact 11 13) [(pact 12 17).id] rfl rfl rfl hs (of_decide_eq_true hg) rfl
    (by decide +kernel) hpromoted (by decide +kernel) (by decide +kernel) (Or.inr (by decide)) (by decide +kernel)
  refine ⟨s', hs', ?_, by decide +kernel, hpeek (by decide)⟩
  rw [hstored, if_pos hkept]
  rfl

end Endpoint

end Overlay
