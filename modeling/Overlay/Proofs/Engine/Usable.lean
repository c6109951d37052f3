import Overlay.Proofs.Engine.Retention
import Overlay.Proofs.Session.Awaited

/-!
# Agreements that stay usable

An agreement that a session has is usable as long as nothing takes it away (`readable_of_undisturbed`): while it is under
negotiation, only a renegotiation does (`Operation.replaced`); once it is promoted, what ends its retention does.

The proof follows the agreement from where it was held.  If it has never been promoted, it still waits under
negotiation (`awaiting_run`), and nothing else of its name is there (`unpromoted_run`), so that a message under it
promotes it.  Otherwise it is retained since its last promotion (`last_promotion`).
-/

namespace Overlay

namespace Operation

open Endpoint Engine

/-- The name of the agreement under negotiation with a peer that an operation replaces by another one, or by the
same key under another name. -/
def replaced (S : Suite) (now : Nat) (w : Endpoint) (p : PublicKey) (op : Operation) :
    Option AgreementId :=
  ((w.engine.held p).bind (·.inactiveId)).filter fun id =>
    ((op.perform S now w).engine.held p).any fun s => s.inactive ≠ none ∧ s.inactiveId ≠ some id

variable {S : Suite} {now : Nat} {w : Endpoint} {p : PublicKey} {s : Session} {op : Operation}
  {id : AgreementId} {c : ArmConfig}

/-! ### Under negotiation -/

/-- What is under negotiation stays so, if it is neither promoted nor replaced. -/
theorem awaiting_perform (hspares : op.Spares S now w p) (hpromoted : op.promoted S now w p ≠ some id)
    (hreplaced : op.replaced S now w p ≠ some id) (h : (w.engine.held p).bind (·.inactiveId) = some id) :
    ((op.perform S now w).engine.held p).bind (·.inactiveId) = some id := by
  obtain ⟨s, hs, hid⟩ := Option.bind_eq_some_iff.1 h
  have hstays := hspares.stays (by rw [hs]; rfl)
  obtain ⟨s', hs'⟩ := Option.isSome_iff_exists.1 hstays
  rw [promoted, h, hs', Option.filter_some] at hpromoted
  rw [replaced, h, hs', Option.filter_some] at hreplaced
  rw [hs', Option.bind_some]
  by_cases hnone : s'.inactive = none
  · simp [hnone] at hpromoted
  · simpa [hnone] using hreplaced

/-! ### Not promoted yet -/

theorem unpromoted_turn {x : Context} {t : Turn} (hs : t.session.Unpromoted id)
    (hsound : t.session.initialized.Sound)
    (h : t.session.inactiveId = some id → (op.turn x t).session.inactive ≠ none) :
    (op.turn x t).session.Unpromoted id := by
  rcases turn_cases x t op with hn | ⟨peer, m, rfl⟩ | ⟨peer, name, rfl⟩ | ⟨peer, rfl⟩
  · exact hn.unpromoted hs
  · exact Turn.unpromoted_disarmInbound hs hsound h
  · exact Turn.unpromoted_promote hs hsound h
  · exact Turn.unpromoted_checkForRenew hs hsound

/-- Where there was no session, silent steps leave none in which anything is told. -/
theorem untold_steps {sc : Scope} {w' : Endpoint} (hs : Steps S now sc w w') (hw : w.engine.sessions.Sound)
    (hsilent : sc.heard = .silence) (hnone : w.engine.held p = none) (id : AgreementId) :
    ∀ s, w'.engine.held p = some s → s.Untold id := by
  have h := hs.sessions (Q := fun q s => q = p → s.Untold id) hw ?_ ?_ ?_
  · exact fun s hp => h p s hp rfl
  · intro q s hs hq
    obtain ⟨b, -, rfl⟩ := freshSession_ok hs
    refine ⟨Cache.sound_empty _ _ _, rfl, ?_⟩
    rintro g (⟨hg, -⟩ | ⟨i, hi, -⟩)
    · cases hg
    · cases hi
  · intro q t t' hm ht hq
    rw [hsilent] at hm
    exact hm.untold (ht hq)
  · rintro q s hs rfl
    rw [hnone] at hs
    cases hs

/-- Work on a session that it starts promotes nothing in it, if it would not in a session without names. -/
theorem unpromoted_converse {α : Type} {work : Context → Turn → Except ArmError α × Turn}
    (hw : w.engine.sessions.Sound) (hnone : w.engine.held p = none)
    (hwork : ∀ x t, t.session.Untold id → (work x t).2.session.Unpromoted id)
    (hs : (w.engine.converse S now p work w.entropy).2.1.held p = some s) : s.Unpromoted id := by
  have hpeer : (⟨.silence, (· = p), fun _ => True⟩ : Scope).peers p := rfl
  rcases converse_spec S now work hw hpeer with ⟨e, err, hsteps, hr⟩ | ⟨e, s₀, t, result, hsteps, hp, ht, hr⟩
  · rw [hr] at hs
    exact (untold_steps hsteps hw rfl hnone id s hs).unpromoted
  · rw [hr] at hs
    have hs' : (e.absorb p t).held p = some s := hs
    rw [held_absorb (hsteps.sound hw) hp, if_pos rfl, Option.some.injEq] at hs'
    have hturn := hwork (w.engine.context S now p) { session := s₀, entropy := w.entropy }
      (untold_steps hsteps hw rfl hnone id s₀ hp)
    rw [ht] at hturn
    exact hs' ▸ hturn

theorem unpromoted_started (hw : w.engine.sessions.Sound) (hnone : w.engine.held p = none)
    (hs : (op.perform S now w).engine.held p = some s) : s.Unpromoted id := by
  by_cases hpeer : op.peers w p
  swap
  · rcases held_perform_other S now hw hpeer with hsame | hgone
    · rw [hsame, hnone] at hs
      cases hs
    · rw [hgone] at hs
      cases hs
  have hwork : ∀ (op : Operation) (x : Context) (t : Turn), t.session.Untold id →
      (op.turn x t).session.Unpromoted id := by
    intro op x t ht
    refine unpromoted_turn ht.unpromoted ht.sound fun hid => ?_
    rw [ht.inactive] at hid
    cases hid
  have hsilent : op.hearing S now w = .silence → s.Unpromoted id := by
    intro hheard
    obtain ⟨v, hsteps, hclose⟩ := op.course S now hw
    rw [held, hclose.sessions] at hs
    exact (untold_steps hsteps hw hheard hnone id s hs).unpromoted
  cases op with
  | disarmInbound peer m =>
    cases hpeer
    exact unpromoted_converse hw hnone (fun x t ht => hwork (.disarmInbound p m) x t ht) hs
  | receivedKeyExchange peer key =>
    cases hpeer
    simp only [perform, Engine.receivedKeyExchange] at hs
    split at hs
    · have hs' : w.engine.held p = some s := hs
      rw [hnone] at hs'
      cases hs'
    · exact unpromoted_converse hw hnone (fun x t ht => hwork (.receivedKeyExchange p key) x t ht) hs
  | receivedAck peer name =>
    cases hpeer
    exact unpromoted_converse hw hnone (fun x t ht => hwork (.receivedAck p name) x t ht) hs
  | _ => exact hsilent rfl

/-- **Nothing is promoted unnoticed.** -/
theorem unpromoted_perform (hw : w.engine.sessions.Sound) (hfs : w.engine.config.forwardSecrecy = true)
    (hop : op ≠ .runDeferred) (hspares : op.Spares S now w p)
    (hsound : ∀ s, w.engine.held p = some s → s.initialized.Sound)
    (hpromoted : op.promoted S now w p ≠ some id)
    (h : ∀ s, w.engine.held p = some s → s.Unpromoted id) :
    ∀ s, (op.perform S now w).engine.held p = some s → s.Unpromoted id := by
  intro s hs
  cases hheld : w.engine.held p with
  | none => exact unpromoted_started hw hheld hs
  | some s₀ =>
    rcases hspares.turn hw hfs hop hheld with ⟨-, -, hafter⟩ | ⟨-, hafter⟩
    · rw [hs, Option.some.injEq] at hafter
      rw [hafter]
      refine unpromoted_turn (h s₀ hheld) (hsound s₀ hheld) fun hid hgone => hpromoted ?_
      exact promoted_of_turn hheld hid (by rw [hs, hafter]) hgone
    · rw [hs, Option.some.injEq] at hafter
      rw [hafter]
      exact h s₀ hheld

theorem promoted_job (hw : w.engine.sessions.Sound) (hfs : w.engine.config.forwardSecrecy = true)
    (job : PublicKey × Deferred) (hspares : (job.2.operation job.1).Spares S now w p) :
    (job.2.operation job.1).promoted S now w p = none := by
  apply promoted_eq_none
  intro s hs hi
  exact inactive_job hw hfs job hspares ⟨s, hs, hi⟩

end Operation

namespace Endpoint

open Engine Operation

variable {S : Suite} {now : Nat} {w : Endpoint} {p : PublicKey} {s : Session} {id : AgreementId}
  {ops : List (Nat × Operation)}

/-! ### Runs -/

theorem awaiting_run (hw : w.engine.sessions.Sound)
    (hspares : w.Throughout S ops fun now v part => part.Spares S now v p)
    (hpromoted : w.Throughout S ops fun now v part => part.promoted S now v p ≠ some id)
    (hreplaced : w.Throughout S ops fun now v part => part.replaced S now v p ≠ some id)
    (h : (w.engine.held p).bind (·.inactiveId) = some id) :
    ((w.run S ops).engine.held p).bind (·.inactiveId) = some id := by
  refine ((hspares.and hpromoted).and hreplaced).keeps
    (I := fun v => (v.engine.held p).bind (·.inactiveId) = some id) hw (fun v h => h) ?_ h
  intro now v op hv hop hpart hv'
  exact awaiting_perform hpart.1.1 hpart.1.2 hpart.2 hv'

theorem unpromoted_run (hw : w.engine.sessions.Sound) (hfs : w.engine.config.forwardSecrecy = true)
    (hsound : ∀ p s, w.engine.held p = some s → s.initialized.Sound)
    (hspares : w.Throughout S ops fun now v part => part.Spares S now v p)
    (hpromoted : w.Throughout S ops fun now v part => part.promoted S now v p ≠ some id)
    (h : ∀ s, w.engine.held p = some s → s.Unpromoted id) :
    ∀ s, (w.run S ops).engine.held p = some s → s.Unpromoted id := by
  have hkeeps := (hspares.and hpromoted).keeps (I := fun v => v.engine.config.forwardSecrecy = true ∧
    (∀ p s, v.engine.held p = some s → s.initialized.Sound) ∧
      ∀ s, v.engine.held p = some s → s.Unpromoted id) hw (fun v h => h) ?_ ⟨hfs, hsound, h⟩
  · exact hkeeps.2.2
  rintro now v op hv hop ⟨hspares, hpromoted⟩ ⟨hfs, hsound, h⟩
  have hcourse := op.course S now hv
  exact ⟨by rw [hcourse.config]; exact hfs, hcourse.caches hv hsound,
    unpromoted_perform hv hfs hop hspares (hsound p) hpromoted h⟩

/-- A name is promoted by no operation of a run, or there is a last one that does. -/
theorem last_promotion (hw : w.engine.sessions.Sound) (hfs : w.engine.config.forwardSecrecy = true)
    (hspares : w.Throughout S ops fun now v part => part.Spares S now v p) (id : AgreementId) :
    (w.Throughout S ops fun now v part => part.promoted S now v p ≠ some id) ∨
      ∃ past start op later, ops = past ++ (start, op) :: later ∧
        op.promoted S start (w.run S past) p = some id ∧
        (op.perform S start (w.run S past)).Throughout S later fun now v part =>
          part.promoted S now v p ≠ some id := by
  induction ops generalizing w with
  | nil => exact Or.inl trivial
  | cons o ops ih =>
    obtain ⟨now, op⟩ := o
    have hcourse := op.course S now hw
    rcases ih (hcourse.sound hw) (by rw [hcourse.config]; exact hfs) hspares.2 with
      hnone | ⟨past, start, op', later, rfl, hop', hlater⟩
    · by_cases hop : op.promoted S now w p = some id
      · exact Or.inr ⟨[], now, op, ops, rfl, hop, hnone⟩
      · refine Or.inl ⟨?_, hnone⟩
        intro v part hpart
        have hpart' := hspares.1 v part hpart
        cases hpart with
        | whole => exact hop
        | job l₁ job l₂ h =>
          rw [promoted_job (sound_afterJobs hw l₁) ?_ job hpart']
          · exact nofun
          · rw [afterJobs_run, config_run (w := w.cleared) hw]
            exact hfs
    · exact Or.inr ⟨(now, op) :: past, start, op', later, rfl, hop', hlater⟩

/-! ### Usable agreements -/

/-- Nothing in a run takes an agreement with a peer away until a moment: the session is not dropped; while
the agreement is under negotiation it is not replaced; and since its last promotion it has not become stale, and
fewer than the bound of other agreements were used. -/
structure Undisturbed (S : Suite) (c : ArmConfig) (w : Endpoint) (ops : List (Nat × Operation))
    (p : PublicKey) (id : AgreementId) (t : Nat) : Prop where
  spares : w.Throughout S ops fun now v part => part.Spares S now v p
  replaced : w.Throughout S ops fun now v part => part.replaced S now v p ≠ some id
  promoted : ∀ past start op later, ops = past ++ (start, op) :: later →
    op.promoted S start (w.run S past) p = some id →
    ((op.perform S start (w.run S past)).Throughout S later fun now v part =>
      part.promoted S now v p ≠ some id) →
    t < Overlay.after start c.expireAfter.millis ∧ ∃ few : List AgreementId,
      (c.maxAgreements = 0 ∨ few.length < c.maxAgreements) ∧
        (op.perform S start (w.run S past)).Throughout S later fun now v part =>
          ∀ other ∈ part.used S now v p, other = id ∨ other ∈ few

theorem undisturbed_of_never {c : ArmConfig} {t : Nat} (hw : w.engine.sessions.Sound)
    (hfs : w.engine.config.forwardSecrecy = true)
    (hspares : w.Throughout S ops fun now v part => part.Spares S now v p)
    (hreplaced : w.Throughout S ops fun now v part => part.replaced S now v p ≠ some id)
    (hnever : w.Throughout S ops fun now v part => part.promoted S now v p ≠ some id) :
    Undisturbed S c w ops p id t := by
  refine ⟨hspares, hreplaced, ?_⟩
  rintro past start op later rfl hop -
  rw [throughout_append] at hspares hnever
  by_cases hjobs : op = .runDeferred
  · subst hjobs
    rw [promoted_runDeferred (sound_run hw past) (by rw [config_run hw]; exact hfs)
      ⟨hspares.2.1, trivial⟩] at hop
    cases hop
  · exact absurd hop (hnever.2.1 _ op (.whole op hjobs))

/-- A session has an agreement of a name, and opens whatever was sealed under it. -/
def Readable (S : Suite) (w : Endpoint) (t : Nat) (p : PublicKey) (s : Session) (id : AgreementId) : Prop :=
  ∃ g b, s.Has g ∧ g.bond = some b ∧ b.id = id ∧ ∀ (m : ArmedMessage) (content : ArmMessage),
    m.agreementId = id →
    S.encrypt b.pair.rx m.nonce (associatedData p w.engine.address m.agreementId) content.encode =
      some m.ciphertext →
    (w.engine.disarmInbound S t p m w.entropy).1 = .ok (Turn.disarmed content)

theorem readable_of_awaiting {c : ArmConfig} {t : Nat} (hS : S.Opens) (hw : w.engine.sessions.Sound)
    (hs : w.engine.session p t = some s) (hfurnished : s.Furnished c) (hawaiting : s.inactiveId = some id)
    (hfresh : s.Unpromoted id) (hlong : s.longTimeId ≠ id) (hlasts : c.Lasts t t) :
    w.Readable S t p s id := by
  obtain ⟨g, hg, hid⟩ := Option.bind_eq_some_iff.1 hawaiting
  obtain ⟨b, hb, rfl⟩ := Option.map_eq_some_iff.1 hid
  refine ⟨g, b, Or.inl hg, hb, rfl, ?_⟩
  intro m content hid hm
  rw [Engine.disarmInbound, converse_live hw hs]
  exact Turn.awaited_opens (t := { session := s, entropy := w.entropy }) hfurnished hS hg hb hfresh hlong
    hlasts hid hm

theorem readable_of_retained {c : ArmConfig} {i : Item AgreementId Agreement} {few : List AgreementId}
    {t : Nat} (h : w.Retained c p i few) (hS : S.Opens) (hw : w.engine.sessions.Sound)
    (hs : w.engine.session p t = some s) (hid : i.value.id = some i.key)
    (hlasts : c.Lasts i.touchedAt t) : w.Readable S t p s i.key := by
  obtain ⟨b, hb, hbid⟩ := Option.map_eq_some_iff.1 hid
  obtain ⟨s', hs', hretains⟩ := h.session
  rw [held_live hw hs, Option.some.injEq] at hs'
  subst hs'
  refine ⟨i.value, b, Or.inr (Or.inr ⟨i.key, i, hretains.kept, rfl⟩), hb, hbid, ?_⟩
  intro m content hid hm
  exact h.opens hS hw (by rw [hs]; rfl) hlasts (congrArg (·.map (·.pair)) hb) hid hm

/-- What was held at some point and is never promoted is still awaited, and nothing of its name is promoted. -/
theorem awaiting_of_never {identity : KeyPair} {config : ArmConfig} {entropy : Entropy}
    {before rest : List (Nat × Operation)} (hfs : config.forwardSecrecy = true)
    (hheld : ∃ s, ((start identity config entropy).run S before).engine.held p = some s ∧
      (s.inactiveId = some id ∨ ∃ g, s.Promoted id g))
    (hspares : (start identity config entropy).Throughout S (before ++ rest) fun now v part =>
      part.Spares S now v p)
    (hnever : (start identity config entropy).Throughout S (before ++ rest) fun now v part =>
      part.promoted S now v p ≠ some id)
    (hreplaced : (start identity config entropy).Throughout S (before ++ rest) fun now v part =>
      part.replaced S now v p ≠ some id)
    (hs : ((start identity config entropy).run S (before ++ rest)).engine.held p = some s) :
    s.inactiveId = some id ∧ s.Unpromoted id := by
  have hstart := sound_start identity config entropy
  have hnone : ∀ p s, (start identity config entropy).engine.held p ≠ some s := fun p s hs => by cases hs
  have hfresh : ∀ {ops : List (Nat × Operation)},
      ((start identity config entropy).Throughout S ops fun now v part => part.Spares S now v p) →
      ((start identity config entropy).Throughout S ops fun now v part =>
        part.promoted S now v p ≠ some id) →
      ∀ s, ((start identity config entropy).run S ops).engine.held p = some s → s.Unpromoted id :=
    fun hspares hnever => unpromoted_run hstart hfs (fun p s hs => absurd hs (hnone p s)) hspares hnever
      fun s hs => absurd hs (hnone p s)
  refine ⟨?_, hfresh hspares hnever s hs⟩
  rw [throughout_append] at hspares hnever hreplaced
  obtain ⟨s₀, hs₀, hhas⟩ := hheld
  have hwaits : s₀.inactiveId = some id := by
    rcases hhas with hid | ⟨g, hg⟩
    · exact hid
    · exact absurd hg (hfresh hspares.1 hnever.1 s₀ hs₀ g)
  have hawaiting := awaiting_run (sound_run hstart before) hspares.2 hnever.2 hreplaced.2
    (by rw [hs₀]; exact hwaits)
  rw [← run_append, hs] at hawaiting
  exact hawaiting

/-- **An agreement is usable while nothing takes it away.**  If a session had an agreement of a name at some
point of a run that does not disturb it, then the agreement is readable at the end. -/
theorem readable_of_undisturbed (hS : S.Opens) {identity : KeyPair} {config : ArmConfig} {entropy : Entropy}
    {before rest : List (Nat × Operation)} {t : Nat} (hfs : config.forwardSecrecy = true)
    (hlasting : 0 < config.retention.millis ∧ config.expireAfter.millis ≤ config.retention.millis)
    (hlong : S.agreementId identity.publicKey p ≠ .ok id)
    (hheld : ∃ s, ((start identity config entropy).run S before).engine.held p = some s ∧
      (s.inactiveId = some id ∨ ∃ g, s.Promoted id g))
    (hundisturbed : Undisturbed S config (start identity config entropy) (before ++ rest) p id t)
    (hclock : ∀ o ∈ before ++ rest, o.1 ≤ t)
    (hlive : ((start identity config entropy).run S (before ++ rest)).engine.session p t = some s) :
    ((start identity config entropy).run S (before ++ rest)).Readable S t p s id := by
  have hstart := sound_start identity config entropy
  have hsound := sound_run (S := S) hstart (before ++ rest)
  have hs := held_live hsound hlive
  have hname : ∀ ops s, ((start identity config entropy).run S ops).engine.held p = some s →
      s.longTimeId ≠ id := fun ops s hs he => hlong (he ▸ longTime_run S _ _ _ ops p s hs)
  obtain ⟨hspares, hreplaced, hpromotions⟩ := hundisturbed
  rcases last_promotion hstart hfs hspares id with hnever | ⟨past, first, op, later, hops, hop, hlater⟩
  · obtain ⟨hawaiting, hfresh⟩ := awaiting_of_never hfs hheld hspares hnever hreplaced hs
    refine readable_of_awaiting hS hsound hlive (furnished_run S _ _ _ _ p s hs) hawaiting hfresh
      (hname _ s hs) (ArmConfig.lasts_of_lt (by omega) (Nat.le_refl t) (Nat.le_refl t))
  · obtain ⟨hdeadline, few, hfew, huses⟩ := hpromotions past first op later hops hop hlater
    rw [hops] at hspares hclock hsound hlive ⊢
    rw [throughout_append] at hspares
    have hbefore := sound_run (S := S) hstart past
    obtain ⟨s₀, hs₀, hid⟩ := Option.bind_eq_some_iff.1 (Option.filter_eq_some_iff.1 hop).1
    obtain ⟨g, hg, hid⟩ := Option.bind_eq_some_iff.1 hid
    have hfirst : first ≤ t := hclock (first, op) (by simp)
    have hwindow : t < first + config.retention.millis := by
      have := Nat.min_le_left (first + config.expireAfter.millis) lastMoment
      rw [Overlay.after] at hdeadline
      omega
    have hleaves : (op.perform S first ((start identity config entropy).run S past)).Throughout S later
        fun now v part => part.Leaves S now v p few id (Overlay.after first config.expireAfter.millis) := by
      refine ((hspares.2.2.and huses).and hlater).mono ?_
      intro o ho v part hpart
      have hearly : o.1 ≤ t := hclock o (by simp [ho])
      exact ⟨hpart.1.1, hpart.1.2, hpart.2,
        fun hlate => absurd (Nat.lt_of_lt_of_le hdeadline hlate) (by omega)⟩
    have hretained := retained_later hbefore (config_run hstart past) hfs hs₀
      (furnished_run S _ _ _ past p s₀ hs₀) hg hid (hname past s₀ hs₀) hop ⟨hspares.2.1, trivial⟩ hleaves hfew
      (fun o ho => hclock o (List.mem_append_right past ho)) hwindow
    rw [run_append] at hsound hlive ⊢
    exact readable_of_retained hretained hS hsound hlive hid
      (ArmConfig.lasts_of_lt hwindow hfirst (Nat.le_refl t))

end Endpoint

end Overlay
