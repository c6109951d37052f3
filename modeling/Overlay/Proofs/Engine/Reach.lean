import Overlay.Node.Config
import Overlay.Proofs.Engine.Plain
import Overlay.Proofs.Session.Answer

/-!
# Whom an engine can write to

An operation on a peer needs a session with it, and a session needs the long-time agreement of the two identities.
Without one there never was a session (`held_refused`), and operations fail and leave the engine as it is
(`converse_refused`).  With one, a session is found that is live afterwards, and a payload is encrypted in a turn of it
(`live_resolve`, `armOutbound_encrypts`).

But a session that was just stored has to outlive the look-up that follows at the same moment.  It does not where the
time that sessions may be idle is not zero, and zero when it is counted in whole milliseconds (`ArmConfig.Lasting`): then
no session is ever found (`resolve_lapsed`).  `writes` puts this together for every state of a run, and
`writes_momentary` shows that a node takes such settings.
-/

namespace Overlay

/-- Sessions do not expire at once: they may be idle for any time, or for a time that is a millisecond at least on the
clock. -/
def ArmConfig.Lasting (c : ArmConfig) : Prop :=
  c.sessionExpireAfter.isZero = true ∨ c.sessionExpireAfter.millis ≠ 0

theorem ArmConfig.lasting_iff (c : ArmConfig) : c.Lasting ↔ c.sessionExpireAfter.bound? ≠ some 0 := by
  unfold Lasting Duration.bound?
  split
  · rename_i hzero
    exact iff_of_true (.inl hzero) nofun
  · rename_i hzero
    rw [or_iff_right hzero, Ne, Ne, Option.some.injEq]

namespace Cache

universe u v

variable {κ : Type u} {ν : Type v} [DecidableEq κ] {c : Cache κ ν} {k : κ}

theorem remove_absent (h : Sound c) (hk : c.stored k = none) : c.remove k = (none, c) := by
  obtain ⟨order, h⟩ := h
  cases hs : c.index.get? k with
  | none => rw [remove, hs]
  | some s =>
    obtain ⟨i, hi, -⟩ := (h.stocked.indexed k s).1 hs
    rw [stored, find?_recency h, hs, Option.bind_some, hi] at hk
    cases hk

end Cache

theorem Turn.armOutbound_encrypts {x : Context} {payload : Bytes}
    (hencrypt : ∀ k n d, ∃ c, x.suite.encrypt k n d (ArmMessage.application payload).encode = some c) (t : Turn) :
    ∃ m, (t.armOutbound x payload).1 = .ok m := by
  have hseal : ∀ (t : Turn) id pair, ∃ m, (t.sealMessage x id pair (.application payload)).1 = .ok m := by
    intro t id pair
    obtain ⟨c, hc⟩ := hencrypt pair.tx t.entropy.drawNonce.1 (associatedData x.own.publicKey x.peer id)
    exact ⟨_, by rw [sealMessage_fst, hc, Option.elim_some]⟩
  unfold armOutbound
  dsimp only
  split
  · exact hseal _ _ _
  · exact hseal _ _ _

namespace Engine

variable {S : Suite} {e : Engine} {now : Nat} {p : PublicKey} {err : ArmError}

theorem freshSession_refused (h : Agreement.bondWith S e.identity p = .error err) : e.freshSession S p = .error err := by
  rw [freshSession_eq, h]
  rfl

/-- Looking for a session where there is none and none can be started changes nothing. -/
theorem resolve_refused (he : e.sessions.Sound) (hheld : e.held p = none) (h : e.freshSession S p = .error err) :
    e.resolve S now p = (.error err, e) := by
  have hstored : e.sessions.stored p = none := Option.map_eq_none_iff.1 hheld
  have hc : ¬ e.sessions.contains p now = true := by
    rw [Cache.contains_stored he, hstored]
    exact Bool.false_ne_true
  have hvacate : e.vacate p = e := by
    rw [vacate, Cache.remove_absent he hstored]
    simp [announce]
  rw [resolve, ensureSession_absent hc, h, hvacate]

theorem converse_refused {α : Type} (he : e.sessions.Sound) (hheld : e.held p = none)
    (h : e.freshSession S p = .error err) (work : Context → Turn → Except ArmError α × Turn) (r : Entropy) :
    e.converse S now p work r = (.error err, e, r) := by
  rw [converse, resolve_refused he hheld h]

theorem session_lapsed (he : e.sessions.Sound) (httl : e.sessions.ttl = some 0) (now : Nat) (p : PublicKey) :
    e.session p now = none := by
  rw [session, Cache.peek_stored he]
  cases e.sessions.stored p with
  | none => rfl
  | some i =>
    have hoverdue : e.sessions.overdue i now = true := by
      rw [Cache.overdue_eq, httl, Option.any_some]
      exact decide_eq_true (Nat.zero_le _)
    rw [Option.bind_some, if_pos hoverdue]

end Engine

namespace Endpoint

open Engine

variable {S : Suite} {now : Nat} {w : Endpoint} {p : PublicKey} {s : Session}

/-- Where sessions expire at once, none is found. -/
theorem resolve_lapsed (hw : w.engine.sessions.Sound) (httl : w.engine.sessions.ttl = some 0)
    (hs : w.engine.freshSession S p = .ok s) :
    (w.engine.resolve S now p).1 = .error (.invalidArgument (.noSession p)) := by
  have hnone := session_lapsed (sound_ensureSession S now p hw) ((ttl_ensureSession S now p hw).trans httl) now p
  rw [resolve_ensured hw (ensureSession_fst now hs), hnone]
  rfl

/-- **The session that there is to be found is found**, unless sessions expire at once. -/
theorem resolve_finds (hw : w.engine.sessions.Sound) (hs : w.engine.Finds S now p s) :
    (w.engine.resolve S now p).1 =
      if w.engine.sessions.ttl = some 0 then .error (.invalidArgument (.noSession p)) else .ok s := by
  split
  · rename_i httl
    rcases hs with hlive | ⟨-, hfresh⟩
    · rw [session_lapsed hw httl] at hlive
      cases hlive
    · exact resolve_lapsed hw httl hfresh
  · rename_i httl
    rcases hs with hlive | ⟨hnone, hfresh⟩
    · rw [resolve_live S hw hlive]
    · obtain ⟨s', hs'⟩ := resolve_ok now hw httl hfresh
      rcases ((resolve_found S now p hw).1 s' hs').1 with hlive | ⟨-, hfresh'⟩
      · rw [hnone] at hlive
        cases hlive
      · rw [hs', ← hfresh', hfresh]

/-- Work on a session that is found leaves it live. -/
theorem converse_live_after {α : Type} (hw : w.engine.sessions.Sound) (hs : (w.engine.resolve S now p).1 = .ok s)
    (work : Context → Turn → Except ArmError α × Turn) :
    ((w.engine.converse S now p work w.entropy).2.1.session p now).isSome = true := by
  have hsound := (looked_resolve hw S now p).sound
  rw [converse_ok hs, live_absorb hsound (live_resolve hw hs)]
  rfl

/-- A plain endpoint opens a missive exactly if sessions do not expire at once. -/
theorem Plain.reads_iff (h : w.Plain S) (hC : S.Commutes) (hO : S.Opens) {a b : SecretKey} {payload : Bytes}
    {m : ArmedMessage} (hidentity : w.engine.identity = S.keyPair b)
    (hm : Missive S (S.keyPair a) (S.publicOf b) (.application payload) m) (now : Nat) :
    (w.engine.disarmInbound S now (S.publicOf a) m w.entropy).1 = .ok (.application payload) ↔
      w.engine.sessions.ttl ≠ some 0 := by
  refine ⟨?_, fun httl => h.reads hC hO hidentity httl hm now⟩
  intro hread httl
  obtain ⟨g, hg, -⟩ := hm.mirrored hC hO
  obtain ⟨f, hf⟩ := freshSession_bond (hidentity ▸ hg)
  have hlapsed : (w.engine.resolve S now (S.publicOf a)).1 = .error (.invalidArgument (.noSession (S.publicOf a))) :=
    resolve_lapsed h.sound httl hf
  have hrefused := congrArg Prod.fst (converse_error hlapsed (fun x t => t.disarmInbound x m) w.entropy)
  cases hread.symm.trans hrefused

theorem held_refused (S : Suite) (identity : KeyPair) (config : ArmConfig) (entropy : Entropy)
    (ops : List (Nat × Operation)) {err : ArmError} (h : Agreement.bondWith S identity p = .error err) :
    ((start identity config entropy).run S ops).engine.held p = none := by
  cases hheld : ((start identity config entropy).run S ops).engine.held p with
  | none => rfl
  | some s =>
    obtain ⟨b, hb, -⟩ := sessions_run S identity config entropy ops (Q := fun p s => s.Rests S identity p)
      (fun _ _ hs => rests_freshSession hs) (fun _ _ _ _ _ hm ht => hm.rests ht) p s hheld
    rw [h] at hb
    cases hb

/-- **Whom an engine can write to**, in every state of a run.  Without a long-time agreement with the peer, operations
fail and leave the engine as it is.  With one, a session is found, a payload is encrypted and the session is live
afterwards, if sessions do not expire at once; and if they do, no session is ever found. -/
theorem writes (S : Suite) (identity : KeyPair) (config : ArmConfig) (entropy : Entropy) (ops : List (Nat × Operation))
    (now : Nat) (p : PublicKey) (payload : Bytes)
    (hencrypt : ∀ k n d, ∃ c, S.encrypt k n d (ArmMessage.application payload).encode = some c) :
    let w := (start identity config entropy).run S ops
    let armed := w.engine.armOutbound S now p payload w.entropy
    (identity.publicKey = p ∨ S.shared identity.secretKey p = Block.filled 32 0 →
      (∃ err, armed = (.error err, w.engine, w.entropy)) ∧
      ∀ m, ∃ err, w.engine.disarmInbound S now p m w.entropy = (.error err, w.engine, w.entropy)) ∧
    (identity.publicKey ≠ p → S.shared identity.secretKey p ≠ Block.filled 32 0 →
      (config.Lasting → (∃ s, (w.engine.resolve S now p).1 = .ok s) ∧ (∃ m, armed.1 = .ok m) ∧
        (armed.2.1.session p now).isSome = true) ∧
      (¬ config.Lasting → (w.engine.resolve S now p).1 = .error (.invalidArgument (.noSession p)) ∧
        armed.1 = .error (.invalidArgument (.noSession p)))) := by
  intro w armed
  have hstart := sound_start identity config entropy
  have hsound : w.engine.sessions.Sound := sound_run hstart ops
  have hidentity : w.engine.identity = identity := identity_run hstart ops
  have httl : w.engine.sessions.ttl = config.sessionExpireAfter.bound? := congrArg (·.2.1) (bounds_run hstart ops)
  have hbond := bondWith_refuses S identity p
  constructor
  · intro hno
    obtain ⟨err, herr⟩ := hbond.2 hno
    have hheld : w.engine.held p = none := held_refused S identity config entropy ops herr
    have hfresh : w.engine.freshSession S p = .error err := freshSession_refused (hidentity.symm ▸ herr)
    exact ⟨⟨err, converse_refused hsound hheld hfresh _ _⟩,
      fun m => ⟨err, converse_refused hsound hheld hfresh _ _⟩⟩
  · intro hne hshared
    obtain ⟨b, hb⟩ : ∃ b, Agreement.bondWith S identity p = .ok b := by
      cases hb : Agreement.bondWith S identity p with
      | ok b => exact ⟨b, rfl⟩
      | error err => exact absurd (hbond.1 ⟨err, hb⟩) (not_or.2 ⟨hne, hshared⟩)
    obtain ⟨s, hs⟩ := freshSession_bond (hidentity.symm ▸ hb : Agreement.bondWith S w.engine.identity p = .ok b)
    constructor
    · intro hlasting
      have hlasts : w.engine.sessions.ttl ≠ some 0 := httl ▸ config.lasting_iff.1 hlasting
      obtain ⟨s', hs'⟩ := resolve_ok now hsound hlasts hs
      refine ⟨⟨s', hs'⟩, ?_, converse_live_after hsound hs' _⟩
      obtain ⟨m, hm⟩ := Turn.armOutbound_encrypts (x := w.engine.context S now p) hencrypt
        { session := s', entropy := w.entropy }
      exact ⟨m, (congrArg Prod.fst (converse_ok hs' _ _)).trans hm⟩
    · intro hmomentary
      have hlapses : w.engine.sessions.ttl = some 0 := by
        rw [httl]
        exact Decidable.not_not.1 (mt config.lasting_iff.2 hmomentary)
      have hnone : (w.engine.resolve S now p).1 = .error (.invalidArgument (.noSession p)) :=
        resolve_lapsed hsound hlapses hs
      exact ⟨hnone, congrArg Prod.fst (converse_error hnone _ _)⟩

/-- A node takes settings with which sessions may be idle for half a millisecond, but its engine then encrypts nothing.
It does with the usual settings. -/
theorem writes_momentary :
    let settings : NodeConfig := { arm := { sessionExpireAfter := .ofNanos 500000 } }
    let identity := Textbook.suite.keyPair ⟨Textbook.remainder 5⟩
    let momentary := (start identity settings.arm (Textbook.counting 11)).run Textbook.suite acquaintance
    let usual := (start identity {} (Textbook.counting 11)).run Textbook.suite acquaintance
    settings.validate = .ok settings ∧ identity.publicKey ≠ partner ∧
      Textbook.suite.shared identity.secretKey partner ≠ Block.filled 32 0 ∧
      (momentary.engine.armOutbound Textbook.suite 3 partner [8] momentary.entropy).1 =
        .error (.invalidArgument (.noSession partner)) ∧
      (∃ m, (usual.engine.armOutbound Textbook.suite 3 partner [8] usual.entropy).1 = .ok m) := by
  intro settings identity momentary usual
  have hencrypt : ∀ k n d, ∃ c, Textbook.suite.encrypt k n d (ArmMessage.application [8]).encode = some c :=
    fun k n d => ⟨_, rfl⟩
  have hvalid : settings.validate = .ok settings := rfl
  have hne : identity.publicKey ≠ partner := by decide +kernel
  have hshared : Textbook.suite.shared identity.secretKey partner ≠ Block.filled 32 0 := by decide +kernel
  have hmomentary : ¬ settings.arm.Lasting := by
    rintro (hzero | hmillis)
    · exact absurd hzero (by decide)
    · exact absurd (show settings.arm.sessionExpireAfter.millis = 0 by decide) hmillis
  have hlasting : ({} : ArmConfig).Lasting := .inr (by decide)
  have hlapses := writes Textbook.suite identity settings.arm (Textbook.counting 11) acquaintance 3 partner [8] hencrypt
  have hlasts := writes Textbook.suite identity {} (Textbook.counting 11) acquaintance 3 partner [8] hencrypt
  exact ⟨hvalid, hne, hshared, ((hlapses.2 hne hshared).2 hmomentary).2, ((hlasts.2 hne hshared).1 hlasting).2.1⟩

end Endpoint

end Overlay
