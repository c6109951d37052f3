import Overlay.Proofs.Engine.Live

/-!
# The session that an operation works on

An operation about a peer works on the live session with that peer, or on a fresh one if there is none
(`Engine.Finds`).  Whichever it is, the engine holds the session of the turn afterwards (`held_converse`).  So any
single operation leaves the session with a peer as it was, or drops it, or makes it that of a turn of the session
found (`held_perform`).
-/

namespace Overlay

namespace Engine

/-- What is found when the session with a peer is looked up: the live one, or a fresh one if there is none. -/
def Finds (S : Suite) (now : Nat) (p : PublicKey) (s : Session) (e : Engine) : Prop :=
  e.session p now = some s ∨ (e.session p now = none ∧ e.freshSession S p = .ok s)

end Engine

namespace Endpoint

open Engine

variable {S : Suite} {now : Nat} {w : Endpoint} {p : PublicKey} {s : Session}

theorem held_ensureSession_error (S : Suite) (now : Nat) (p : PublicKey) (hw : w.engine.sessions.Sound)
    (err : ArmError) (h : (w.engine.ensureSession S now p).1 = .error err) :
    (w.engine.ensureSession S now p).2.held p = none := by
  by_cases hc : w.engine.sessions.contains p now = true
  · rw [ensureSession, if_pos hc] at h
    cases h
  · rw [ensureSession_absent hc] at h ⊢
    cases hf : w.engine.freshSession S p with
    | error err => exact congrArg (Option.map _) ((Cache.stored_remove hw p p).trans (if_pos rfl))
    | ok s =>
      rw [hf] at h
      cases h

theorem resolve_found (S : Suite) (now : Nat) (p : PublicKey) (hw : w.engine.sessions.Sound) :
    (∀ s, (w.engine.resolve S now p).1 = .ok s →
      w.engine.Finds S now p s ∧ (w.engine.resolve S now p).2.held p = some s) ∧
    ∀ err, (w.engine.resolve S now p).1 = .error err → (w.engine.resolve S now p).2.held p = none := by
  have hpeer : (⟨.silence, (· = p), fun _ => True⟩ : Scope).peers p := rfl
  have hheld := (steps_resolve S now hw hpeer).2
  cases hlive : w.engine.session p now with
  | some s =>
    rw [resolve_live S hw hlive] at hheld ⊢
    refine ⟨?_, fun err h => by cases h⟩
    intro s' hs
    cases hs
    exact ⟨Or.inl hlive, hheld s rfl⟩
  | none =>
    have hc : ¬ w.engine.sessions.contains p now = true := by
      rw [Cache.contains, show w.engine.sessions.peek p now = none from hlive]
      exact Bool.false_ne_true
    cases hresult : (w.engine.ensureSession S now p).1 with
    | error err =>
      rw [resolve_unensured hresult]
      exact ⟨(fun s h => by cases h), fun _ _ => held_ensureSession_error S now p hw err hresult⟩
    | ok u =>
      have hsound := sound_ensureSession S now p hw
      obtain ⟨s, hfresh, hstored⟩ := (ensureSession_ok S now p hw hresult).resolve_left fun h => hc h.1
      rw [resolve_ensured hw hresult] at hheld ⊢
      generalize (w.engine.ensureSession S now p).2 = e at hheld hsound hstored
      have hget : (e.withSessions (e.sessions.get p now).2).held p = e.session p now :=
        (held_get (w := w.withEngine e) hsound p p now).trans (if_pos rfl)
      have hpeek : e.session p now = _ := Cache.peek_stored hsound p now
      rw [hstored, Option.bind_some] at hpeek
      cases hfound : e.session p now with
      | none => exact ⟨(fun s h => by cases h), fun _ _ => hget.trans hfound⟩
      | some s' =>
        refine ⟨?_, fun err h => by cases h⟩
        intro s'' hs
        cases hs
        refine ⟨Or.inr ⟨hlive, ?_⟩, hget.trans hfound⟩
        -- What was started is what is found.
        have hsame := hfound.symm.trans hpeek
        split at hsame
        · cases hsame
        · rw [Option.some.inj hsame]
          exact hfresh

theorem converse_found {α : Type} {a : α} (hw : w.engine.sessions.Sound)
    (work : Context → Turn → Except ArmError α × Turn)
    (h : (w.engine.converse S now p work w.entropy).1 = .ok a) :
    ∃ s, w.engine.Finds S now p s ∧
      (work (w.engine.context S now p) { session := s, entropy := w.entropy }).1 = .ok a := by
  cases hr : (w.engine.resolve S now p).1 with
  | ok s =>
    rw [converse_ok hr] at h
    exact ⟨s, ((resolve_found S now p hw).1 s hr).1, h⟩
  | error err =>
    rw [converse_error hr] at h
    cases h

/-- What fresh sessions have and moves keep, the session that is found after a run has. -/
theorem sessions_finds (S : Suite) (identity : KeyPair) (config : ArmConfig) (entropy : Entropy)
    (ops : List (Nat × Operation)) {Q : PublicKey → Session → Prop}
    (hfresh : ∀ p s, (Engine.start identity config).freshSession S p = .ok s → Q p s)
    (hmoves : ∀ p x h t t', Turn.Moves x h t t' → Q p t.session → Q p t'.session)
    (hs : ((start identity config entropy).run S ops).engine.Finds S now p s) : Q p s := by
  have hw := sound_start identity config entropy
  have hsound := sound_run (S := S) hw ops
  rcases hs with hlive | ⟨-, hstarted⟩
  · exact sessions_run S identity config entropy ops hfresh hmoves p s (held_live hsound hlive)
  · rw [freshSession_congr (identity_run hw ops) (config_run hw ops)] at hstarted
    exact hfresh p s hstarted

theorem held_converse {α : Type} (hw : w.engine.sessions.Sound)
    (work : Context → Turn → Except ArmError α × Turn) :
    (w.engine.converse S now p work w.entropy).2.1.held p = none ∨ ∃ s, w.engine.Finds S now p s ∧
      (w.engine.converse S now p work w.entropy).2.1.held p =
        some (work (w.engine.context S now p) { session := s, entropy := w.entropy }).2.session := by
  have hpeer : (⟨.silence, (· = p), fun _ => True⟩ : Scope).peers p := rfl
  have hsteps := (steps_resolve S now hw hpeer).1
  obtain ⟨hfound, herror⟩ := resolve_found S now p hw
  cases hr : (w.engine.resolve S now p).1 with
  | error err =>
    rw [converse_error hr]
    exact Or.inl (herror err hr)
  | ok s =>
    obtain ⟨hfinds, hheld⟩ := hfound s hr
    rw [converse_ok hr]
    refine Or.inr ⟨s, hfinds, ?_⟩
    rw [held_absorb (hsteps.sound hw) hheld, if_pos rfl]

end Endpoint

namespace Operation

open Endpoint Engine

variable {S : Suite} {now : Nat} {w : Endpoint} {p : PublicKey} {op : Operation}

/-- **A single operation leaves a session as it was, or drops it, or makes it that of a turn** of the session
found. -/
theorem held_perform (S : Suite) (now : Nat) (p : PublicKey) (hw : w.engine.sessions.Sound)
    (hfs : w.engine.config.forwardSecrecy = true) (hop : op ≠ .runDeferred) :
    (op.perform S now w).engine.held p = w.engine.held p ∨ (op.perform S now w).engine.held p = none ∨
      ∃ s, w.engine.Finds S now p s ∧ (op.perform S now w).engine.held p =
        some (op.turn (w.engine.context S now p) { session := s, entropy := w.entropy }).session := by
  by_cases hpeer : op.peers w p
  swap
  · exact (held_perform_other S now hw hpeer).imp_right Or.inl
  cases op with
  | armOutbound peer payload =>
    cases hpeer
    exact Or.inr (held_converse hw fun x t => t.armOutbound x payload)
  | disarmInbound peer m =>
    cases hpeer
    exact Or.inr (held_converse hw fun x t => t.disarmInbound x m)
  | doKeyExchange peer =>
    cases hpeer
    simp only [perform, Engine.doKeyExchange, hfs, if_true]
    exact Or.inr (held_converse hw fun x t => t.doKeyExchange x)
  | receivedKeyExchange peer key =>
    cases hpeer
    simp only [perform, Engine.receivedKeyExchange]
    by_cases hkey : key = p
    · rw [if_pos hkey]
      exact Or.inl rfl
    · rw [if_neg hkey]
      exact Or.inr (held_converse hw fun x t => t.receivedKeyExchange x key)
  | sendAck peer =>
    cases hpeer
    exact Or.inr (held_converse hw fun x t => t.sendAck x)
  | receivedAck peer id =>
    cases hpeer
    exact Or.inr (held_converse hw fun x t =>
      ((.ok (t.promote x id).1 : Except ArmError Bool), (t.promote x id).2))
  | checkForRenew peer =>
    cases hpeer
    have hfound := Cache.get_fst hw p now
    have hheld := held_get hw p p now
    have hsound := hw.get p now
    rw [if_pos rfl, ← hfound] at hheld
    simp only [perform, Engine.checkForRenew, hfs, if_true]
    cases hr : w.engine.sessions.get p now with
    | mk found sessions =>
      rw [hr] at hfound hheld hsound
      cases found with
      | none => exact Or.inr (Or.inl hheld)
      | some s =>
        refine Or.inr (Or.inr ⟨s, Or.inl hfound.symm, ?_⟩)
        show ((w.engine.withSessions sessions).absorb p _).held p = _
        rw [held_absorb (e := w.engine.withSessions sessions) hsound hheld, if_pos rfl]
        rfl
  | defer peer work => exact Or.inl rfl
  | runDeferred => exact absurd rfl hop
  | evictIdleSessions => cases hpeer
  | drainOutbox => cases hpeer
  | drainEvents => cases hpeer

end Operation

end Overlay
