import Overlay.Proofs.Engine.Found
import Overlay.Proofs.Engine.Sealing
import Overlay.Proofs.Session.Pace

/-!
# What a single operation comes to

Any operation about a peer that is neither a job left for later nor the doing of jobs comes to one of two things
(`Operation.outcome`).  Either the engine looked its sessions through and stayed idle, with nothing encrypted and no
session with the peer that was not there before; or it found a session and took in a turn of it, whose encryptions
are those of the operation.  Looking sessions through drops some, with the events due, and leaves the jobs, the
outbox and the settings alone (`Engine.Looked`).
-/

namespace Overlay

namespace Engine

variable {S : Suite} {now : Nat} {p : PublicKey} {e e' : Engine}

/-- An engine that differs from another one in its sessions, and in the events due for sessions that were
dropped. -/
structure Looked (e e' : Engine) : Prop where
  identity : e'.identity = e.identity
  config : e'.config = e.config
  deferred : e'.deferred = e.deferred
  outbox : e'.outbox = e.outbox
  sound : e'.sessions.Sound
  events : ∃ gone, e'.events = e.events ++ gone ∧ ∀ v ∈ gone, ∃ q s, e.held q = some s ∧ v ∈ dropped q s

theorem Looked.refl (he : e.sessions.Sound) : e.Looked e :=
  ⟨rfl, rfl, rfl, rfl, he, [], (List.append_nil _).symm, fun _ h => absurd h List.not_mem_nil⟩

theorem looked_sessions {c : Cache PublicKey Session} (hc : c.Sound) : e.Looked (e.withSessions c) :=
  ⟨rfl, rfl, rfl, rfl, hc, [], (List.append_nil _).symm, fun _ h => absurd h List.not_mem_nil⟩

theorem looked_ensureSession (he : e.sessions.Sound) (S : Suite) (now : Nat) (p : PublicKey) :
    e.Looked (e.ensureSession S now p).2 := by
  by_cases hc : e.sessions.contains p now = true
  · rw [ensureSession, if_pos hc]
    exact .refl he
  have hsound : (e.vacate p).sessions.Sound := he.remove p
  have hremoved : ∀ q, (e.vacate p).sessions.stored q = if q = p then none else e.sessions.stored q :=
    Cache.stored_remove he p
  have hidle : ∀ v ∈ ((e.sessions.remove p).1.map (dropped p)).getD [], ∃ q s, e.held q = some s ∧ v ∈ dropped q s := by
    intro v hv
    rw [Cache.remove_fst he] at hv
    cases hi : e.held p with
    | none =>
      rw [show (e.sessions.stored p).map (·.value) = none from hi] at hv
      cases hv
    | some s =>
      rw [show (e.sessions.stored p).map (·.value) = some s from hi] at hv
      exact ⟨p, s, hi, hv⟩
  rw [ensureSession_absent hc]
  cases e.freshSession S p with
  | error err => exact ⟨rfl, rfl, rfl, rfl, hsound, _, rfl, hidle⟩
  | ok s =>
    refine ⟨rfl, rfl, rfl, rfl, hsound.insert p s now, _, List.append_assoc .., ?_⟩
    intro v hv
    rcases List.mem_append.1 hv with hv | hv
    · exact hidle v hv
    -- the session that leaves was stored, and is not the one removed before
    rcases Cache.stored_insert hsound p s now with ⟨hnone, -⟩ | ⟨i, hgone, hi, hne, -⟩
    · rw [hnone] at hv
      cases hv
    · rw [hgone] at hv
      rw [hremoved, if_neg hne] at hi
      exact ⟨i.key, i.value, by rw [held, hi]; rfl, hv⟩

theorem looked_resolve (he : e.sessions.Sound) (S : Suite) (now : Nat) (p : PublicKey) :
    e.Looked (e.resolve S now p).2 := by
  have hensure := looked_ensureSession he S now p
  unfold resolve
  cases hr : e.ensureSession S now p with
  | mk result e₁ =>
    rw [hr] at hensure
    cases result with
    | error err => exact hensure
    | ok u =>
      have hget : e.Looked (e₁.withSessions (e₁.sessions.get p now).2) :=
        ⟨hensure.identity, hensure.config, hensure.deferred, hensure.outbox, hensure.sound.get p now,
          hensure.events⟩
      simp only
      split <;> exact hget

theorem session_of_error {err : ArmError} (he : e.sessions.Sound) (hr : (e.resolve S now p).1 = .error err) :
    e.session p now = none := by
  cases hs : e.session p now with
  | none => rfl
  | some s =>
    rw [resolve_live S he hs] at hr
    cases hr

end Engine

namespace Endpoint

open Engine

variable {S : Suite} {now : Nat} {w : Endpoint} {p : PublicKey}

theorem live_resolve {s : Session} (hw : w.engine.sessions.Sound) (hs : (w.engine.resolve S now p).1 = .ok s) :
    (w.engine.resolve S now p).2.session p now = some s := (settled_resolve hw hs).peek

/-- Work on the session with a peer finds none, or is a turn of the one found. -/
theorem converse_cases {α : Type} (hw : w.engine.sessions.Sound) (S : Suite) (now : Nat) (p : PublicKey)
    (work : Context → Turn → Except ArmError α × Turn) (posts : Context → Turn → List Seal) :
    (∃ e err, w.engine.converse S now p work w.entropy = (.error err, e, w.entropy) ∧ w.engine.Looked e ∧
      w.engine.session p now = none ∧ e.held p = none ∧ w.converseSeals S now p posts = []) ∨
    ∃ e s, w.engine.Looked e ∧ w.engine.Finds S now p s ∧ e.session p now = some s ∧
      w.converseSeals S now p posts =
        posts (w.engine.context S now p) { session := s, entropy := w.entropy } ∧
      w.engine.converse S now p work w.entropy =
        ((work (w.engine.context S now p) { session := s, entropy := w.entropy }).1,
          e.absorb p (work (w.engine.context S now p) { session := s, entropy := w.entropy }).2,
          (work (w.engine.context S now p) { session := s, entropy := w.entropy }).2.entropy) := by
  have hlooked := looked_resolve hw S now p
  obtain ⟨hfound, herror⟩ := resolve_found S now p hw
  cases hr : (w.engine.resolve S now p).1 with
  | error err =>
    exact Or.inl ⟨_, err, converse_error hr work w.entropy, hlooked, session_of_error hw hr, herror err hr,
      converseSeals_error hr posts⟩
  | ok s =>
    exact Or.inr ⟨_, s, hlooked, (hfound s hr).1, live_resolve hw hr, converseSeals_ok hr posts,
      converse_ok hr work w.entropy⟩

end Endpoint

namespace Operation

open Endpoint Engine

variable {S : Suite} {now : Nat} {w : Endpoint} {p : PublicKey} {op : Operation} {s : Seal}

/-- What an operation about a peer comes to. -/
inductive Outcome (S : Suite) (now : Nat) (w : Endpoint) (p : PublicKey) (op : Operation) : Endpoint → Prop where
  /-- There was nothing to do, or no session to do it in. -/
  | idle (e : Engine) (hlooked : w.engine.Looked e)
      (hidle : e = w.engine ∨ (w.engine.session p now = none ∧ e.held p = none))
      (hseals : op.workSeals S now w = []) : Outcome S now w p op (w.after (e, w.entropy))
  | turn (e : Engine) (s : Session) (hlooked : w.engine.Looked e) (hfinds : w.engine.Finds S now p s)
      (hlive : e.session p now = some s) (hseals : op.workSeals S now w =
        op.turnSeals (w.engine.context S now p) { session := s, entropy := w.entropy }) :
      Outcome S now w p op (w.after
        (e.absorb p (op.turn (w.engine.context S now p) { session := s, entropy := w.entropy }),
          (op.turn (w.engine.context S now p) { session := s, entropy := w.entropy }).entropy))

theorem Outcome.rest (hw : w.engine.sessions.Sound) (hseals : op.workSeals S now w = []) :
    Outcome S now w p op w := .idle w.engine (.refl hw) (Or.inl rfl) hseals

theorem Outcome.of_converse {α : Type} (hw : w.engine.sessions.Sound)
    {work : Context → Turn → Except ArmError α × Turn} {posts : Context → Turn → List Seal}
    (hseals : op.workSeals S now w = w.converseSeals S now p posts)
    (hwork : ∀ x t, (work x t).2 = op.turn x t) (hposts : ∀ x t, posts x t = op.turnSeals x t) :
    Outcome S now w p op (w.after (w.engine.converse S now p work w.entropy).2) := by
  rcases converse_cases hw S now p work posts with
    ⟨e, err, hr, hlooked, hgone, hheld, hnone⟩ | ⟨e, s, hlooked, hfinds, hlive, hsent, hr⟩
  · rw [hr]
    exact .idle e hlooked (Or.inr ⟨hgone, hheld⟩) (hseals.trans hnone)
  · rw [hr]
    simp only [hwork]
    refine .turn e s hlooked hfinds hlive ?_
    rw [hseals, hsent, hposts]

/-- A check for renewal looks for the session, and does not make one. -/
theorem outcome_checkForRenew (S : Suite) (now : Nat) (hw : w.engine.sessions.Sound) (p : PublicKey) :
    Outcome S now w p (.checkForRenew p) ((Operation.checkForRenew p).perform S now w) := by
  simp only [perform, Engine.checkForRenew]
  by_cases hfs : w.engine.config.forwardSecrecy = true
  swap
  · rw [if_neg hfs]
    exact .rest hw (if_neg hfs)
  rw [if_pos hfs]
  have hheld := held_get hw p p now
  have hlooked : w.engine.Looked (w.engine.withSessions (w.engine.sessions.get p now).2) :=
    looked_sessions (hw.get p now)
  have hfst := Cache.get_fst hw p now
  have hagain : ∀ v, w.engine.sessions.peek p now = some v →
      (w.engine.sessions.get p now).2.peek p now = some v := fun v hv => (Cache.settled_get hw hv).peek
  have hseals : (checkForRenew p).workSeals S now w = (w.engine.sessions.get p now).1.elim [] fun s =>
      Turn.renewalSeals (w.engine.context S now p) { session := s, entropy := w.entropy } := if_pos hfs
  rw [if_pos rfl, ← hfst] at hheld
  cases hr : w.engine.sessions.get p now with
  | mk found sessions =>
    rw [hr] at hheld hlooked hfst hagain hseals
    cases found with
    | none => exact .idle _ hlooked (Or.inr ⟨hfst.symm, hheld⟩) hseals
    | some s => exact .turn _ s hlooked (Or.inl hfst.symm) (hagain s hfst.symm) hseals

/-- **Any operation about a peer, up to jobs, is idle or a turn.** -/
theorem outcome (S : Suite) (now : Nat) (hw : w.engine.sessions.Sound) (hpeer : op.peers w p)
    (hjobs : op ≠ .runDeferred) (hdefer : ∀ work, op ≠ .defer p work) :
    Outcome S now w p op (op.perform S now w) := by
  cases op with
  | armOutbound peer payload =>
    cases hpeer
    exact .of_converse hw rfl (fun _ _ => rfl) fun _ _ => rfl
  | disarmInbound peer m =>
    cases hpeer
    exact .of_converse hw rfl (fun _ _ => rfl) fun _ _ => rfl
  | doKeyExchange peer =>
    cases hpeer
    simp only [perform, Engine.doKeyExchange]
    by_cases hfs : w.engine.config.forwardSecrecy = true
    · rw [if_pos hfs]
      exact .of_converse hw (if_pos hfs) (fun _ _ => rfl) fun _ _ => rfl
    · rw [if_neg hfs]
      exact .rest hw (if_neg hfs)
  | receivedKeyExchange peer key =>
    cases hpeer
    simp only [perform, Engine.receivedKeyExchange]
    by_cases hkey : key = p
    · rw [if_pos hkey]
      exact .rest hw (if_pos hkey)
    · rw [if_neg hkey]
      exact .of_converse hw (if_neg hkey) (fun _ _ => rfl) fun _ _ => rfl
  | sendAck peer =>
    cases hpeer
    exact .of_converse hw rfl (fun _ _ => rfl) fun _ _ => rfl
  | receivedAck peer id =>
    cases hpeer
    exact .of_converse hw (w.converseSeals_nil S now p).symm (fun _ _ => rfl) fun _ _ => rfl
  | checkForRenew peer =>
    cases hpeer
    exact outcome_checkForRenew S now hw p
  | defer peer work =>
    cases hpeer
    exact absurd rfl (hdefer work)
  | runDeferred => exact absurd rfl hjobs
  | evictIdleSessions => cases hpeer
  | drainOutbox => cases hpeer
  | drainEvents => cases hpeer

theorem peers_unique {q : PublicKey} (hjobs : op ≠ .runDeferred) (hp : op.peers w p) (hq : op.peers w q) :
    q = p := by
  cases op with
  | runDeferred => exact absurd rfl hjobs
  | evictIdleSessions => cases hp
  | drainOutbox => cases hp
  | drainEvents => cases hp
  | _ =>
    cases hp
    exact hq

end Operation

end Overlay
