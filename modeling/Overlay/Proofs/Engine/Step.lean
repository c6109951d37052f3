import Overlay.Engine
import Overlay.Proofs.Cache.Stored
import Overlay.Proofs.Session.Notice

/-!
# What an engine can do

An `Endpoint` is an engine at work, with its source of randomness and the events it has handed out.  Each
of its operations is made of a few kinds of steps (`Step`): sessions are started, kept or dropped with the
events due (`Fate`); a session lapses without a word; a stored session takes a turn; queues change.

One statement for each operation says that it is made of such steps: `steps_resolve`, `steps_converse`,
`steps_checkForRenew`, `step_evictIdleSessions`.  Work with a peer is done in a turn of the session that is found, or
fails where none is (`converse_ok`, `converse_error`), and what fresh sessions have and turns keep, every session has
after steps (`Steps.sessions`).  The steps have a `Scope`: what was heard, the peers that the
operation is about, and the peers for which a session protected by a short-lived agreement may lapse without
a word.
-/

namespace Overlay

/-- An engine at work: with its source of randomness, and the events it has handed out. -/
structure Endpoint where
  engine : Engine
  entropy : Entropy
  handedOut : List Event := []

/-- What limits the steps of an operation. -/
structure Scope where
  heard : Hearing
  peers : PublicKey → Prop
  /-- The peers for which a session protected by a short-lived agreement may lapse without a word. -/
  lapses : PublicKey → Prop

namespace Engine

variable {S : Suite} {e : Engine} {now : Nat} {p q : PublicKey} {about : PublicKey → Prop}

abbrev withSessions (e : Engine) (c : Cache PublicKey Session) : Engine := { e with sessions := c }

/-- The session stored for a peer, expired or not. -/
def held (e : Engine) (p : PublicKey) : Option Session := (e.sessions.stored p).map (·.value)

/-- What becomes of the session with a peer, and the events due: it stays, it is dropped, or a fresh one
is started if the peer is concerned. -/
inductive Fate (S : Suite) (e : Engine) (about : PublicKey → Prop) (q : PublicKey) :
    Option Session → List Event → Option Session → Prop where
  | keep (o : Option Session) : Fate S e about q o [] o
  | drop (s : Session) : Fate S e about q (some s) (dropped q s) none
  | start (s : Session) (hq : about q) (hs : e.freshSession S q = .ok s) :
      Fate S e about q none [] (some s)

theorem Fate.origin {o : Option Session} {events : List Event} {s : Session}
    (hf : Fate S e about q o events (some s)) :
    o = some s ∨ about q ∧ e.freshSession S q = .ok s := by
  cases hf with
  | keep => exact Or.inl rfl
  | start _ hq hs => exact Or.inr ⟨hq, hs⟩

theorem dropped_eq (p : PublicKey) (s : Session) : dropped p s = changed p s.state .longTime := by
  unfold dropped changed
  cases s.state <;> rfl

theorem filter_dropped (p q : PublicKey) (s : Session) :
    (dropped p s).filter (fun v => v.peer = some q) = if p = q then dropped p s else [] := by
  unfold dropped
  by_cases hs : s.state = .forwardSecrecy
  · by_cases hp : p = q <;> simp [hs, hp, Event.peer]
  · simp [hs]

/-- Of the events due for some sessions, those about a peer are due for that peer's. -/
theorem filter_flatMap_dropped (q : PublicKey) (l : List (PublicKey × Session)) :
    (l.flatMap fun (p, s) => dropped p s).filter (fun v => v.peer = some q) =
      (l.filter fun g => g.1 = q).flatMap fun (p, s) => dropped p s := by
  induction l with
  | nil => rfl
  | cons g l ih =>
    rw [List.flatMap_cons, List.filter_append, ih, filter_dropped, List.filter_cons]
    by_cases hg : g.1 = q <;> simp [hg]

/-- A session can be started if the long-time agreement can be bonded, and rests on that agreement alone. -/
theorem freshSession_eq (S : Suite) (e : Engine) (p : PublicKey) :
    e.freshSession S p = (Agreement.bondWith S e.identity p).map fun b =>
      { longTimeId := b.id, longTimePair := b.pair,
        initialized := .empty .afterWrite e.config.retention.bound? e.config.maxAgreements,
        active := none, inactive := none, lastKeyExchangeAt := none, lastRenewAttemptAt := none,
        state := .longTime } := by
  unfold freshSession Agreement.longTime
  rw [Agreement.withRecipient_eq]
  have hkeys : (Agreement.ofKeyPair e.identity).keyPair = e.identity := rfl
  rw [hkeys]
  cases Agreement.bondWith S e.identity p <;> rfl

theorem freshSession_ok {s : Session} (hs : e.freshSession S p = .ok s) :
    ∃ b, Agreement.bondWith S e.identity p = .ok b ∧
      s = { longTimeId := b.id, longTimePair := b.pair,
            initialized := .empty .afterWrite e.config.retention.bound? e.config.maxAgreements,
            active := none, inactive := none, lastKeyExchangeAt := none, lastRenewAttemptAt := none,
            state := .longTime } := by
  rw [freshSession_eq] at hs
  cases hb : Agreement.bondWith S e.identity p with
  | error err =>
    rw [hb] at hs
    cases hs
  | ok b =>
    rw [hb] at hs
    exact ⟨b, rfl, (Except.ok.inj hs).symm⟩

theorem freshSession_congr {e' : Engine} (hidentity : e'.identity = e.identity) (hconfig : e'.config = e.config) :
    e'.freshSession S p = e.freshSession S p := by
  unfold freshSession
  rw [hidentity, hconfig]

theorem context_congr {e' : Engine} (hidentity : e'.identity = e.identity) (hconfig : e'.config = e.config) :
    e'.context S now p = e.context S now p := by
  unfold context
  rw [hidentity, hconfig]

theorem state_freshSession {s : Session} (hs : e.freshSession S p = .ok s) : s.state = .longTime := by
  obtain ⟨b, -, rfl⟩ := freshSession_ok hs
  rfl

/-! ### Sessions that are started -/

/-- An engine without the session with a peer, which is told if that is due. -/
def vacate (p : PublicKey) (e : Engine) : Engine :=
  (e.withSessions (e.sessions.remove p).2).announce (((e.sessions.remove p).1.map (dropped p)).getD [])

/-- Where no session is live, the one that was there leaves, and a fresh one is put in its place. -/
theorem ensureSession_absent (hc : ¬ e.sessions.contains p now = true) :
    e.ensureSession S now p =
      match e.freshSession S p with
      | .error err => (.error err, e.vacate p)
      | .ok s => (.ok (), ((e.vacate p).withSessions ((e.vacate p).sessions.insert p s now).cache).announce
          ((((e.vacate p).sessions.insert p s now).evicted.map fun (p, s) => dropped p s).getD [])) := by
  rw [ensureSession, if_neg hc]
  rfl

/-- Looking a session up, or starting one, leaves the rest of the engine alone, up to events. -/
theorem resolve_same (S : Suite) (now : Nat) (p : PublicKey) (e : Engine) :
    (e.resolve S now p).2 = { e with
      sessions := (e.resolve S now p).2.sessions
      events := (e.resolve S now p).2.events } := by
  have hensure : (e.ensureSession S now p).2 = { e with
      sessions := (e.ensureSession S now p).2.sessions
      events := (e.ensureSession S now p).2.events } := by
    by_cases hc : e.sessions.contains p now = true
    · rw [ensureSession, if_pos hc]
    · rw [ensureSession_absent hc]
      cases e.freshSession S p <;> rfl
  unfold resolve
  cases hr : e.ensureSession S now p with
  | mk result e' =>
    rw [hr] at hensure
    cases result with
    | error err => exact hensure
    | ok _ =>
      have hget := congrArg (·.withSessions (e'.sessions.get p now).2) hensure
      simp only
      split <;> exact hget

theorem context_resolve (S : Suite) (now : Nat) (p : PublicKey) (e : Engine) :
    (e.resolve S now p).2.context S now p = e.context S now p := by
  rw [resolve_same]
  rfl

theorem converse_error {α : Type} {err : ArmError} (h : (e.resolve S now p).1 = .error err)
    (work : Context → Turn → Except ArmError α × Turn) (r : Entropy) :
    e.converse S now p work r = (.error err, (e.resolve S now p).2, r) := by
  unfold converse
  cases hr : e.resolve S now p with
  | mk result e' =>
    rw [hr] at h
    cases h
    rfl

/-- Work is done in a turn of the session that is found, and what the turn leaves behind is taken in. -/
theorem converse_ok {α : Type} {s : Session} (h : (e.resolve S now p).1 = .ok s)
    (work : Context → Turn → Except ArmError α × Turn) (r : Entropy) :
    e.converse S now p work r =
      ((work (e.context S now p) { session := s, entropy := r }).1,
        (e.resolve S now p).2.absorb p (work (e.context S now p) { session := s, entropy := r }).2,
        (work (e.context S now p) { session := s, entropy := r }).2.entropy) := by
  have hcontext := context_resolve S now p e
  unfold converse
  cases hr : e.resolve S now p with
  | mk result e' =>
    rw [hr] at h hcontext
    cases h
    have hcontext' : e'.context S now p = e.context S now p := hcontext
    simp only [hcontext']

theorem held_absorb {t : Turn} {s : Session} (hc : e.sessions.Sound) (hp : e.held p = some s)
    (q : PublicKey) : (e.absorb p t).held q = if q = p then some t.session else e.held q := by
  have hm := Cache.stored_modify hc p q fun _ => t.session
  have ha : (e.absorb p t).held q =
      ((e.sessions.modify p fun _ => t.session).stored q).map (·.value) := rfl
  rw [ha, hm]
  by_cases hq : q = p
  · subst hq
    obtain ⟨i, hi, -⟩ := Option.map_eq_some_iff.1 hp
    rw [if_pos rfl, if_pos rfl, hi]
    rfl
  · rw [if_neg hq, if_neg hq]
    rfl

end Engine

namespace Endpoint

open Engine

variable {S : Suite} {now : Nat} {sc : Scope} {w w' : Endpoint} {p q peer : PublicKey}

def after (w : Endpoint) (r : Engine × Entropy) : Endpoint := { w with engine := r.1, entropy := r.2 }

abbrev withEngine (w : Endpoint) (e : Engine) : Endpoint := { w with engine := e }

/-- One change of an endpoint within a scope. -/
inductive Step (S : Suite) (now : Nat) (sc : Scope) : Endpoint → Endpoint → Prop where
  | settle (w : Endpoint) (c : Cache PublicKey Session) (events : List Event) (hc : c.Sound)
      (hb : c.bounds = w.engine.sessions.bounds)
      (hf : ∀ q, Fate S w.engine sc.peers q (w.engine.held q) (events.filter fun v => v.peer = some q)
        ((c.stored q).map (·.value))) :
      Step S now sc w (w.withEngine ((w.engine.withSessions c).announce events))
  | lapse (w : Endpoint) (c : Cache PublicKey Session) (p : PublicKey) (i : Item PublicKey Session)
      (hc : c.Sound) (hb : c.bounds = w.engine.sessions.bounds)
      (hi : w.engine.sessions.stored p = some i)
      (hs : ∀ q, (c.stored q).map (·.value) = if q = p then none else w.engine.held q)
      (hl : i.value.state = .forwardSecrecy → sc.lapses p) :
      Step S now sc w (w.withEngine (w.engine.withSessions c))
  | turn (w : Endpoint) (p : PublicKey) (s : Session) (t : Turn) (hpeer : sc.peers p)
      (hp : w.engine.held p = some s)
      (hm : Turn.Moves (w.engine.context S now p) sc.heard { session := s, entropy := w.entropy } t) :
      Step S now sc w (w.after (w.engine.absorb p t, t.entropy))
  | queue (w : Endpoint) (deferred : List (PublicKey × Deferred)) (outbox : List Outgoing)
      (hd : ∀ job ∈ deferred, job ∈ w.engine.deferred ∨ sc.peers job.1)
      (ho : ∀ m ∈ outbox, m ∈ w.engine.outbox) :
      Step S now sc w
        (w.withEngine { w.engine with deferred := deferred, outbox := outbox })
  | handOut (w : Endpoint) :
      Step S now sc w
        { w with engine := { w.engine with events := [] }
                 handedOut := w.handedOut ++ w.engine.events }

abbrev Steps (S : Suite) (now : Nat) (sc : Scope) : Endpoint → Endpoint → Prop :=
  Relation.ReflTransGen (Step S now sc)

/-- The end of an operation: nothing, or a message that acknowledges an agreement under negotiation. -/
inductive Closes (S : Suite) (now : Nat) (sc : Scope) : Endpoint → Endpoint → Prop where
  | quiet (w : Endpoint) : Closes S now sc w w
  | ack (w : Endpoint) (p : PublicKey) (s : Session) (id : AgreementId) (m : ArmedMessage)
      (hpeer : sc.peers p) (hp : w.engine.held p = some s) (hi : s.inactiveId = some id)
      (hm : Sealed (w.engine.context S now p) s.longTimeId s.longTimePair (.acknowledgement id) m) :
      Closes S now sc w (w.withEngine { w.engine with outbox := w.engine.outbox ++ [⟨p, m⟩] })

def Course (S : Suite) (now : Nat) (sc : Scope) (w w' : Endpoint) : Prop :=
  ∃ v, Steps S now sc w v ∧ Closes S now sc v w'

theorem Steps.course (hs : Steps S now sc w w') : Course S now sc w w' := ⟨w', hs, .quiet w'⟩

theorem Closes.same (hc : Closes S now sc w w') :
    w'.engine = { w.engine with outbox := w'.engine.outbox } ∧ w'.entropy = w.entropy ∧
      w'.handedOut = w.handedOut := by
  cases hc <;> exact ⟨rfl, rfl, rfl⟩

theorem Closes.sessions (hc : Closes S now sc w w') : w'.engine.sessions = w.engine.sessions := by
  rw [hc.same.1]

theorem Closes.config (hc : Closes S now sc w w') : w'.engine.config = w.engine.config := by
  rw [hc.same.1]

theorem Closes.events (hc : Closes S now sc w w') : w'.engine.events = w.engine.events := by
  rw [hc.same.1]

theorem Step.steps (hs : Step S now sc w w') : Steps S now sc w w' := .single hs

theorem Step.identity (hs : Step S now sc w w') : w'.engine.identity = w.engine.identity := by
  cases hs <;> rfl

theorem Step.config (hs : Step S now sc w w') : w'.engine.config = w.engine.config := by
  cases hs <;> rfl

theorem Step.sound (hs : Step S now sc w w') (hw : w.engine.sessions.Sound) :
    w'.engine.sessions.Sound := by
  cases hs with
  | settle c events hc hb hf => exact hc
  | lapse c p i hc hb hi hs hl => exact hc
  | turn p s t hpeer hp hm => exact hw.modify p fun _ => t.session
  | queue deferred outbox hd ho => exact hw
  | handOut => exact hw

theorem Step.bounds (hs : Step S now sc w w') (hw : w.engine.sessions.Sound) :
    w'.engine.sessions.bounds = w.engine.sessions.bounds := by
  cases hs with
  | settle c events hc hb hf => exact hb
  | lapse c p i hc hb hi hs hl => exact hb
  | turn p s t hpeer hp hm => exact Cache.bounds_modify hw p fun _ => t.session
  | queue deferred outbox hd ho => rfl
  | handOut => rfl

theorem Steps.identity (hs : Steps S now sc w w') :
    w'.engine.identity = w.engine.identity := by
  induction hs with
  | refl => rfl
  | tail _ hs ih => rw [hs.identity, ih]

theorem Steps.config (hs : Steps S now sc w w') : w'.engine.config = w.engine.config := by
  induction hs with
  | refl => rfl
  | tail _ hs ih => rw [hs.config, ih]

theorem Steps.context (hs : Steps S now sc w w') (p : PublicKey) :
    w'.engine.context S now p = w.engine.context S now p := context_congr hs.identity hs.config

theorem Steps.sound (hs : Steps S now sc w w') (hw : w.engine.sessions.Sound) :
    w'.engine.sessions.Sound := by
  induction hs with
  | refl => exact hw
  | tail _ hs ih => exact hs.sound ih

theorem Course.sound (hc : Course S now sc w w') (hw : w.engine.sessions.Sound) :
    w'.engine.sessions.Sound := by
  obtain ⟨v, hs, hc⟩ := hc
  rw [hc.sessions]
  exact hs.sound hw

theorem Course.identity (hc : Course S now sc w w') : w'.engine.identity = w.engine.identity := by
  obtain ⟨v, hs, hclose⟩ := hc
  rw [hclose.same.1]
  exact hs.identity

theorem Course.config (hc : Course S now sc w w') : w'.engine.config = w.engine.config := by
  obtain ⟨v, hs, hc⟩ := hc
  exact hc.config.trans hs.config

theorem Step.deferred (hs : Step S now sc w w') {job : PublicKey × Deferred} (hjob : job ∈ w'.engine.deferred) :
    job ∈ w.engine.deferred ∨ sc.peers job.1 := by
  cases hs with
  | turn p s t hpeer hp hm =>
    rcases List.mem_append.1 hjob with hold | hnew
    · exact Or.inl hold
    · obtain ⟨work, -, rfl⟩ := List.mem_map.1 hnew
      exact Or.inr hpeer
  | queue deferred outbox hd ho => exact hd job hjob
  | _ => exact Or.inl hjob

theorem Course.deferred (hc : Course S now sc w w') {job : PublicKey × Deferred} (hjob : job ∈ w'.engine.deferred) :
    job ∈ w.engine.deferred ∨ sc.peers job.1 := by
  obtain ⟨v, hs, hc⟩ := hc
  rw [hc.same.1] at hjob
  clear hc
  induction hs with
  | refl => exact Or.inl hjob
  | tail _ hs ih => exact (hs.deferred hjob).elim ih Or.inr

/-- What every step keeps, every run of steps keeps. -/
theorem Steps.keeps {P : Endpoint → Prop} (hs : Steps S now sc w w')
    (hw : w.engine.sessions.Sound)
    (hstep : ∀ v v', v.engine.sessions.Sound → Step S now sc v v' → P v → P v')
    (hp : P w) : P w' := by
  have hboth : w'.engine.sessions.Sound ∧ P w' := by
    induction hs with
    | refl => exact ⟨hw, hp⟩
    | tail _ hs ih => exact ⟨hs.sound ih.1, hstep _ _ ih.1 hs ih.2⟩
  exact hboth.2

theorem Steps.bounds (hs : Steps S now sc w w') (hw : w.engine.sessions.Sound) :
    w'.engine.sessions.bounds = w.engine.sessions.bounds :=
  hs.keeps (P := fun v => v.engine.sessions.bounds = w.engine.sessions.bounds) hw
    (fun _ _ hv hstep hb => (hstep.bounds hv).trans hb) rfl

theorem Course.bounds (hc : Course S now sc w w') (hw : w.engine.sessions.Sound) :
    w'.engine.sessions.bounds = w.engine.sessions.bounds := by
  obtain ⟨v, hs, hc⟩ := hc
  rw [hc.sessions]
  exact hs.bounds hw

/-- **What fresh sessions have and turns keep, every session has after steps.** -/
theorem Steps.sessions {Q : PublicKey → Session → Prop} (hs : Steps S now sc w w') (hw : w.engine.sessions.Sound)
    (hfresh : ∀ p s, w.engine.freshSession S p = .ok s → Q p s)
    (hmoves : ∀ p t t', Turn.Moves (w.engine.context S now p) sc.heard t t' → Q p t.session → Q p t'.session)
    (h : ∀ p s, w.engine.held p = some s → Q p s) : ∀ p s, w'.engine.held p = some s → Q p s := by
  have hkeeps := hs.keeps (P := fun v => v.engine.identity = w.engine.identity ∧
    v.engine.config = w.engine.config ∧ ∀ p s, v.engine.held p = some s → Q p s) hw ?_ ⟨rfl, rfl, h⟩
  · exact hkeeps.2.2
  rintro v v' hv hstep ⟨hidentity, hconfig, hold⟩
  refine ⟨hstep.identity.trans hidentity, hstep.config.trans hconfig, ?_⟩
  intro p s hp
  cases hstep with
  | settle c events hc hb hf =>
    have hfate := hf p
    rw [show (c.stored p).map (·.value) = some s from hp] at hfate
    rcases hfate.origin with hheld | ⟨-, hs⟩
    · exact hold p s hheld
    · rw [freshSession_congr hidentity hconfig] at hs
      exact hfresh p s hs
  | lapse c q i hc hb hi hstored hl =>
    have hp' : (c.stored p).map (·.value) = some s := hp
    rw [hstored p] at hp'
    split at hp'
    · cases hp'
    · exact hold p s hp'
  | turn q s' t hpeer hq hm =>
    have hp' : (v.engine.absorb q t).held p = some s := hp
    rw [held_absorb hv hq] at hp'
    split at hp'
    · rename_i hpq
      subst hpq
      cases hp'
      rw [context_congr hidentity hconfig] at hm
      exact hmoves p _ _ hm (hold p s' hq)
    · exact hold p s hp'
  | queue deferred outbox hd ho => exact hold p s hp
  | handOut => exact hold p s hp

theorem Course.sessions {Q : PublicKey → Session → Prop} (hc : Course S now sc w w') (hw : w.engine.sessions.Sound)
    (hfresh : ∀ p s, w.engine.freshSession S p = .ok s → Q p s)
    (hmoves : ∀ p t t', Turn.Moves (w.engine.context S now p) sc.heard t t' → Q p t.session → Q p t'.session)
    (h : ∀ p s, w.engine.held p = some s → Q p s) : ∀ p s, w'.engine.held p = some s → Q p s := by
  obtain ⟨v, hs, hclose⟩ := hc
  intro p s hp
  rw [held, hclose.sessions] at hp
  exact hs.sessions hw hfresh hmoves h p s hp

/-! ### Finding a session -/

theorem settle_touch {c : Cache PublicKey Session} (hc : c.Sound)
    (hb : c.bounds = w.engine.sessions.bounds)
    (hs : ∀ q, (c.stored q).map (·.value) = w.engine.held q) :
    Step S now sc w (w.withEngine (w.engine.withSessions c)) := by
  have hstep : Step S now sc w _ := .settle w c [] hc hb fun q => by
    rw [hs q]
    exact .keep _
  have hevents : w.engine.events ++ [] = w.engine.events := List.append_nil _
  rw [announce] at hstep
  simp only [hevents] at hstep
  exact hstep

theorem held_get (hw : w.engine.sessions.Sound) (p q : PublicKey) (now : Nat) :
    (((w.engine.sessions.get p now).2).stored q).map (·.value) =
      if q = p then w.engine.sessions.peek p now else w.engine.held q := by
  rw [Cache.stored_get hw, Cache.peek_stored hw]
  by_cases hq : q = p
  · rw [if_pos hq, if_pos hq]
    cases w.engine.sessions.stored p with
    | none => rfl
    | some i =>
      rw [Option.bind_some, Option.bind_some]
      split
      · rfl
      · exact congrArg some (Recency.used_value _ i now)
  · rw [if_neg hq, if_neg hq]
    rfl

/-- Looking a session up touches it, or drops it without a word if it has expired. -/
theorem steps_get (hw : w.engine.sessions.Sound) (p : PublicKey)
    (hl : ∀ i, w.engine.sessions.stored p = some i → w.engine.sessions.overdue i now →
      i.value.state = .forwardSecrecy → sc.lapses p) :
    Step S now sc w
      (w.withEngine (w.engine.withSessions (w.engine.sessions.get p now).2)) := by
  have hc := hw.get p now
  have hb := Cache.bounds_get hw p now
  have hpeek := Cache.peek_stored hw p now
  cases hi : w.engine.sessions.stored p with
  | none =>
    rw [hi, Option.bind_none] at hpeek
    refine settle_touch hc hb ?_
    intro q
    rw [held_get hw, hpeek]
    split
    · rename_i hq
      rw [hq, held, hi]
      rfl
    · rfl
  | some i =>
    rw [hi, Option.bind_some] at hpeek
    cases ho : w.engine.sessions.overdue i now with
    | true =>
      refine .lapse w _ p i hc hb hi ?_ (hl i hi ho)
      intro q
      rw [held_get hw, hpeek, ho, if_pos rfl]
    | false =>
      refine settle_touch hc hb ?_
      intro q
      rw [held_get hw, hpeek, ho]
      split
      · rename_i hq
        rw [hq, held, hi]
        rfl
      · rfl

/-! ### Starting a session -/

theorem events_about_drop (q : PublicKey) (o : Option (PublicKey × Session)) :
    ((o.map fun (p, s) => dropped p s).getD []).filter (fun v => v.peer = some q) =
      ((o.filter fun g => g.1 = q).map fun (p, s) => dropped p s).getD [] := by
  cases o with
  | none => rfl
  | some g =>
    rw [Option.map_some, Option.getD_some, filter_dropped, Option.filter_some]
    by_cases hq : g.1 = q <;> simp [hq]

theorem step_remove (hw : w.engine.sessions.Sound) (p : PublicKey) :
    Step S now sc w
      (w.withEngine ((w.engine.withSessions (w.engine.sessions.remove p).2).announce
        (((w.engine.sessions.remove p).1.map (dropped p)).getD []))) := by
  refine .settle w _ _ (hw.remove p) (Cache.bounds_remove hw p) ?_
  intro q
  rw [Cache.stored_remove hw, Cache.remove_fst hw]
  have hheld : (w.engine.sessions.stored p).map (·.value) = w.engine.held p := rfl
  rw [hheld]
  by_cases hq : q = p
  · subst hq
    rw [if_pos rfl]
    cases hs : w.engine.held q with
    | none => exact .keep none
    | some s =>
      rw [Option.map_some, Option.getD_some, filter_dropped, if_pos rfl]
      exact .drop s
  · rw [if_neg hq]
    have hnone : (((w.engine.held p).map (dropped p)).getD []).filter (fun v => v.peer = some q) = [] := by
      cases w.engine.held p with
      | none => rfl
      | some s => rw [Option.map_some, Option.getD_some, filter_dropped, if_neg (Ne.symm hq)]
    rw [hnone]
    exact .keep _

/-- Starting a session may drop another one, with the events due. -/
theorem step_insert {s : Session} (hw : w.engine.sessions.Sound) (hpeer : sc.peers p)
    (hp : w.engine.held p = none) (hs : w.engine.freshSession S p = .ok s) :
    Step S now sc w
      (w.withEngine ((w.engine.withSessions (w.engine.sessions.insert p s now).cache).announce
        (((w.engine.sessions.insert p s now).evicted.map fun (p, s) => dropped p s).getD []))) := by
  refine .settle w _ _ (hw.insert p s now) (Cache.bounds_insert hw p s now) ?_
  intro q
  rw [events_about_drop]
  rcases Cache.stored_insert hw p s now with ⟨he, hx⟩ | ⟨i, he, hi, hik, hx⟩
  · rw [he, hx]
    by_cases hq : q = p
    · subst hq
      rw [if_pos rfl, hp]
      exact .start s hpeer hs
    · rw [if_neg hq]
      exact .keep _
  · rw [he, hx, Option.filter_some]
    by_cases hq : q = p
    · subst hq
      rw [if_pos rfl, hp, if_neg (by simpa using hik)]
      exact .start s hpeer hs
    · rw [if_neg hq]
      by_cases hqi : q = i.key
      · subst hqi
        have hheld : w.engine.held i.key = some i.value := by rw [held, hi]; rfl
        rw [if_pos rfl, if_pos (by simp), hheld]
        exact .drop i.value
      · rw [if_neg hqi, if_neg (by simpa using Ne.symm hqi)]
        exact .keep _

theorem steps_ensureSession (hw : w.engine.sessions.Sound) (hpeer : sc.peers peer) :
    Steps S now sc w (w.withEngine (w.engine.ensureSession S now peer).2) := by
  by_cases hc : w.engine.sessions.contains peer now = true
  · rw [ensureSession, if_pos hc]
  · have hremove : Step S now sc w (w.withEngine (w.engine.vacate peer)) := step_remove hw peer
    have hnone : (w.engine.vacate peer).held peer = none :=
      congrArg (Option.map _) ((Cache.stored_remove hw peer peer).trans (if_pos rfl))
    rw [ensureSession_absent hc]
    cases hf : w.engine.freshSession S peer with
    | error err => exact hremove.steps
    | ok s =>
      exact hremove.steps.tail (step_insert (w := w.withEngine (w.engine.vacate peer)) (hremove.sound hw) hpeer hnone hf)

theorem ensureSession_ok (S : Suite) (now : Nat) (peer : PublicKey) (hw : w.engine.sessions.Sound)
    (hok : (w.engine.ensureSession S now peer).1 = .ok ()) :
    (w.engine.sessions.contains peer now ∧ (w.engine.ensureSession S now peer).2 = w.engine) ∨
      ∃ s, w.engine.freshSession S peer = .ok s ∧
        (w.engine.ensureSession S now peer).2.sessions.stored peer = some ⟨peer, s, now⟩ := by
  by_cases hc : w.engine.sessions.contains peer now = true
  · rw [ensureSession, if_pos hc]
    exact Or.inl ⟨hc, rfl⟩
  · rw [ensureSession_absent hc] at hok ⊢
    cases hf : w.engine.freshSession S peer with
    | error err =>
      rw [hf] at hok
      cases hok
    | ok s => exact Or.inr ⟨s, rfl, Cache.stored_insert_self (hw.remove peer) peer s now⟩

theorem sound_ensureSession (S : Suite) (now : Nat) (peer : PublicKey) (hw : w.engine.sessions.Sound) :
    (w.engine.ensureSession S now peer).2.sessions.Sound := by
  have hsteps : Steps S now ⟨.silence, (· = peer), fun _ => True⟩ w _ := steps_ensureSession hw rfl
  exact hsteps.sound hw

theorem ttl_ensureSession (S : Suite) (now : Nat) (peer : PublicKey) (hw : w.engine.sessions.Sound) :
    (w.engine.ensureSession S now peer).2.sessions.ttl = w.engine.sessions.ttl := by
  have hsteps : Steps S now ⟨.silence, (· = peer), fun _ => True⟩ w _ := steps_ensureSession hw rfl
  exact congrArg (·.2.1) (hsteps.bounds hw)

theorem resolve_unensured {e : Engine} {err : ArmError} (h : (e.ensureSession S now peer).1 = .error err) :
    e.resolve S now peer = (.error err, (e.ensureSession S now peer).2) := by
  unfold resolve
  cases he : e.ensureSession S now peer with
  | mk result e' =>
    rw [he] at h
    cases h
    rfl

theorem resolve_ensured (hw : w.engine.sessions.Sound) (h : (w.engine.ensureSession S now peer).1 = .ok ()) :
    w.engine.resolve S now peer =
      (((w.engine.ensureSession S now peer).2.session peer now).elim (.error (.invalidArgument (.noSession peer))) .ok,
        (w.engine.ensureSession S now peer).2.withSessions
          ((w.engine.ensureSession S now peer).2.sessions.get peer now).2) := by
  have hsound := sound_ensureSession S now peer hw
  unfold resolve
  cases he : w.engine.ensureSession S now peer with
  | mk result e =>
    rw [he] at h hsound
    cases h
    have hget : (e.sessions.get peer now).1 = e.session peer now := Cache.get_fst hsound peer now
    simp only
    rw [← hget]
    cases e.sessions.get peer now with
    | mk found sessions => cases found <;> rfl

theorem steps_resolve (S : Suite) (now : Nat) (hw : w.engine.sessions.Sound) (hpeer : sc.peers peer) :
    Steps S now sc w (w.withEngine (w.engine.resolve S now peer).2) ∧
      ∀ s, (w.engine.resolve S now peer).1 = .ok s →
        (w.engine.resolve S now peer).2.held peer = some s := by
  have hensure : Steps S now sc w _ := steps_ensureSession hw hpeer
  cases hresult : (w.engine.ensureSession S now peer).1 with
  | error err =>
    rw [resolve_unensured hresult]
    exact ⟨hensure, fun s hs => by cases hs⟩
  | ok u =>
    have hok := ensureSession_ok S now peer hw hresult
    rw [resolve_ensured hw hresult]
    generalize (w.engine.ensureSession S now peer).2 = e at hensure hok
    have hsound : e.sessions.Sound := hensure.sound hw
    have hget : Step S now sc (w.withEngine e) (w.withEngine (e.withSessions (e.sessions.get peer now).2)) := by
      apply steps_get (w := w.withEngine e) hsound peer
      intro i hi ho hp
      rcases hok with ⟨hc, rfl⟩ | ⟨s, hs, hstored⟩
      · -- A session that was there had not expired.
        rw [Cache.contains_stored hsound, hi, Option.any_some, ho] at hc
        cases hc
      · rw [hi, Option.some.injEq] at hstored
        rw [hstored, state_freshSession hs] at hp
        cases hp
    refine ⟨hensure.tail hget, fun s hs => ?_⟩
    have hheld : (e.withSessions (e.sessions.get peer now).2).held peer = e.session peer now :=
      (held_get (w := w.withEngine e) hsound peer peer now).trans (if_pos rfl)
    rw [hheld]
    cases hlive : e.session peer now with
    | none =>
      rw [hlive] at hs
      cases hs
    | some s' =>
      rw [hlive] at hs
      cases hs
      rfl

/-! ### Operations of the engine -/

/-- Work on the session with a peer comes after the steps that find the session. -/
theorem converse_spec {α : Type} (S : Suite) (now : Nat) (work : Context → Turn → Except ArmError α × Turn)
    (hw : w.engine.sessions.Sound) (hpeer : sc.peers peer) :
    (∃ e err, Steps S now sc w (w.withEngine e) ∧
      w.engine.converse S now peer work w.entropy = (.error err, e, w.entropy)) ∨
    ∃ e s t result, Steps S now sc w (w.withEngine e) ∧ e.held peer = some s ∧
      work (w.engine.context S now peer) { session := s, entropy := w.entropy } = (result, t) ∧
      w.engine.converse S now peer work w.entropy = (result, e.absorb peer t, t.entropy) := by
  obtain ⟨hresolve, hheld⟩ := steps_resolve S now hw hpeer
  cases hr : (w.engine.resolve S now peer).1 with
  | error err => exact Or.inl ⟨_, err, hresolve, converse_error hr work w.entropy⟩
  | ok s => exact Or.inr ⟨_, s, _, _, hresolve, hheld s hr, rfl, converse_ok hr work w.entropy⟩

theorem steps_converse {α : Type} {work : Context → Turn → Except ArmError α × Turn}
    (hw : w.engine.sessions.Sound) (hpeer : sc.peers peer)
    (hwork : ∀ t, Turn.Moves (w.engine.context S now peer) sc.heard t
      (work (w.engine.context S now peer) t).2) :
    Steps S now sc w (w.after (w.engine.converse S now peer work w.entropy).2) := by
  rcases converse_spec S now work hw hpeer with
    ⟨e, err, hs, hr⟩ | ⟨e, s, t, result, hs, hp, ht, hr⟩
  · rw [hr]
    exact hs
  · have hmoves := hwork { session := s, entropy := w.entropy }
    rw [ht] at hmoves
    rw [hr]
    exact hs.tail (.turn (w.withEngine e) peer s t hpeer hp (hs.context peer ▸ hmoves))

theorem course_converse {α : Type} {work : Context → Turn → Except ArmError α × Turn}
    (hw : w.engine.sessions.Sound) (hpeer : sc.peers peer)
    (hwork : ∀ t, Turn.Course (w.engine.context S now peer) sc.heard t
      (work (w.engine.context S now peer) t).2) :
    Course S now sc w (w.after (w.engine.converse S now peer work w.entropy).2) := by
  rcases converse_spec S now work hw hpeer with
    ⟨e, err, hs, hr⟩ | ⟨e, s, t, result, hs, hp, ht, hr⟩
  · rw [hr]
    exact Steps.course hs
  · obtain ⟨t₁, hmoves, hclose⟩ := hwork { session := s, entropy := w.entropy }
    rw [ht] at hclose
    have hcontext : e.context S now peer = w.engine.context S now peer := hs.context peer
    have hsteps := hs.tail (.turn (w.withEngine e) peer s t₁ hpeer hp (hcontext ▸ hmoves))
    rw [hr]
    cases hclose with
    | quiet => exact Steps.course hsteps
    | ack id m hi hm =>
      refine ⟨_, hsteps, ?_⟩
      have hheld : (e.absorb peer t₁).held peer = some t₁.session := by
        rw [held_absorb (hs.sound hw) hp, if_pos rfl]
      have hlast : Closes S now sc (w.after (e.absorb peer t₁, t₁.entropy)) _ :=
        .ack _ peer t₁.session id m hpeer hheld hi (hcontext ▸ hm)
      have hpost : e.absorb peer (t₁.post m) =
          { e.absorb peer t₁ with outbox := (e.absorb peer t₁).outbox ++ [⟨peer, m⟩] } := by
        simp [absorb, Turn.post]
      show Closes S now sc (w.after (e.absorb peer t₁, t₁.entropy))
        (w.after (e.absorb peer (t₁.post m), t₁.entropy))
      rw [hpost]
      exact hlast

/-- A session protected by a short-lived agreement that a check for renewal finds expired. -/
def Lapses (w : Endpoint) (now : Nat) (p : PublicKey) : Prop :=
  w.engine.config.forwardSecrecy = true ∧ ∃ i, w.engine.sessions.stored p = some i ∧
    w.engine.sessions.overdue i now = true ∧ i.value.state = .forwardSecrecy

theorem steps_checkForRenew (hw : w.engine.sessions.Sound) (hpeer : sc.peers peer)
    (hl : w.Lapses now peer → sc.lapses peer) :
    Steps S now sc w (w.after (w.engine.checkForRenew S now peer w.entropy).2) := by
  unfold checkForRenew
  by_cases hfs : w.engine.config.forwardSecrecy = true
  · have hget : Step S now sc w _ := steps_get hw peer fun i hi ho hs => hl ⟨hfs, i, hi, ho, hs⟩
    have hheld := held_get hw peer peer now
    have hfst := Cache.get_fst hw peer now
    rw [if_pos hfs]
    cases hr : w.engine.sessions.get peer now with
    | mk found sessions =>
      rw [hr] at hget hheld hfst
      rw [if_pos rfl] at hheld
      cases found with
      | none => exact hget.steps
      | some s =>
        refine hget.steps.tail
          (.turn (w.withEngine (w.engine.withSessions sessions)) peer s _ hpeer ?_ ?_)
        · exact hheld.trans hfst.symm
        · exact Turn.moves_checkForRenew _ _ _
  · rw [if_neg hfs]
    exact .refl

theorem steps_doKeyExchange (hw : w.engine.sessions.Sound) (hpeer : sc.peers peer) :
    Steps S now sc w (w.after (w.engine.doKeyExchange S now peer w.entropy).2) := by
  unfold doKeyExchange
  split
  · exact steps_converse hw hpeer fun t => Turn.moves_doKeyExchange _ _ t
  · exact .refl

theorem step_evictIdleSessions (hw : w.engine.sessions.Sound) :
    Step S now sc w (w.withEngine (w.engine.evictIdleSessions now).2) := by
  refine .settle w (w.engine.sessions.takeExpired now).2
    ((w.engine.sessions.takeExpired now).1.flatMap fun (p, s) => dropped p s)
    (hw.takeExpired now) (Cache.bounds_takeExpired hw now) ?_
  intro q
  rw [filter_flatMap_dropped, Cache.filter_takeExpired hw, Cache.stored_takeExpired hw, held]
  cases hi : w.engine.sessions.stored q with
  | none => exact .keep none
  | some i =>
    have hk := Cache.key_of_stored hi
    cases ho : w.engine.sessions.overdue i now with
    | true =>
      simp only [Option.filter_some, ho, if_true, Option.map_some, Option.toList_some,
        List.flatMap_singleton, Bool.not_true, Bool.false_eq_true, if_false, Option.map_none, hk]
      exact .drop i.value
    | false =>
      simp only [Option.filter_some, ho, Bool.false_eq_true, if_false, Option.map_none,
        Option.toList_none, List.flatMap_nil, Bool.not_false, if_true]
      exact .keep _

end Endpoint

end Overlay
