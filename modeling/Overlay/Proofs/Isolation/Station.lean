import Mathlib.Logic.Function.Basic
import Overlay.Proofs.Isolation.Operation

/-!
# Many peers at one engine

A `Station` is an engine at work for many peers.  Every turn of a peer, be it an operation about it or a job, is handed
randomness of its own, and the station keeps what was returned to each peer's operations, what was sent and what the
application was told.

What a station knows of a peer (`Station.record`) is the share of that peer in the engine, and what was kept about it.  A
turn of a peer depends on that peer's record alone (`record_turn`) and leaves any other as it was (`record_turn_other`).
Jobs done one after the other are turns, so those of other peers may as well be left out (`record_work`); and so may the
operations about other peers in a run (`record_run`).  No session may have to leave for want of room (`Station.Roomy`),
which is sure where there is no bound (`roomy_unbounded`), or only one peer (`Engine.Solo.room`).

`isolated`: peers notice nothing of each other.
-/

namespace Overlay

/-! ### An engine with one peer -/

namespace Engine

variable {S : Suite} {now : Nat} {p : PublicKey} {e e' : Engine}

/-- Nothing is kept about any other peer, up to messages and events. -/
def Solo (p : PublicKey) (e : Engine) : Prop :=
  ∀ q, q ≠ p → (e.share q).item = none ∧ (e.share q).jobs = []

theorem Solo.job (h : e.Solo p) {job : PublicKey × Deferred} (hjob : job ∈ e.deferred) : job.1 = p := by
  by_contra hne
  have hnone : e.deferred.filter (fun j => j.1 = job.1) = [] := (h job.1 hne).2
  exact List.filter_eq_nil_iff.1 hnone job hjob (decide_eq_true rfl)

theorem Solo.room (h : e.Solo p) (he : e.sessions.Sound) : e.Room p := by
  have hempty : (e.sessions.remove p).2.size = 0 := by
    apply Cache.size_of_stored_none (he.remove p)
    intro q
    rw [Cache.stored_remove he]
    split
    · rfl
    · rename_i hq
      exact (h q hq).1
  unfold Room
  omega

theorem Solo.of_share (h : e.Solo p) (hsame : ∀ q, q ≠ p → e'.share q = e.share q) : e'.Solo p := by
  intro q hq
  rw [hsame q hq]
  exact h q hq

theorem Solo.cleared (h : e.Solo p) : ({ e with deferred := [] } : Engine).Solo p := fun q hq => ⟨(h q hq).1, rfl⟩

theorem Solo.evictIdleSessions (h : e.Solo p) (he : e.sessions.Sound) (now : Nat) :
    (e.evictIdleSessions now).2.Solo p := by
  intro q hq
  refine ⟨?_, (h q hq).2⟩
  show (e.sessions.takeExpired now).2.stored q = none
  rw [Cache.stored_takeExpired he, show e.sessions.stored q = none from (h q hq).1]
  rfl

end Engine

/-! ### Stations -/

/-- An engine at work for many peers. -/
structure Station where
  engine : Engine
  /-- How many turns each peer has had. -/
  turns : PublicKey → Nat
  /-- What the operations about each peer have returned. -/
  replies : List (PublicKey × Option Reply)
  /-- The messages that were taken from the outbox. -/
  sent : List Outgoing
  /-- The events that were taken from the engine. -/
  told : List Event

namespace Station

open Engine

variable (S : Suite) (handed : PublicKey → Nat → Entropy)

def start (identity : KeyPair) (config : ArmConfig) : Station := ⟨.start identity config, fun _ => 0, [], [], []⟩

def endpoint (w : Station) (q : PublicKey) : Endpoint := { engine := w.engine, entropy := handed q (w.turns q) }

def turn (now : Nat) (q : PublicKey) (op : Operation) (w : Station) : Station :=
  { w with
    engine := (op.perform S now (w.endpoint handed q)).engine
    turns := Function.update w.turns q (w.turns q + 1) }

def work (now : Nat) (w : Station) (jobs : List (PublicKey × Deferred)) : Station :=
  jobs.foldl (fun w job => w.turn S handed now job.1 (job.2.operation job.1)) w

def cleared (w : Station) : Station := { w with engine := { w.engine with deferred := [] } }

def answer (q : PublicKey) (reply : Option Reply) (w : Station) : Station :=
  { w with replies := w.replies ++ [(q, reply)] }

def act (now : Nat) (w : Station) (op : Operation) : Station :=
  match op.peer? with
  | some q => (w.turn S handed now q op).answer q (op.reply S now (w.endpoint handed q))
  | none =>
    match op with
    | .runDeferred => w.cleared.work S handed now w.engine.deferred
    | .evictIdleSessions => { w with engine := (w.engine.evictIdleSessions now).2 }
    | .drainOutbox => { w with engine := w.engine.drainOutbox.2, sent := w.sent ++ w.engine.drainOutbox.1 }
    | .drainEvents => { w with engine := w.engine.drainEvents.2, told := w.told ++ w.engine.drainEvents.1 }
    -- all others are about a peer
    | _ => w

def run (w : Station) (ops : List (Nat × Operation)) : Station := ops.foldl (fun w o => w.act S handed o.1 o.2) w

/-! ### Room -/

def RoomForJobs (now : Nat) (w : Station) : List (PublicKey × Deferred) → Prop
  | [] => True
  | job :: jobs => w.engine.Room job.1 ∧ (w.turn S handed now job.1 (job.2.operation job.1)).RoomForJobs now jobs

/-- There is room for the session of the peer that an operation is about, or of the peers of the jobs that it does. -/
def RoomFor (now : Nat) (w : Station) (op : Operation) : Prop :=
  (∀ q ∈ op.peer?, w.engine.Room q) ∧
    (op = .runDeferred → w.cleared.RoomForJobs S handed now w.engine.deferred)

/-- No session has to leave for want of room in a run. -/
def Roomy (w : Station) : List (Nat × Operation) → Prop
  | [] => True
  | (now, op) :: ops => w.RoomFor S handed now op ∧ (w.act S handed now op).Roomy ops

instance decidableRoomForJobs (now : Nat) :
    (jobs : List (PublicKey × Deferred)) → (w : Station) → Decidable (w.RoomForJobs S handed now jobs)
  | [], _ => .isTrue trivial
  | job :: jobs, w =>
    @instDecidableAnd _ _ inferInstance
      (decidableRoomForJobs now jobs (w.turn S handed now job.1 (job.2.operation job.1)))

instance (now : Nat) (w : Station) (op : Operation) : Decidable (w.RoomFor S handed now op) :=
  inferInstanceAs (Decidable (_ ∧ _))

instance decidableRoomy : (ops : List (Nat × Operation)) → (w : Station) → Decidable (w.Roomy S handed ops)
  | [], _ => .isTrue trivial
  | (now, op) :: ops, w => @instDecidableAnd _ _ inferInstance (decidableRoomy ops (w.act S handed now op))

variable {S : Suite} {handed : PublicKey → Nat → Entropy} {now : Nat} {p q : PublicKey} {op : Operation}
  {w v : Station} {ops : List (Nat × Operation)} {jobs : List (PublicKey × Deferred)}

theorem act_peer (hpeer : op.peer? = some q) :
    w.act S handed now op = (w.turn S handed now q op).answer q (op.reply S now (w.endpoint handed q)) := by
  cases op <;> cases hpeer <;> rfl

/-! ### The cache of a station -/

theorem sound_turn (hw : w.engine.sessions.Sound) (q : PublicKey) (op : Operation) :
    (w.turn S handed now q op).engine.sessions.Sound :=
  (op.course S now (w := w.endpoint handed q) hw).sound hw

theorem bounds_turn (hw : w.engine.sessions.Sound) (q : PublicKey) (op : Operation) :
    (w.turn S handed now q op).engine.sessions.bounds = w.engine.sessions.bounds :=
  (op.course S now (w := w.endpoint handed q) hw).bounds hw

theorem sound_work (hw : w.engine.sessions.Sound) (jobs : List (PublicKey × Deferred)) :
    (w.work S handed now jobs).engine.sessions.Sound :=
  List.foldlRecOn (motive := fun v : Station => v.engine.sessions.Sound) jobs _ hw fun _ hv job _ =>
    sound_turn hv job.1 (job.2.operation job.1)

theorem bounds_work (hw : w.engine.sessions.Sound) (jobs : List (PublicKey × Deferred)) :
    (w.work S handed now jobs).engine.sessions.bounds = w.engine.sessions.bounds := by
  induction jobs generalizing w with
  | nil => rfl
  | cons job jobs ih => exact (ih (sound_turn hw _ _)).trans (bounds_turn hw _ _)

theorem sound_act (hw : w.engine.sessions.Sound) (op : Operation) : (w.act S handed now op).engine.sessions.Sound := by
  cases hpeer : op.peer? with
  | some q =>
    rw [act_peer hpeer]
    exact sound_turn hw q op
  | none =>
    cases op with
    | runDeferred => exact sound_work (w := w.cleared) hw w.engine.deferred
    | evictIdleSessions => exact hw.takeExpired now
    | drainOutbox => exact hw
    | drainEvents => exact hw
    | _ => cases hpeer

theorem bounds_act (hw : w.engine.sessions.Sound) (op : Operation) :
    (w.act S handed now op).engine.sessions.bounds = w.engine.sessions.bounds := by
  cases hpeer : op.peer? with
  | some q =>
    rw [act_peer hpeer]
    exact bounds_turn hw q op
  | none =>
    cases op with
    | runDeferred => exact bounds_work (w := w.cleared) hw w.engine.deferred
    | evictIdleSessions => exact Cache.bounds_takeExpired hw now
    | drainOutbox => rfl
    | drainEvents => rfl
    | _ => cases hpeer

theorem sound_run (hw : w.engine.sessions.Sound) (ops : List (Nat × Operation)) :
    (w.run S handed ops).engine.sessions.Sound :=
  List.foldlRecOn (motive := fun v : Station => v.engine.sessions.Sound) ops _ hw fun _ hv o _ => sound_act hv o.2

theorem roomForJobs_unbounded (hw : w.engine.sessions.Sound) (hmax : w.engine.sessions.maxSize = 0)
    (jobs : List (PublicKey × Deferred)) : w.RoomForJobs S handed now jobs := by
  induction jobs generalizing w with
  | nil => trivial
  | cons job jobs ih =>
    exact ⟨Or.inl hmax, ih (sound_turn hw _ _) ((Cache.maxSize_of_bounds (bounds_turn hw _ _)).trans hmax)⟩

theorem roomy_unbounded (hw : w.engine.sessions.Sound) (hmax : w.engine.sessions.maxSize = 0)
    (ops : List (Nat × Operation)) : w.Roomy S handed ops := by
  induction ops generalizing w with
  | nil => trivial
  | cons o ops ih =>
    refine ⟨⟨fun q _ => Or.inl hmax, fun _ => roomForJobs_unbounded (w := w.cleared) hw hmax _⟩, ?_⟩
    exact ih (sound_act hw o.2) ((Cache.maxSize_of_bounds (bounds_act hw o.2)).trans hmax)

/-! ### Records -/

/-- What a station knows of a peer. -/
@[ext]
structure Record where
  share : Share
  turns : Nat
  replies : List (PublicKey × Option Reply)
  sent : List Outgoing
  told : List Event

def record (p : PublicKey) (w : Station) : Record where
  share := w.engine.share p
  turns := w.turns p
  replies := w.replies.filter fun r => r.1 = p
  sent := w.sent.filter fun m => m.peer = p
  told := w.told.filter fun v => v.peer = some p

theorem record_answer (p q : PublicKey) (reply : Option Reply) (w : Station) :
    (w.answer q reply).record p =
      { w.record p with replies := (w.record p).replies ++ [(q, reply)].filter fun r => r.1 = p } := by
  simp only [record, answer, List.filter_append]

theorem record_cleared (p : PublicKey) (w : Station) :
    w.cleared.record p = { w.record p with share := { (w.record p).share with jobs := [] } } := rfl

theorem record_drainOutbox (p : PublicKey) (w : Station) :
    (w.act S handed now .drainOutbox).record p = { w.record p with
      share := { (w.record p).share with outbox := [] }
      sent := (w.record p).sent ++ (w.record p).share.outbox } := by
  simp [record, share, act, Operation.peer?, drainOutbox]

theorem record_drainEvents (p : PublicKey) (w : Station) :
    (w.act S handed now .drainEvents).record p = { w.record p with
      share := { (w.record p).share with events := [] }
      told := (w.record p).told ++ (w.record p).share.events } := by
  simp [record, share, act, Operation.peer?, drainEvents]

/-- **A turn of a peer depends on the record of that peer alone**, in its reply as well. -/
theorem record_turn (S : Suite) (handed : PublicKey → Nat → Entropy) (now : Nat) (hw : w.engine.sessions.Sound)
    (hv : v.engine.sessions.Sound) (hroom : w.engine.Room p) (hroom' : v.engine.Room p) (hpeer : op.peer? = some p)
    (h : w.record p = v.record p) :
    op.reply S now (w.endpoint handed p) = op.reply S now (v.endpoint handed p) ∧
      (w.turn S handed now p op).record p = (v.turn S handed now p op).record p := by
  have hturns : w.turns p = v.turns p := congrArg Record.turns h
  obtain ⟨hreply, hshare⟩ := Operation.share_perform (show (w.endpoint handed p).engine.sessions.Sound from hw)
    (show (v.endpoint handed p).engine.sessions.Sound from hv) hroom hroom' hpeer (congrArg (handed p) hturns)
    (congrArg Record.share h) S now
  have hreplies := congrArg Record.replies h
  have hsent := congrArg Record.sent h
  have htold := congrArg Record.told h
  refine ⟨hreply, Record.ext hshare ?_ hreplies hsent htold⟩
  show Function.update w.turns p (w.turns p + 1) p = Function.update v.turns p (v.turns p + 1) p
  rw [Function.update_self, Function.update_self, hturns]

/-- **A turn of a peer leaves the record of any other as it was.** -/
theorem record_turn_other (S : Suite) (handed : PublicKey → Nat → Entropy) (now : Nat) (hw : w.engine.sessions.Sound)
    (hroom : w.engine.Room q) (hpeer : op.peer? = some q) (hq : p ≠ q) :
    (w.turn S handed now q op).record p = w.record p := by
  have hshare := Operation.share_perform_other (w := w.endpoint handed q) hw hroom hpeer hq S now
  simp only [record, turn, hshare, Function.update_of_ne hq]
  rfl

theorem solo_turn (hv : v.engine.sessions.Sound) (hsolo : v.engine.Solo p) (hpeer : op.peer? = some p) :
    (v.turn S handed now p op).engine.Solo p :=
  hsolo.of_share fun _ hq =>
    Operation.share_perform_other (w := v.endpoint handed p) hv (hsolo.room hv) hpeer hq S now

/-! ### Jobs -/

/-- **Jobs of other peers may as well be left out.** -/
theorem record_work (hw : w.engine.sessions.Sound) (hv : v.engine.sessions.Sound)
    (hroom : w.RoomForJobs S handed now jobs) (hsolo : v.engine.Solo p) (h : w.record p = v.record p) :
    (w.work S handed now jobs).record p =
      (v.work S handed now (jobs.filter fun job => job.1 = p)).record p := by
  induction jobs generalizing w v with
  | nil => exact h
  | cons job jobs ih =>
    obtain ⟨q, work⟩ := job
    obtain ⟨hhere, hlater⟩ := hroom
    have hpeer := Operation.peer?_job q work
    by_cases hq : q = p
    · subst hq
      have hnext := (record_turn S handed now hw hv hhere (hsolo.room hv) hpeer h).2
      rw [List.filter_cons_of_pos (by simp)]
      exact ih (sound_turn hw _ _) (sound_turn hv _ _) hlater (solo_turn hv hsolo hpeer) hnext
    · have hkept := record_turn_other S handed now hw hhere hpeer (Ne.symm hq)
      rw [List.filter_cons_of_neg (by simpa using hq)]
      exact ih (sound_turn hw _ _) hv hlater hsolo (hkept.trans h)

theorem solo_work (hv : v.engine.sessions.Sound) (hsolo : v.engine.Solo p) (hjobs : ∀ job ∈ jobs, job.1 = p) :
    (v.work S handed now jobs).engine.Solo p := by
  induction jobs generalizing v with
  | nil => exact hsolo
  | cons job jobs ih =>
    obtain ⟨q, work⟩ := job
    obtain ⟨rfl, hrest⟩ := List.forall_mem_cons.1 hjobs
    exact ih (sound_turn hv _ _) (solo_turn hv hsolo (Operation.peer?_job q work)) hrest

/-! ### Operations -/

theorem solo_act (hv : v.engine.sessions.Sound) (hsolo : v.engine.Solo p) (hop : op.Concerns p) :
    (v.act S handed now op).engine.Solo p := by
  cases hpeer : op.peer? with
  | some q =>
    obtain rfl := (Operation.concerns_iff hpeer).1 hop
    rw [act_peer hpeer]
    exact solo_turn hv hsolo hpeer
  | none =>
    cases op with
    | runDeferred => exact solo_work (v := v.cleared) hv hsolo.cleared fun job hjob => hsolo.job hjob
    | evictIdleSessions => exact hsolo.evictIdleSessions hv now
    | drainOutbox => exact hsolo
    | drainEvents => exact hsolo
    | _ => cases hpeer

theorem record_act_other (hw : w.engine.sessions.Sound) (hroom : w.RoomFor S handed now op)
    (hop : ¬ op.Concerns p) : (w.act S handed now op).record p = w.record p := by
  cases hpeer : op.peer? with
  | none => exact absurd (Operation.concerns_of_peer?_none hpeer p) hop
  | some q =>
    have hq : q ≠ p := fun h => hop ((Operation.concerns_iff hpeer).2 h)
    have hturn := record_turn_other S handed now hw (hroom.1 q hpeer) hpeer (Ne.symm hq)
    rw [act_peer hpeer, record_answer, hturn, List.filter_cons_of_neg (by simpa using hq), List.filter_nil,
      List.append_nil]

/-- An operation that concerns a peer depends on the record of that peer alone. -/
theorem record_act (hw : w.engine.sessions.Sound) (hv : v.engine.sessions.Sound)
    (hroom : w.RoomFor S handed now op) (hsolo : v.engine.Solo p) (hop : op.Concerns p)
    (h : w.record p = v.record p) : (w.act S handed now op).record p = (v.act S handed now op).record p := by
  cases hpeer : op.peer? with
  | some q =>
    obtain rfl := (Operation.concerns_iff hpeer).1 hop
    obtain ⟨hreply, hturn⟩ := record_turn S handed now hw hv (hroom.1 q hpeer) (hsolo.room hv) hpeer h
    rw [act_peer hpeer, act_peer hpeer, record_answer, record_answer, hreply, hturn]
  | none =>
    cases op with
    | runDeferred =>
      have hcleared : w.cleared.record p = v.cleared.record p := by rw [record_cleared, record_cleared, h]
      -- the jobs of the peer are all the jobs that there are where the peer is alone
      have hjobs : w.engine.deferred.filter (fun job => job.1 = p) = v.engine.deferred := by
        have hshare : w.engine.deferred.filter (fun job => job.1 = p) = v.engine.deferred.filter fun job => job.1 = p :=
          congrArg (·.share.jobs) h
        rw [hshare, List.filter_eq_self]
        exact fun job hjob => decide_eq_true (hsolo.job hjob)
      have hwork := record_work (w := w.cleared) (v := v.cleared) hw hv (hroom.2 rfl) hsolo.cleared hcleared
      rw [hjobs] at hwork
      exact hwork
    | evictIdleSessions =>
      have hshare := share_evictIdleSessions hw hv (congrArg Record.share h) now
      have hturns := congrArg Record.turns h
      have hreplies := congrArg Record.replies h
      have hsent := congrArg Record.sent h
      have htold := congrArg Record.told h
      exact Record.ext hshare hturns hreplies hsent htold
    | drainOutbox => rw [record_drainOutbox, record_drainOutbox, h]
    | drainEvents => rw [record_drainEvents, record_drainEvents, h]
    | _ => cases hpeer

/-! ### Runs -/

/-- **The operations about other peers in a run may as well be left out.** -/
theorem record_run (hw : w.engine.sessions.Sound) (hv : v.engine.sessions.Sound) (hroom : w.Roomy S handed ops)
    (hsolo : v.engine.Solo p) (h : w.record p = v.record p) :
    (w.run S handed ops).record p = (v.run S handed (ops.filter fun o => o.2.Concerns p)).record p := by
  induction ops generalizing w v with
  | nil => exact h
  | cons o ops ih =>
    obtain ⟨now, op⟩ := o
    obtain ⟨hhere, hlater⟩ := hroom
    by_cases hop : op.Concerns p
    · rw [List.filter_cons_of_pos (by simpa using hop)]
      exact ih (sound_act hw op) (sound_act hv op) hlater (solo_act hv hsolo hop)
        (record_act hw hv hhere hsolo hop h)
    · rw [List.filter_cons_of_neg (by simpa using hop)]
      exact ih (sound_act hw op) hv hlater hsolo ((record_act_other hw hhere hop).trans h)

/-- Two stations look the same to a peer: in what its operations returned, in its session, in the messages to it and in
the events about it. -/
structure SameFor (p : PublicKey) (w v : Station) : Prop where
  replies : w.replies.filter (fun r => r.1 = p) = v.replies.filter fun r => r.1 = p
  session : ∀ now, w.engine.session p now = v.engine.session p now
  messages : (w.sent ++ w.engine.outbox).filter (fun m => m.peer = p) =
    (v.sent ++ v.engine.outbox).filter fun m => m.peer = p
  events : (w.told ++ w.engine.events).filter (fun e => e.peer = some p) =
    (v.told ++ v.engine.events).filter fun e => e.peer = some p

theorem SameFor.of_record (hw : w.engine.sessions.Sound) (hv : v.engine.sessions.Sound)
    (h : w.record p = v.record p) : SameFor p w v where
  replies := congrArg Record.replies h
  session := session_of_share hw hv (congrArg Record.share h)
  messages := by
    have hall := congrArg (fun r => r.sent ++ r.share.outbox) h
    rw [List.filter_append, List.filter_append]
    exact hall
  events := by
    have hall := congrArg (fun r => r.told ++ r.share.events) h
    rw [List.filter_append, List.filter_append]
    exact hall

/-- Of two operations about different peers, one at most concerns a peer, so the order of the two does not matter to
it. -/
theorem filter_concerns_swap {a b : Operation} (ha : a.peer? = some p) (hb : b.peer? = some q) (hne : p ≠ q)
    (before later : List (Nat × Operation)) (now : Nat) (r : PublicKey) :
    (before ++ (now, a) :: (now, b) :: later).filter (fun o => o.2.Concerns r) =
      (before ++ (now, b) :: (now, a) :: later).filter fun o => o.2.Concerns r := by
  have hone : ¬ (a.Concerns r ∧ b.Concerns r) := by
    rw [Operation.concerns_iff ha, Operation.concerns_iff hb]
    rintro ⟨rfl, rfl⟩
    exact hne rfl
  rw [List.filter_append, List.filter_append]
  congr 1
  by_cases hra : a.Concerns r
  · have hrb : ¬ b.Concerns r := fun h => hone ⟨hra, h⟩
    simp [hra, hrb]
  · simp [List.filter_cons, hra]

/-- **Peers are isolated from each other.**  In every run in which no session has to leave for want of room, a peer's
replies, its session, the messages to it and the events about it are what they are in the run without the operations
about other peers.  So operations about different peers commute where they come at the same time. -/
theorem isolated (S : Suite) (identity : KeyPair) (config : ArmConfig) (handed : PublicKey → Nat → Entropy)
    (ops : List (Nat × Operation)) (hroom : (start identity config).Roomy S handed ops) :
    (∀ p, SameFor p ((start identity config).run S handed ops)
      ((start identity config).run S handed (ops.filter fun o => o.2.Concerns p))) ∧
    ∀ before later now a b p q, a.peer? = some p → b.peer? = some q → p ≠ q →
      ops = before ++ (now, a) :: (now, b) :: later →
      (start identity config).Roomy S handed (before ++ (now, b) :: (now, a) :: later) →
      ∀ r, SameFor r ((start identity config).run S handed ops)
        ((start identity config).run S handed (before ++ (now, b) :: (now, a) :: later)) := by
  have hsound : (start identity config).engine.sessions.Sound := Cache.sound_empty _ _ _
  have hsolo : ∀ p, (start identity config).engine.Solo p := fun p q _ => ⟨rfl, rfl⟩
  have halone : ∀ ops, (start identity config).Roomy S handed ops → ∀ p,
      ((start identity config).run S handed ops).record p =
        ((start identity config).run S handed (ops.filter fun o => o.2.Concerns p)).record p :=
    fun ops hroom p => record_run hsound hsound hroom (hsolo p) rfl
  refine ⟨fun p => .of_record (sound_run hsound _) (sound_run hsound _) (halone ops hroom p), ?_⟩
  intro before later now a b p q ha hb hne hops hroom' r
  refine .of_record (sound_run hsound _) (sound_run hsound _) ?_
  rw [halone ops hroom r, halone _ hroom' r, hops, filter_concerns_swap ha hb hne]

/-- A key from the partner and a payload for a stranger come at the same time, with room for two sessions.  Both jobs and
messages for both peers arise from it. -/
theorem isolated_encounter :
    let S := Textbook.suite
    let origin := start (S.keyPair ⟨Textbook.remainder 5⟩) { maxSessions := 2 }
    let handed := fun (_ : PublicKey) n => Textbook.counting (11 + n)
    let a := Operation.receivedKeyExchange Endpoint.partner (S.publicOf ⟨Textbook.remainder 13⟩)
    let b := Operation.armOutbound (S.publicOf ⟨Textbook.remainder 17⟩) [7]
    let later := [(2, Operation.runDeferred), (3, .evictIdleSessions), (3, .drainOutbox)]
    let w := origin.run S handed ((1, a) :: (1, b) :: later)
    w.sent.length = 3 ∧
      (∀ p, SameFor p w (origin.run S handed (((1, a) :: (1, b) :: later).filter fun o => o.2.Concerns p))) ∧
      ∀ r, SameFor r w (origin.run S handed ((1, b) :: (1, a) :: later)) := by
  intro S origin handed a b later w
  have hroom : origin.Roomy S handed ((1, a) :: (1, b) :: later) := by decide +kernel
  have hroom' : origin.Roomy S handed ((1, b) :: (1, a) :: later) := by decide +kernel
  obtain ⟨halone, hcommute⟩ := isolated S _ _ handed _ hroom
  exact ⟨by decide +kernel, halone, hcommute [] later 1 a b _ _ rfl rfl (by decide +kernel) rfl hroom'⟩

end Station

end Overlay
