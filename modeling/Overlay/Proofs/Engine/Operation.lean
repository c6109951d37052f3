import Overlay.Proofs.Crypto.Textbook
import Overlay.Proofs.Engine.Step

/-!
# Runs of an engine

An `Operation` is anything that can be asked of an engine, and a run asks one after the other, each at its
moment.  Every operation is made of steps within its scope (`course_perform`): they hear what the operation
brings, and sessions lapse in them without a word only where a check for renewal finds one expired
(`Operation.Lapses`).
-/

namespace Overlay

inductive Operation where
  | armOutbound (peer : PublicKey) (payload : Bytes)
  | disarmInbound (peer : PublicKey) (m : ArmedMessage)
  | doKeyExchange (peer : PublicKey)
  | receivedKeyExchange (peer key : PublicKey)
  | sendAck (peer : PublicKey)
  | receivedAck (peer : PublicKey) (id : AgreementId)
  | checkForRenew (peer : PublicKey)
  | defer (peer : PublicKey) (work : Deferred)
  | runDeferred
  | evictIdleSessions
  | drainOutbox
  | drainEvents
deriving DecidableEq

namespace Endpoint

open Engine

variable {S : Suite} {now : Nat} {sc : Scope} {w : Endpoint}

def start (identity : KeyPair) (config : ArmConfig) (entropy : Entropy) : Endpoint :=
  ⟨.start identity config, entropy, []⟩

theorem sound_start (identity : KeyPair) (config : ArmConfig) (entropy : Entropy) :
    (start identity config entropy).engine.sessions.Sound := Cache.sound_empty _ _ _

def afterJobs (S : Suite) (now : Nat) (w : Endpoint) (jobs : List (PublicKey × Deferred)) : Endpoint :=
  w.after (jobs.foldl (perform S now) ({ w.engine with deferred := [] }, w.entropy))

theorem afterJobs_concat (S : Suite) (now : Nat) (w : Endpoint) (jobs : List (PublicKey × Deferred))
    (job : PublicKey × Deferred) :
    w.afterJobs S now (jobs ++ [job]) =
      (w.afterJobs S now jobs).after
        (perform S now ((w.afterJobs S now jobs).engine, (w.afterJobs S now jobs).entropy) job) := by
  unfold afterJobs
  rw [List.foldl_append]
  rfl

theorem steps_job (hw : w.engine.sessions.Sound) (job : PublicKey × Deferred) (hpeer : sc.peers job.1)
    (hl : job.2 = .checkRenewal → w.Lapses now job.1 → sc.lapses job.1) :
    Steps S now sc w (w.after (perform S now (w.engine, w.entropy) job)) := by
  obtain ⟨peer, work⟩ := job
  cases work with
  | checkRenewal => exact steps_checkForRenew hw hpeer (hl rfl)
  | keyExchange => exact steps_doKeyExchange hw hpeer

theorem steps_afterJobs (hw : w.engine.sessions.Sound) (jobs : List (PublicKey × Deferred))
    (hpeers : ∀ job ∈ jobs, sc.peers job.1) (hl : ∀ l₁ p l₂, jobs = l₁ ++ (p, .checkRenewal) :: l₂ →
      (w.afterJobs S now l₁).Lapses now p → sc.lapses p) :
    Steps S now sc w (w.afterJobs S now jobs) := by
  induction jobs using List.reverseRecOn with
  | nil =>
    exact (Step.queue w [] w.engine.outbox (fun _ h => absurd h List.not_mem_nil) fun _ h => h).steps
  | append_singleton jobs job ih =>
    have hbefore := ih (fun j hj => hpeers j (by simp [hj]))
      fun l₁ p l₂ hj => hl l₁ p (l₂ ++ [job]) (by simp [hj])
    rw [afterJobs_concat]
    refine hbefore.trans (steps_job (hbefore.sound hw) job (hpeers job (by simp)) ?_)
    intro hjob hlapse
    obtain ⟨peer, work⟩ := job
    cases hjob
    exact hl jobs peer [] rfl hlapse

end Endpoint

namespace Operation

open Endpoint

variable {S : Suite} {now : Nat} {lapses : PublicKey → Prop} {w : Endpoint}

def perform (S : Suite) (now : Nat) (w : Endpoint) : Operation → Endpoint
  | armOutbound peer payload => w.after (w.engine.armOutbound S now peer payload w.entropy).2
  | disarmInbound peer m => w.after (w.engine.disarmInbound S now peer m w.entropy).2
  | doKeyExchange peer => w.after (w.engine.doKeyExchange S now peer w.entropy).2
  | receivedKeyExchange peer key => w.after (w.engine.receivedKeyExchange S now peer key w.entropy).2
  | sendAck peer => w.after (w.engine.sendAck S now peer w.entropy).2
  | receivedAck peer id => w.after (w.engine.receivedAck S now peer id w.entropy).2
  | checkForRenew peer => w.after (w.engine.checkForRenew S now peer w.entropy).2
  | defer peer work => w.withEngine (w.engine.defer peer work)
  | runDeferred => w.after (w.engine.runDeferred S now w.entropy).2
  | evictIdleSessions => w.withEngine (w.engine.evictIdleSessions now).2
  | drainOutbox => w.withEngine w.engine.drainOutbox.2
  | drainEvents =>
    { w with engine := w.engine.drainEvents.2, handedOut := w.handedOut ++ w.engine.drainEvents.1 }

/-- What an operation brings from the peer. -/
def hearing (S : Suite) (now : Nat) (w : Endpoint) : Operation → Hearing
  | disarmInbound peer m => .ofMessage (w.engine.context S now peer) m
  | receivedKeyExchange _ key => .ofKey key
  | receivedAck _ id => .ofName id
  | _ => .silence

def peers (w : Endpoint) : Operation → PublicKey → Prop
  | armOutbound peer _ | disarmInbound peer _ | doKeyExchange peer | receivedKeyExchange peer _
  | sendAck peer | receivedAck peer _ | checkForRenew peer | defer peer _ => fun p => p = peer
  | runDeferred => fun p => ∃ job ∈ w.engine.deferred, job.1 = p
  | evictIdleSessions | drainOutbox | drainEvents => fun _ => False

/-- The scope of an operation, given for which peers sessions may lapse without a word. -/
def scope (S : Suite) (now : Nat) (w : Endpoint) (lapses : PublicKey → Prop) (op : Operation) : Scope :=
  ⟨op.hearing S now w, op.peers w, lapses⟩

/-- A check for renewal, asked for or queued, finds the session of a peer expired while it was
protected by a short-lived agreement. -/
def Lapses (S : Suite) (now : Nat) (w : Endpoint) (p : PublicKey) : Operation → Prop
  | checkForRenew peer => peer = p ∧ w.Lapses now p
  | runDeferred => ∃ l₁ l₂, w.engine.deferred = l₁ ++ (p, .checkRenewal) :: l₂ ∧
      (w.afterJobs S now l₁).Lapses now p
  | _ => False

theorem perform_runDeferred (S : Suite) (now : Nat) (w : Endpoint) :
    perform S now w runDeferred = w.afterJobs S now w.engine.deferred := rfl

/-- **Every operation is made of steps** within its scope. -/
theorem course_perform (hw : w.engine.sessions.Sound) (op : Operation)
    (hl : ∀ p, op.Lapses S now w p → lapses p) :
    Course S now (op.scope S now w lapses) w (op.perform S now w) := by
  cases op with
  | armOutbound peer payload =>
    exact Steps.course (steps_converse hw rfl fun t => Turn.moves_armOutbound _ _ payload t)
  | disarmInbound peer m => exact course_converse hw rfl fun t => Turn.course_disarmInbound _ m t
  | doKeyExchange peer => exact Steps.course (steps_doKeyExchange hw rfl)
  | receivedKeyExchange peer key =>
    simp only [perform, Engine.receivedKeyExchange]
    split
    · exact Steps.course .refl
    · exact course_converse hw rfl fun t => Turn.course_receivedKeyExchange rfl t
  | sendAck peer => exact course_converse hw rfl fun t => Turn.course_sendAck _ _ t
  | receivedAck peer id =>
    exact Steps.course (steps_converse hw rfl fun t => Turn.moves_promote t rfl)
  | checkForRenew peer =>
    exact Steps.course (steps_checkForRenew hw rfl fun hlapse => hl peer ⟨rfl, hlapse⟩)
  | defer peer work =>
    refine Steps.course (Step.queue w (w.engine.deferred ++ [(peer, work)]) w.engine.outbox
      ?_ fun _ h => h).steps
    intro job hjob
    rw [List.mem_append, List.mem_singleton] at hjob
    apply hjob.imp_right
    intro hjob
    rw [hjob]
    rfl
  | runDeferred =>
    rw [perform_runDeferred]
    exact Steps.course (steps_afterJobs hw w.engine.deferred (fun job hjob => ⟨job, hjob, rfl⟩)
      fun l₁ p l₂ hj hlapse => hl p ⟨l₁, l₂, hj, hlapse⟩)
  | evictIdleSessions => exact Steps.course (step_evictIdleSessions hw).steps
  | drainOutbox =>
    exact Steps.course (Step.queue w w.engine.deferred [] (fun _ h => Or.inl h) fun _ h => absurd h
      List.not_mem_nil).steps
  | drainEvents => exact Steps.course (Step.handOut w).steps

/-- An operation is made of steps, if any session may lapse. -/
theorem course (S : Suite) (now : Nat) (hw : w.engine.sessions.Sound) (op : Operation) :
    Course S now (op.scope S now w fun _ => True) w (op.perform S now w) :=
  op.course_perform hw fun _ _ => trivial

end Operation

namespace Endpoint

variable {S : Suite} {w : Endpoint} {ops : List (Nat × Operation)}

def run (S : Suite) (w : Endpoint) (ops : List (Nat × Operation)) : Endpoint :=
  ops.foldl (fun w op => op.2.perform S op.1 w) w

theorem run_concat (S : Suite) (w : Endpoint) (ops : List (Nat × Operation)) (now : Nat)
    (op : Operation) : w.run S (ops ++ [(now, op)]) = op.perform S now (w.run S ops) := by
  unfold run
  rw [List.foldl_append]
  rfl

theorem sound_run (hw : w.engine.sessions.Sound) (ops : List (Nat × Operation)) :
    (w.run S ops).engine.sessions.Sound := by
  induction ops using List.reverseRecOn with
  | nil => exact hw
  | append_singleton ops op ih =>
    rw [run_concat]
    exact (op.2.course S op.1 ih).sound ih

theorem identity_run (hw : w.engine.sessions.Sound) (ops : List (Nat × Operation)) :
    (w.run S ops).engine.identity = w.engine.identity := by
  induction ops using List.reverseRecOn with
  | nil => rfl
  | append_singleton ops op ih =>
    rw [run_concat, (op.2.course S op.1 (sound_run hw ops)).identity, ih]

theorem config_run (hw : w.engine.sessions.Sound) (ops : List (Nat × Operation)) :
    (w.run S ops).engine.config = w.engine.config := by
  induction ops using List.reverseRecOn with
  | nil => rfl
  | append_singleton ops op ih =>
    rw [run_concat, (op.2.course S op.1 (sound_run hw ops)).config, ih]

/-! ### An acquaintance -/

def newcomer : Endpoint := .start (Textbook.suite.keyPair ⟨Textbook.remainder 5⟩) {} (Textbook.counting 11)

def partner : PublicKey := Textbook.suite.publicOf ⟨Textbook.remainder 7⟩

/-- The partner offers a key, and acknowledges its agreement with the newcomer's first one. -/
def acquaintance : List (Nat × Operation) :=
  let key := Textbook.suite.publicOf ⟨Textbook.remainder 13⟩
  let id := Textbook.suite.agreementId (Textbook.suite.publicOf ⟨Textbook.remainder 11⟩) key
  [(1, .receivedKeyExchange partner key), (2, .receivedAck partner (id.toOption.getD default))]

end Endpoint

end Overlay
