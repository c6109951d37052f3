import Overlay.Proofs.Engine.Live
import Overlay.Proofs.Session.Sealing

/-!
# Which messages an engine encrypts

The encryptions of every operation of an engine (`Operation.seals`), taken from the turns that the operation
makes, and those of the queued jobs (`Operation.workSeals`).  They are the messages that leave the engine
(`emits_seals`): the answer of `armOutbound` (`armOutbound_answer`), and what is put into the outbox (`outbox_perform`).

All of them are from this engine, for a peer that the operation is about (`workSeals_cases`), and the only payloads
among them are those that it was asked to encrypt (`armed_of_seals`).
-/

namespace Overlay

namespace Seal

/-- A message of the handshake as it stands in the outbox. -/
def outgoing (s : Seal) : Outgoing := ⟨s.recipient, s.message⟩

/-- The ciphertext is what the suite makes of the content. -/
def Genuine (S : Suite) (s : Seal) : Prop := S.encrypt s.key s.nonce s.data s.plaintext = some s.ciphertext

end Seal

theorem Engine.outbox_armOutbound (S : Suite) (now : Nat) (peer : PublicKey) (payload : Bytes) (e : Engine)
    (r : Entropy) : (e.armOutbound S now peer payload r).2.1.outbox = e.outbox := by
  have hresolve : (e.resolve S now peer).2.outbox = e.outbox := congrArg (·.outbox) (resolve_same S now peer e)
  unfold armOutbound
  cases hr : (e.resolve S now peer).1 with
  | error err =>
    rw [converse_error hr]
    exact hresolve
  | ok s =>
    rw [converse_ok hr]
    show (e.resolve S now peer).2.outbox ++ (Turn.armOutbound _ payload _).2.outbox.map _ = _
    rw [Turn.outbox_armOutbound, List.map_nil, List.append_nil]
    exact hresolve

namespace Endpoint

open Engine

variable {S : Suite} {now : Nat} {peer : PublicKey} {w : Endpoint} {s : Seal}

/-- The encryptions of work in the session with a peer. -/
def converseSeals (S : Suite) (now : Nat) (peer : PublicKey) (work : Context → Turn → List Seal)
    (w : Endpoint) : List Seal :=
  match w.engine.resolve S now peer with
  | (.ok s, e) => work (e.context S now peer) { session := s, entropy := w.entropy }
  | (.error _, _) => []

theorem converseSeals_error {err : ArmError} (h : (w.engine.resolve S now peer).1 = .error err)
    (work : Context → Turn → List Seal) : w.converseSeals S now peer work = [] := by
  unfold converseSeals
  cases hr : w.engine.resolve S now peer with
  | mk result e =>
    rw [hr] at h
    cases h
    rfl

theorem converseSeals_ok {x : Session} (h : (w.engine.resolve S now peer).1 = .ok x)
    (work : Context → Turn → List Seal) : w.converseSeals S now peer work =
      work (w.engine.context S now peer) { session := x, entropy := w.entropy } := by
  rw [← context_resolve]
  unfold converseSeals
  cases hr : w.engine.resolve S now peer with
  | mk result e =>
    rw [hr] at h
    cases h
    rfl

theorem converseSeals_nil (S : Suite) (now : Nat) (peer : PublicKey) (w : Endpoint) :
    (w.converseSeals S now peer fun _ _ => []) = [] := by
  unfold converseSeals
  split <;> rfl

theorem of_converseSeals {work : Context → Turn → List Seal} (hs : s ∈ w.converseSeals S now peer work) :
    ∃ x t, x.suite = S ∧ x.own = w.engine.identity ∧ x.peer = peer ∧ s ∈ work x t := by
  cases hr : (w.engine.resolve S now peer).1 with
  | error err =>
    rw [converseSeals_error hr] at hs
    cases hs
  | ok _ =>
    rw [converseSeals_ok hr] at hs
    exact ⟨_, _, rfl, rfl, rfl, hs⟩

end Endpoint

namespace Operation

open Endpoint Engine

variable {S : Suite} {now : Nat} {w : Endpoint} {s : Seal}

def workSeals (S : Suite) (now : Nat) (w : Endpoint) : Operation → List Seal
  | armOutbound peer payload => w.converseSeals S now peer fun x t => t.payloadSeals x payload
  | disarmInbound peer m => w.converseSeals S now peer fun x t => t.disarmSeals x m
  | doKeyExchange peer =>
    if w.engine.config.forwardSecrecy then w.converseSeals S now peer Turn.exchangeSeals else []
  | receivedKeyExchange peer key =>
    if key = peer then [] else w.converseSeals S now peer fun x t => t.answerSeals x key
  | sendAck peer => w.converseSeals S now peer Turn.ackSeals
  | checkForRenew peer =>
    if w.engine.config.forwardSecrecy then
      (w.engine.sessions.get peer now).1.elim [] fun s =>
        Turn.renewalSeals (w.engine.context S now peer) { session := s, entropy := w.entropy }
    else []
  | receivedAck _ _ | defer _ _ | runDeferred | evictIdleSessions | drainOutbox | drainEvents => []

end Operation

def Endpoint.jobSeals (S : Suite) (now : Nat) : List (PublicKey × Deferred) → Endpoint → List Seal
  | [], _ => []
  | (peer, work) :: jobs, w =>
    (work.operation peer).workSeals S now w ++ jobSeals S now jobs ((work.operation peer).perform S now w)

namespace Operation

open Endpoint Engine

variable {S : Suite} {now : Nat} {w : Endpoint} {s : Seal}

/-- The encryptions of an operation. -/
def seals (S : Suite) (now : Nat) (w : Endpoint) (op : Operation) : List Seal :=
  if op = .runDeferred then jobSeals S now w.engine.deferred w.cleared else op.workSeals S now w

/-! ### The only payloads are those of the application -/

/-- An encryption by an engine, for a peer that the operation is about: a payload that the engine was asked to encrypt
for that peer, or a message of the handshake. -/
theorem workSeals_cases (op : Operation) (hs : s ∈ op.workSeals S now w) :
    s.sender = w.engine.address ∧ op.peers w s.recipient ∧ s.Genuine S ∧
      ((∃ payload, s.content = .application payload ∧ op = .armOutbound s.recipient payload) ∨
        ∀ payload, s.content ≠ .application payload) := by
  have hconverse : ∀ {peer : PublicKey} {work : Context → Turn → List Seal} {armed : Prop},
      (∀ x t, s ∈ work x t → s.Negotiates x) → s ∈ w.converseSeals S now peer work →
        s.sender = w.engine.address ∧ s.recipient = peer ∧ s.Genuine S ∧
          (armed ∨ ∀ payload, s.content ≠ .application payload) := by
    intro peer work armed hwork hs
    obtain ⟨x, t, rfl, hown, hpeer, hs⟩ := of_converseSeals hs
    have hn := hwork x t hs
    exact ⟨hn.sender.trans (congrArg (·.publicKey) hown), hn.recipient.trans hpeer, hn.encrypted, Or.inr hn.content⟩
  cases op with
  | armOutbound peer payload =>
    simp only [workSeals] at hs
    obtain ⟨x, t, rfl, hown, rfl, hmem⟩ := of_converseSeals hs
    obtain ⟨hof, hcontent⟩ := Turn.of_payloadSeals hmem
    exact ⟨hof.sender.trans (congrArg (·.publicKey) hown), hof.recipient, hof.encrypted,
      Or.inl ⟨payload, hcontent, by rw [hof.recipient]⟩⟩
  | disarmInbound peer m =>
    simp only [workSeals] at hs
    exact hconverse (fun _ _ => Turn.negotiates_disarmSeals) hs
  | doKeyExchange peer =>
    simp only [workSeals] at hs
    split at hs
    · exact hconverse (fun _ _ => Turn.negotiates_exchangeSeals) hs
    · cases hs
  | receivedKeyExchange peer key =>
    simp only [workSeals] at hs
    split at hs
    · cases hs
    · exact hconverse (fun _ _ => Turn.negotiates_answerSeals) hs
  | sendAck peer =>
    simp only [workSeals] at hs
    exact hconverse (fun _ _ => Turn.negotiates_ackSeals) hs
  | checkForRenew peer =>
    simp only [workSeals] at hs
    split at hs
    · cases hg : (w.engine.sessions.get peer now).1 with
      | none =>
        rw [hg] at hs
        cases hs
      | some x =>
        rw [hg] at hs
        have hn := Turn.negotiates_renewalSeals hs
        exact ⟨hn.sender, hn.recipient, hn.encrypted, Or.inr hn.content⟩
    · cases hs
  | _ => cases hs

theorem negotiates_jobSeals {jobs : List (PublicKey × Deferred)} (hs : s ∈ jobSeals S now jobs w) :
    s.Genuine S ∧ ∀ payload, s.content ≠ .application payload := by
  induction jobs generalizing w with
  | nil => cases hs
  | cons job jobs ih =>
    obtain ⟨peer, work⟩ := job
    rcases List.mem_append.1 hs with hs | hs
    · obtain ⟨-, -, hgenuine, ⟨payload, -, hop⟩ | hnone⟩ := workSeals_cases _ hs
      · cases work <;> cases hop
      · exact ⟨hgenuine, hnone⟩
    · exact ih hs

/-- The answer of `armOutbound` is the message of its only seal. -/
theorem armOutbound_answer (S : Suite) (now : Nat) (w : Endpoint) (peer : PublicKey) (payload : Bytes) :
    (w.engine.armOutbound S now peer payload w.entropy).1.toOption.toList =
      ((Operation.armOutbound peer payload).seals S now w).map Seal.message := by
  have hseals : (Operation.armOutbound peer payload).seals S now w =
      w.converseSeals S now peer fun x t => t.payloadSeals x payload := rfl
  rw [hseals]
  unfold Engine.armOutbound
  cases hr : (w.engine.resolve S now peer).1 with
  | error err =>
    rw [converse_error hr, converseSeals_error hr]
    rfl
  | ok s =>
    rw [converse_ok hr, converseSeals_ok hr]
    exact Turn.armOutbound_seals _ payload _

/-- **A payload is only ever encrypted on request.**  A seal of a payload comes from the request to encrypt it
for its recipient, which is answered with the message of the seal. -/
theorem armed_of_seals {op : Operation} {payload : Bytes} (hs : s ∈ op.seals S now w)
    (hc : s.content = .application payload) :
    op = .armOutbound s.recipient payload ∧ s.sender = w.engine.address ∧
      (w.engine.armOutbound S now s.recipient payload w.entropy).1 = .ok s.message := by
  by_cases hop : op = .runDeferred
  · rw [seals, if_pos hop] at hs
    exact absurd hc ((negotiates_jobSeals hs).2 payload)
  · have hwork := hs
    rw [seals, if_neg hop] at hwork
    obtain ⟨hsender, -, -, ⟨payload', hc', rfl⟩ | hnone⟩ := workSeals_cases op hwork
    · have hpayload : payload' = payload := ArmMessage.application.inj (hc'.symm.trans hc)
      subst hpayload
      have hanswer := List.mem_map_of_mem hs (f := Seal.message)
      rw [← armOutbound_answer] at hanswer
      exact ⟨rfl, hsender, ok_of_mem hanswer⟩
    · exact absurd hc (hnone payload)

/-! ### What leaves the engine -/

theorem map_outgoing (peer : PublicKey) {l : List Seal} (h : ∀ s ∈ l, s.recipient = peer) :
    (l.map Seal.message).map (⟨peer, ·⟩) = l.map Seal.outgoing := by
  rw [List.map_map]
  apply List.map_congr_left
  intro s hs
  rw [Seal.outgoing, h s hs]
  rfl

theorem outbox_converse {α : Type} {peer : PublicKey} {work : Context → Turn → Except ArmError α × Turn}
    {posts : Context → Turn → List Seal}
    (hwork : ∀ x t, (work x t).2.outbox = t.outbox ++ (posts x t).map Seal.message)
    (hof : ∀ x t s, s ∈ posts x t → s.recipient = x.peer) :
    (w.engine.converse S now peer work w.entropy).2.1.outbox =
      w.engine.outbox ++ (w.converseSeals S now peer posts).map Seal.outgoing := by
  have hsame : (w.engine.resolve S now peer).2.outbox = w.engine.outbox :=
    congrArg (·.outbox) (resolve_same S now peer w.engine)
  cases hr : (w.engine.resolve S now peer).1 with
  | error err =>
    rw [converse_error hr, converseSeals_error hr, List.map_nil, List.append_nil]
    exact hsame
  | ok s =>
    rw [converse_ok hr, converseSeals_ok hr]
    simp only [absorb, hsame, hwork, List.nil_append]
    rw [map_outgoing peer fun s hs => hof _ _ s hs]

theorem outbox_checkForRenew (S : Suite) (now : Nat) (w : Endpoint) (peer : PublicKey) :
    ((checkForRenew peer).perform S now w).engine.outbox =
      w.engine.outbox ++ ((checkForRenew peer).workSeals S now w).map Seal.outgoing := by
  simp only [perform, Engine.checkForRenew, workSeals]
  split
  · cases hg : w.engine.sessions.get peer now with
    | mk found sessions =>
      cases found with
      | none => exact (List.append_nil _).symm
      | some s =>
        have hposts := Turn.outbox_checkForRenew (w.engine.context S now peer)
          { session := s, entropy := w.entropy }
        show w.engine.outbox ++ (Turn.checkForRenew (w.engine.context S now peer)
          { session := s, entropy := w.entropy }).2.outbox.map (⟨peer, ·⟩) = _
        rw [hposts, List.nil_append, map_outgoing peer fun s hs => (Turn.negotiates_renewalSeals hs).recipient]
        rfl
  · exact (List.append_nil _).symm

/-- What an operation that does no jobs puts into the outbox. -/
theorem outbox_work (op : Operation) (harm : ∀ peer payload, op ≠ .armOutbound peer payload)
    (hdrain : op ≠ .drainOutbox) (hjobs : op ≠ .runDeferred) :
    (op.perform S now w).engine.outbox =
      w.engine.outbox ++ (op.workSeals S now w).map Seal.outgoing := by
  cases op with
  | armOutbound peer payload => exact absurd rfl (harm peer payload)
  | disarmInbound peer m =>
    exact outbox_converse (fun x t => Turn.outbox_disarmInbound x m t)
      fun x t s hs => (Turn.negotiates_disarmSeals hs).recipient
  | doKeyExchange peer =>
    simp only [perform, Engine.doKeyExchange, workSeals]
    split
    · exact outbox_converse (fun x t => Turn.outbox_doKeyExchange x t)
        fun x t s hs => (Turn.negotiates_exchangeSeals hs).recipient
    · exact (List.append_nil _).symm
  | receivedKeyExchange peer key =>
    simp only [perform, Engine.receivedKeyExchange, workSeals]
    split
    · exact (List.append_nil _).symm
    · exact outbox_converse (fun x t => Turn.outbox_receivedKeyExchange x key t)
        fun x t s hs => (Turn.negotiates_answerSeals hs).recipient
  | sendAck peer =>
    exact outbox_converse (fun x t => Turn.outbox_sendAck x t)
      fun x t s hs => (Turn.negotiates_ackSeals hs).recipient
  | receivedAck peer id =>
    have hquiet : ∀ x (t : Turn), (t.promote x id).2.outbox = t.outbox ++ ([] : List Seal).map Seal.message :=
      fun x t => (Turn.outbox_promote x id t).trans (List.append_nil _).symm
    have hout : ((receivedAck peer id).perform S now w).engine.outbox =
        w.engine.outbox ++ (w.converseSeals S now peer fun _ _ => []).map Seal.outgoing :=
      outbox_converse hquiet fun _ _ _ h => absurd h List.not_mem_nil
    rw [converseSeals_nil] at hout
    exact hout
  | checkForRenew peer => exact outbox_checkForRenew S now w peer
  | runDeferred => exact absurd rfl hjobs
  | drainOutbox => exact absurd rfl hdrain
  | defer peer work => exact (List.append_nil _).symm
  | evictIdleSessions => exact (List.append_nil _).symm
  | drainEvents => exact (List.append_nil _).symm

theorem outbox_jobs (S : Suite) (now : Nat) (jobs : List (PublicKey × Deferred)) (w : Endpoint) :
    (w.run S (jobs.map fun job => (now, job.2.operation job.1))).engine.outbox =
      w.engine.outbox ++ (jobSeals S now jobs w).map Seal.outgoing := by
  induction jobs generalizing w with
  | nil => exact (List.append_nil _).symm
  | cons job jobs ih =>
    obtain ⟨peer, work⟩ := job
    have hjob : ((work.operation peer).perform S now w).engine.outbox =
        w.engine.outbox ++ ((work.operation peer).workSeals S now w).map Seal.outgoing :=
      outbox_work (work.operation peer) (by cases work <;> exact nofun) (by cases work <;> exact nofun)
        (by cases work <;> exact nofun)
    have hrest := ih ((work.operation peer).perform S now w)
    rw [hjob, List.append_assoc, ← List.map_append] at hrest
    exact hrest

/-- **What an operation encrypts is what it puts into the outbox**, in the same order, for every operation but
`armOutbound`, which gives its message to the caller, and `drainOutbox`, which empties the outbox. -/
theorem outbox_perform (op : Operation) (harm : ∀ peer payload, op ≠ .armOutbound peer payload)
    (hdrain : op ≠ .drainOutbox) :
    (op.perform S now w).engine.outbox = w.engine.outbox ++ (op.seals S now w).map Seal.outgoing := by
  unfold seals
  split
  · rename_i hop
    rw [hop, perform_runDeferred, afterJobs_run]
    exact outbox_jobs S now w.engine.deferred w.cleared
  · rename_i hop
    exact outbox_work op harm hdrain hop

/-- The messages that an operation hands to its caller. -/
def given (S : Suite) (now : Nat) (w : Endpoint) : Operation → List Outgoing
  | armOutbound peer payload =>
    (w.engine.armOutbound S now peer payload w.entropy).1.toOption.toList.map (⟨peer, ·⟩)
  | drainOutbox => w.engine.drainOutbox.1
  | _ => []

/-- An operation emits encryptions: their messages join the outbox, in this order, or are handed to the caller. -/
structure Emits (S : Suite) (now : Nat) (w : Endpoint) (op : Operation) (l : List Seal) : Prop where
  genuine : ∀ s ∈ l, s.Genuine S
  messages : (op.perform S now w).engine.outbox ++ op.given S now w = w.engine.outbox ++ l.map Seal.outgoing

/-- **What an operation encrypts is what it emits.** -/
theorem emits_seals (S : Suite) (now : Nat) (w : Endpoint) (op : Operation) :
    op.Emits S now w (op.seals S now w) := by
  constructor
  · intro s hs
    unfold seals at hs
    split at hs
    · exact (negotiates_jobSeals hs).1
    · exact (workSeals_cases op hs).2.2.1
  by_cases harm : ∃ peer payload, op = .armOutbound peer payload
  · obtain ⟨peer, payload, rfl⟩ := harm
    have hrecipient : ∀ s ∈ (armOutbound peer payload).seals S now w, s.recipient = peer := by
      intro s hs
      rw [seals, if_neg nofun] at hs
      exact (workSeals_cases _ hs).2.1
    have hkept : ((armOutbound peer payload).perform S now w).engine.outbox = w.engine.outbox :=
      outbox_armOutbound S now peer payload w.engine w.entropy
    rw [hkept, given, armOutbound_answer, map_outgoing peer hrecipient]
  by_cases hdrain : op = .drainOutbox
  · subst hdrain
    exact (List.append_nil _).symm
  have hnone : op.given S now w = [] := by
    unfold given
    split
    · exact absurd ⟨_, _, rfl⟩ harm
    · exact absurd rfl hdrain
    · rfl
  rw [hnone, List.append_nil, outbox_perform op (fun peer payload h => harm ⟨peer, payload, h⟩) hdrain]

end Operation

end Overlay
