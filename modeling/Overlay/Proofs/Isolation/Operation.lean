import Overlay.Proofs.Engine.Credit
import Overlay.Proofs.Isolation.Share

/-!
# Operations and shares

An operation is about one peer, or about none (`Operation.peer?`).  One that is about a peer depends on the share of that
peer alone, in its reply and in what it makes of that share (`Operation.share_perform`); and it leaves the share of any
other peer as it was (`Operation.share_perform_other`).  The bound must leave room for the peer's session.
-/

namespace Overlay

inductive Reply where
  | armed (result : Except ArmError ArmedMessage)
  | disarmed (result : Except ArmError Disarmed)
  | done (result : Except ArmError Unit)
  | promoted (result : Except ArmError Bool)

namespace Operation

open Engine

variable {S : Suite} {now : Nat} {w w' : Endpoint} {p q : PublicKey} {op : Operation}

def peer? : Operation → Option PublicKey
  | armOutbound peer _ | disarmInbound peer _ | doKeyExchange peer | receivedKeyExchange peer _ | sendAck peer
  | receivedAck peer _ | checkForRenew peer | defer peer _ => some peer
  | runDeferred | evictIdleSessions | drainOutbox | drainEvents => none

/-- What an operation about a peer returns; leaving a job for later returns nothing. -/
def reply (S : Suite) (now : Nat) (w : Endpoint) : Operation → Option Reply
  | armOutbound peer payload => some (.armed (w.engine.armOutbound S now peer payload w.entropy).1)
  | disarmInbound peer m => some (.disarmed (w.engine.disarmInbound S now peer m w.entropy).1)
  | doKeyExchange peer => some (.done (w.engine.doKeyExchange S now peer w.entropy).1)
  | receivedKeyExchange peer key => some (.done (w.engine.receivedKeyExchange S now peer key w.entropy).1)
  | sendAck peer => some (.done (w.engine.sendAck S now peer w.entropy).1)
  | receivedAck peer id => some (.promoted (w.engine.receivedAck S now peer id w.entropy).1)
  | checkForRenew peer => some (.done (w.engine.checkForRenew S now peer w.entropy).1)
  | defer _ _ | runDeferred | evictIdleSessions | drainOutbox | drainEvents => none

theorem concerns_iff (hpeer : op.peer? = some q) : op.Concerns p ↔ q = p := by
  cases op with
  | runDeferred => cases hpeer
  | evictIdleSessions => cases hpeer
  | drainOutbox => cases hpeer
  | drainEvents => cases hpeer
  | _ =>
    cases hpeer
    exact Iff.rfl

theorem concerns_of_peer?_none (hpeer : op.peer? = none) (p : PublicKey) : op.Concerns p := by
  cases op with
  | runDeferred => trivial
  | evictIdleSessions => trivial
  | drainOutbox => trivial
  | drainEvents => trivial
  | _ => cases hpeer

theorem peer?_job (peer : PublicKey) (work : Deferred) : (work.operation peer).peer? = some peer := by
  cases work <;> rfl

/-- **An operation about a peer depends on the share of that peer alone.** -/
theorem share_perform (hw : w.engine.sessions.Sound) (hw' : w'.engine.sessions.Sound) (hroom : w.engine.Room p)
    (hroom' : w'.engine.Room p) (hpeer : op.peer? = some p) (hentropy : w.entropy = w'.entropy)
    (h : w.engine.share p = w'.engine.share p) (S : Suite) (now : Nat) :
    op.reply S now w = op.reply S now w' ∧
      (op.perform S now w).engine.share p = (op.perform S now w').engine.share p := by
  have hconfig : w.engine.config = w'.engine.config := congrArg Share.config h
  have hconverse : ∀ {α : Type} (work : Context → Turn → Except ArmError α × Turn) (wrap : Except ArmError α → Reply),
      some (wrap (w.engine.converse S now p work w.entropy).1) =
          some (wrap (w'.engine.converse S now p work w'.entropy).1) ∧
        (w.engine.converse S now p work w.entropy).2.1.share p =
          (w'.engine.converse S now p work w'.entropy).2.1.share p := by
    intro α work wrap
    rw [hentropy]
    obtain ⟨hresult, hshare⟩ := share_converse hw hw' hroom hroom' h S now work w'.entropy
    exact ⟨congrArg (fun r => some (wrap r)) hresult, hshare⟩
  cases op with
  | armOutbound peer payload =>
    cases hpeer
    exact hconverse _ .armed
  | disarmInbound peer m =>
    cases hpeer
    exact hconverse _ .disarmed
  | doKeyExchange peer =>
    cases hpeer
    simp only [reply, perform, Engine.doKeyExchange, hconfig]
    split
    · exact hconverse _ .done
    · exact ⟨rfl, h⟩
  | receivedKeyExchange peer key =>
    cases hpeer
    simp only [reply, perform, Engine.receivedKeyExchange]
    split
    · exact ⟨rfl, h⟩
    · exact hconverse _ .done
  | sendAck peer =>
    cases hpeer
    exact hconverse _ .done
  | receivedAck peer id =>
    cases hpeer
    exact hconverse _ .promoted
  | checkForRenew peer =>
    cases hpeer
    obtain ⟨hresult, hshare⟩ := share_checkForRenew hw hw' h S now w'.entropy
    simp only [reply, perform, hentropy]
    exact ⟨congrArg (fun r => some (Reply.done r)) hresult, hshare⟩
  | defer peer work =>
    cases hpeer
    refine ⟨rfl, ?_⟩
    show (w.engine.defer p work).share p = (w'.engine.defer p work).share p
    rw [share_defer, share_defer, h]
  | runDeferred => cases hpeer
  | evictIdleSessions => cases hpeer
  | drainOutbox => cases hpeer
  | drainEvents => cases hpeer

/-- **An operation about a peer leaves the share of any other as it was.** -/
theorem share_perform_other (hw : w.engine.sessions.Sound) (hroom : w.engine.Room q) (hpeer : op.peer? = some q)
    (hq : p ≠ q) (S : Suite) (now : Nat) : (op.perform S now w).engine.share p = w.engine.share p := by
  have hconverse : ∀ {α : Type} {work : Context → Turn → Except ArmError α × Turn},
      (∀ x t, x.peer = q → ∃ h, Turn.Course x h t (work x t).2) →
        (w.engine.converse S now q work w.entropy).2.1.share p = w.engine.share p :=
    fun hwork => share_converse_other hw hroom hq S now hwork w.entropy
  cases op with
  | armOutbound peer payload =>
    cases hpeer
    exact hconverse fun x t _ => ⟨.silence, (Turn.moves_armOutbound x _ payload t).course⟩
  | disarmInbound peer m =>
    cases hpeer
    exact hconverse fun x t _ => ⟨_, Turn.course_disarmInbound x m t⟩
  | doKeyExchange peer =>
    cases hpeer
    simp only [perform, Engine.doKeyExchange]
    split
    · exact hconverse fun x t _ => ⟨.silence, (Turn.moves_doKeyExchange x _ t).course⟩
    · rfl
  | receivedKeyExchange peer key =>
    cases hpeer
    simp only [perform, Engine.receivedKeyExchange]
    split
    · rfl
    · exact hconverse fun x t _ => ⟨.ofKey key, Turn.course_receivedKeyExchange rfl t⟩
  | sendAck peer =>
    cases hpeer
    exact hconverse fun x t _ => ⟨.silence, Turn.course_sendAck x _ t⟩
  | receivedAck peer id =>
    cases hpeer
    exact hconverse fun x t _ => ⟨.ofName id, (Turn.moves_promote t rfl).course⟩
  | checkForRenew peer =>
    cases hpeer
    exact share_checkForRenew_other hw hq S now w.entropy
  | defer peer work =>
    cases hpeer
    refine (share_defer p q w.engine work).trans ?_
    simp [Ne.symm hq]
  | runDeferred => cases hpeer
  | evictIdleSessions => cases hpeer
  | drainOutbox => cases hpeer
  | drainEvents => cases hpeer

end Operation

end Overlay
