import Overlay.Proofs.Engine.LongTime
import Overlay.Proofs.Engine.Work
import Overlay.Proofs.Session.Credit

/-!
# The credit of an engine

An engine that talks with one peer only (`Endpoint.Devoted`) has a credit of at most two keys at a moment: that of its
live session, or two if there is none (`Endpoint.credit`).  What an operation sends, short of payloads, is missives of
the handshake whose keys are taken from the credit (`Endpoint.Spends`); and the same goes for a list of jobs, which
acknowledges nothing besides and leaves no job (`Devoted.jobsSpend`).

A message is acknowledged only if it offers a key under the long-time agreement (`Devoted.acks_disarmInbound`).
-/

namespace Overlay

def offersKey (S : Suite) (own : KeyPair) (peer : PublicKey) (m : ArmedMessage) : Bool :=
  (Agreement.bondWith S own peer).toOption.any fun b =>
    (Turn.openMessage ⟨S, {}, own, peer, 0⟩ b.pair m).toOption.any (·.isKey)

theorem Session.Rests.offersKey {S : Suite} {own : KeyPair} {peer : PublicKey} {s : Session} (h : s.Rests S own peer)
    {config : ArmConfig} {now : Nat} {m : ArmedMessage} {content : ArmMessage}
    (ho : Turn.openMessage ⟨S, config, own, peer, now⟩ s.longTimePair m = .ok content) :
    offersKey S own peer m = content.isKey := by
  obtain ⟨b, hb, -, hpair⟩ := h
  have ho' : Turn.openMessage ⟨S, {}, own, peer, 0⟩ b.pair m = .ok content := hpair ▸ ho
  rw [Overlay.offersKey, hb, Except.toOption, Option.any_some, ho']
  rfl

theorem Missive.offersKey {S : Suite} (hC : S.Commutes) (hO : S.Opens) {a b : SecretKey} {content : ArmMessage}
    {m : ArmedMessage} (h : Missive S (S.keyPair a) (S.publicOf b) content m) :
    offersKey S (S.keyPair b) (S.publicOf a) m = content.isKey := by
  obtain ⟨g, hg, -, hopen⟩ := h.mirrored hC hO
  rw [Overlay.offersKey, hg, Except.toOption, Option.any_some, hopen]
  rfl

/-- About no other peer than the given one. -/
def Operation.Concerns (p : PublicKey) : Operation → Prop
  | armOutbound q _ | disarmInbound q _ | doKeyExchange q | receivedKeyExchange q _ | sendAck q | receivedAck q _
  | checkForRenew q | defer q _ => q = p
  | runDeferred | evictIdleSessions | drainOutbox | drainEvents => True

instance (p : PublicKey) : DecidablePred (Operation.Concerns p)
  | .armOutbound _ _ | .disarmInbound _ _ | .doKeyExchange _ | .receivedKeyExchange _ _ | .sendAck _
  | .receivedAck _ _ | .checkForRenew _ | .defer _ _ => inferInstanceAs (Decidable (_ = _))
  | .runDeferred | .evictIdleSessions | .drainOutbox | .drainEvents => inferInstanceAs (Decidable True)

namespace Endpoint

open Engine

variable {S : Suite} {now : Nat} {w w' w'' : Endpoint} {p : PublicKey} {op : Operation} {l l' : List Seal}

/-- An endpoint that rests on its long-time agreements, and has jobs about one peer only. -/
structure Devoted (S : Suite) (p : PublicKey) (w : Endpoint) : Prop where
  sound : w.engine.sessions.Sound
  caches : ∀ q s, w.engine.held q = some s → s.initialized.Sound
  rests : ∀ q s, w.engine.held q = some s → s.Rests S w.engine.identity q
  jobs : ∀ job ∈ w.engine.deferred, job.1 = p

theorem Devoted.start (S : Suite) (p : PublicKey) (identity : KeyPair) (config : ArmConfig) (entropy : Entropy) :
    (start identity config entropy).Devoted S p where
  sound := sound_start identity config entropy
  caches _ _ h := by cases h
  rests _ _ h := by cases h
  jobs _ h := by cases h

theorem Devoted.perform (h : w.Devoted S p) (hop : op.Concerns p) (now : Nat) :
    (op.perform S now w).Devoted S p := by
  have hcourse := op.course S now h.sound
  refine ⟨hcourse.sound h.sound, hcourse.caches h.sound h.caches, ?_, ?_⟩
  · rw [hcourse.identity]
    exact hcourse.sessions h.sound (fun _ _ => rests_freshSession) (fun _ _ _ hm ht => hm.rests ht) h.rests
  · intro job hjob
    rcases hcourse.deferred hjob with hold | hpeer
    · exact h.jobs job hold
    · change op.peers w job.1 at hpeer
      cases op with
      | runDeferred =>
        obtain ⟨job', hmem, hsame⟩ := hpeer
        exact hsame.symm.trans (h.jobs job' hmem)
      | evictIdleSessions => cases hpeer
      | drainOutbox => cases hpeer
      | drainEvents => cases hpeer
      | _ => exact hpeer.trans hop

theorem Devoted.run (h : w.Devoted S p) {ops : List (Nat × Operation)} (hops : ∀ o ∈ ops, o.2.Concerns p) :
    (w.run S ops).Devoted S p :=
  List.foldlRecOn ops _ h fun _ hv o ho => hv.perform (hops o ho) o.1

theorem Devoted.finds (h : w.Devoted S p) {s : Session} (hs : w.engine.Finds S now p s) :
    s.initialized.Sound ∧ s.Rests S w.engine.identity p := by
  rcases hs with hlive | ⟨-, hfresh⟩
  · exact ⟨h.caches p s (held_live h.sound hlive), h.rests p s (held_live h.sound hlive)⟩
  · have hrests := rests_freshSession hfresh
    obtain ⟨b, -, rfl⟩ := freshSession_ok hfresh
    exact ⟨Cache.sound_empty _ _ _, hrests⟩

/-! ### Credit -/

/-- How many keys may still be sent to a peer while the clock stands still. -/
def credit (now : Nat) (p : PublicKey) (w : Endpoint) : Nat :=
  (w.engine.session p now).elim 2 (·.credit w.engine.config.retryInterval.millis now)

theorem credit_le (now : Nat) (p : PublicKey) (w : Endpoint) : w.credit now p ≤ 2 := by
  unfold credit
  cases w.engine.session p now with
  | none => exact Nat.le_refl 2
  | some s => exact s.credit_le _ _

theorem credit_finds {s : Session} (hs : w.engine.Finds S now p s) :
    s.credit w.engine.config.retryInterval.millis now = w.credit now p := by
  unfold credit
  rcases hs with hlive | ⟨hnone, hfresh⟩
  · rw [hlive, Option.elim_some]
  · obtain ⟨b, -, rfl⟩ := freshSession_ok hfresh
    rw [hnone]
    rfl

/-- Messages of the handshake were sent to the peer, their keys on credit. -/
structure Spends (S : Suite) (now : Nat) (p : PublicKey) (w w' : Endpoint) (l : List Seal) : Prop where
  credit : w'.credit now p + (Seal.keys l).length ≤ w.credit now p
  negotiation : ∀ s ∈ l, ∀ payload, s.content ≠ .application payload
  missives : ∀ s ∈ l, Missive S w.engine.identity p s.content s.message

theorem Spends.refl (S : Suite) (now : Nat) (p : PublicKey) (w : Endpoint) : Spends S now p w w [] :=
  ⟨Nat.le_refl _, nofun, nofun⟩

theorem Spends.trans (h : Spends S now p w w' l) (g : Spends S now p w' w'' l')
    (hidentity : w'.engine.identity = w.engine.identity) : Spends S now p w w'' (l ++ l') := by
  refine ⟨?_, ?_, ?_⟩
  · have hfirst := h.credit
    have hsecond := g.credit
    rw [Seal.keys_append, List.length_append]
    omega
  · exact List.forall_mem_append.2 ⟨h.negotiation, g.negotiation⟩
  · exact List.forall_mem_append.2 ⟨h.missives, hidentity ▸ g.missives⟩

theorem missive_turnSeals {s : Session} {k : Seal} (hsound : s.initialized.Sound)
    (hrests : s.Rests S w.engine.identity p) (harm : ∀ peer payload, op ≠ .armOutbound peer payload)
    (hk : k ∈ op.turnSeals (w.engine.context S now p) { session := s, entropy := w.entropy }) :
    (∀ payload, k.content ≠ .application payload) ∧ Missive S w.engine.identity p k.content k.message := by
  obtain ⟨hn, hkey, hid⟩ :=
    Operation.longTime_turnSeals (t := { session := s, entropy := w.entropy }) hsound harm hk
  obtain ⟨b, hb, hbid, hpair⟩ := hrests
  refine ⟨hn.content, b, hb, hid.trans hbid, ?_⟩
  have henc := hn.encrypted
  rw [Seal.data, Seal.plaintext, hn.sender, hn.recipient, hkey, hid, hbid, hpair] at henc
  exact henc

/-- **An operation spends credit** on what it sends, unless it is to encrypt a payload. -/
theorem Devoted.spends (h : w.Devoted S p) (now : Nat) (op : Operation) (hpeer : op.peers w p)
    (hjobs : op ≠ .runDeferred) (hdefer : ∀ work, op ≠ .defer p work)
    (harm : ∀ peer payload, op ≠ .armOutbound peer payload) :
    Spends S now p w (op.perform S now w) (op.workSeals S now w) := by
  have houtcome := Operation.outcome S now h.sound hpeer hjobs hdefer
  generalize op.perform S now w = w' at houtcome
  cases houtcome with
  | idle e hlooked hidle hseals =>
    rw [hseals]
    refine ⟨?_, nofun, nofun⟩
    rcases hidle with rfl | ⟨hnone, hgone⟩
    · exact Nat.le_refl _
    · have hfull : w.credit now p = 2 := by
        rw [Endpoint.credit, hnone]
        rfl
      rw [hfull]
      exact credit_le now p _
  | turn e s hlooked hfinds hlive hseals =>
    obtain ⟨hsound, hrests⟩ := h.finds hfinds
    have hpace := Operation.pace_turn (t := { session := s, entropy := w.entropy }) hsound
      (w.engine.context S now p) op
    rw [hseals]
    refine ⟨?_, fun k hk => (missive_turnSeals hsound hrests harm hk).1,
      fun k hk => (missive_turnSeals hsound hrests harm hk).2⟩
    -- the session after the turn is live, and has the credit that the turn leaves it
    generalize op.turn (w.engine.context S now p) { session := s, entropy := w.entropy } = t' at hpace ⊢
    have hcredit : (w.after (e.absorb p t', t'.entropy)).credit now p =
        t'.session.credit w.engine.config.retryInterval.millis now := by
      show ((e.absorb p t').session p now).elim 2 (·.credit e.config.retryInterval.millis now) = _
      rw [live_absorb hlooked.sound hlive t', Option.elim_some, hlooked.config]
    rw [hcredit, ← credit_finds hfinds]
    exact hpace.credit

/-! ### Jobs -/

theorem Devoted.job (h : w.Devoted S p) (now : Nat) (work : Deferred) :
    Spends S now p w ((work.operation p).perform S now w) ((work.operation p).workSeals S now w) ∧
      Seal.acks ((work.operation p).workSeals S now w) = [] ∧
      ((work.operation p).perform S now w).engine.deferred = w.engine.deferred := by
  have hpeer : (work.operation p).peers w p := by cases work <;> rfl
  have hjobs := work.operation_ne_runDeferred p
  have hdefer : ∀ work', work.operation p ≠ .defer p work' := by cases work <;> exact nofun
  have harm : ∀ peer payload, work.operation p ≠ .armOutbound peer payload := by cases work <;> exact nofun
  refine ⟨h.spends now _ hpeer hjobs hdefer harm, ?_⟩
  have houtcome := Operation.outcome S now h.sound hpeer hjobs hdefer
  generalize (work.operation p).perform S now w = w' at houtcome
  cases houtcome with
  | idle e hlooked hidle hseals =>
    rw [hseals]
    exact ⟨rfl, hlooked.deferred⟩
  | turn e s hlooked hfinds hlive hseals =>
    obtain ⟨hacks, hdeferred⟩ :=
      work.turn p (w.engine.context S now p) { session := s, entropy := w.entropy }
    rw [hseals]
    refine ⟨hacks, ?_⟩
    show e.deferred ++ ((work.operation p).turn _ _).deferred.map _ = _
    rw [hdeferred, hlooked.deferred, List.map_nil, List.append_nil]

theorem Devoted.jobsSpend (now : Nat) (jobs : List (PublicKey × Deferred)) (hjobs : ∀ job ∈ jobs, job.1 = p)
    (h : w.Devoted S p) :
    Spends S now p w (w.run S (jobs.map fun job => (now, job.2.operation job.1))) (jobSeals S now jobs w) ∧
      Seal.acks (jobSeals S now jobs w) = [] ∧
      (w.run S (jobs.map fun job => (now, job.2.operation job.1))).engine.deferred = w.engine.deferred := by
  induction jobs generalizing w with
  | nil => exact ⟨.refl S now p w, rfl, rfl⟩
  | cons job jobs ih =>
    obtain ⟨q, work⟩ := job
    obtain ⟨rfl, hrest⟩ := List.forall_mem_cons.1 hjobs
    obtain ⟨hspend, hacks, hdeferred⟩ := h.job now work
    have hconcerns : (work.operation q).Concerns q := by cases work <;> rfl
    have hnext := h.perform hconcerns now
    obtain ⟨hspends, hacks', hdeferred'⟩ := ih hrest hnext
    refine ⟨hspend.trans hspends ((work.operation q).course S now h.sound).identity, ?_,
      hdeferred'.trans hdeferred⟩
    rw [jobSeals, Seal.acks_append, hacks, hacks', List.append_nil]

/-- Doing the jobs spends credit, acknowledges nothing, and leaves no job. -/
theorem Devoted.runDeferred (h : w.Devoted S p) (now : Nat) :
    Spends S now p w (Operation.runDeferred.perform S now w) (Operation.runDeferred.seals S now w) ∧
      Seal.acks (Operation.runDeferred.seals S now w) = [] ∧
      (Operation.runDeferred.perform S now w).engine.deferred = [] := by
  have hcleared : w.cleared.Devoted S p := ⟨h.sound, h.caches, h.rests, nofun⟩
  rw [Operation.perform_runDeferred, afterJobs_run, Operation.seals, if_pos rfl]
  obtain ⟨hspends, hacks, hdeferred⟩ := hcleared.jobsSpend now w.engine.deferred h.jobs
  exact ⟨⟨hspends.credit, hspends.negotiation, hspends.missives⟩, hacks, hdeferred⟩

/-! ### Messages -/

/-- Only an offer of a key is acknowledged, and that once. -/
theorem Devoted.acks_disarmInbound (h : w.Devoted S p) (now : Nat) (m : ArmedMessage) :
    (Seal.acks ((Operation.disarmInbound p m).workSeals S now w)).length ≤
      (offersKey S w.engine.identity p m).toNat := by
  have hpeer : (Operation.disarmInbound p m).peers w p := rfl
  have houtcome := Operation.outcome S now h.sound hpeer nofun nofun
  generalize (Operation.disarmInbound p m).perform S now w = w' at houtcome
  cases houtcome with
  | idle e hlooked hidle hseals =>
    rw [hseals]
    exact Nat.zero_le _
  | turn e s hlooked hfinds hlive hseals =>
    obtain ⟨hsound, hrests⟩ := h.finds hfinds
    obtain ⟨-, hone, hoffer⟩ := Turn.pace_disarmInbound (t := { session := s, entropy := w.entropy }) hsound
      (w.engine.context S now p) m
    rw [hseals]
    show (Seal.acks (Turn.disarmSeals (w.engine.context S now p) m { session := s, entropy := w.entropy })).length ≤ _
    by_cases hnone : Seal.acks (Turn.disarmSeals (w.engine.context S now p) m
        { session := s, entropy := w.entropy }) = []
    · rw [hnone]
      exact Nat.zero_le _
    · obtain ⟨key, hopen⟩ := hoffer hnone
      rw [hrests.offersKey hopen]
      exact hone

end Endpoint

end Overlay
