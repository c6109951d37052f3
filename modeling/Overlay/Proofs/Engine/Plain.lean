import Overlay.Proofs.Engine.LongTime
import Overlay.Proofs.Engine.Work
import Overlay.Proofs.Session.Plain

/-!
# Plain endpoints

An endpoint is plain if all its sessions are, it has told nothing, and, where short-lived agreements are disabled, it
has no message and no job waiting.  A single operation keeps it plain if its turns do (`Endpoint.Plain.perform`), and
so do the jobs of an endpoint, and a sweep (`Endpoint.Plain.runDeferred`, `Endpoint.Plain.evictIdleSessions`).

What a plain endpoint encrypts is a missive, a message under the long-time agreement (`Endpoint.Plain.arm_missive`).  A
plain endpoint stays plain when a missive comes in, and the payload is handed out (`Endpoint.Plain.missive`,
`Endpoint.Plain.reads`), if the session with the sender does not expire at once.
-/

namespace Overlay

/-- The long-time agreement of a session is the one with its peer, and nothing else has come of the session. -/
structure Session.PlainWith (S : Suite) (own : KeyPair) (peer : PublicKey) (s : Session) : Prop extends s.Plain where
  rests : s.Rests S own peer

namespace Engine

variable {S : Suite} {now : Nat} {p : PublicKey} {e : Engine}

theorem plain_freshSession {s : Session} (hs : e.freshSession S p = .ok s) : s.PlainWith S e.identity p := by
  have hrests := rests_freshSession hs
  obtain ⟨b, -, rfl⟩ := freshSession_ok hs
  exact ⟨⟨rfl, rfl, rfl, fun _ => rfl, Cache.sound_empty _ _ _⟩, hrests⟩

theorem freshSession_bond {b : Bond} (hb : Agreement.bondWith S e.identity p = .ok b) :
    ∃ s, e.freshSession S p = .ok s := by
  rw [freshSession_eq, hb]
  exact ⟨_, rfl⟩

theorem dropped_plain {s : Session} (h : s.Plain) (p : PublicKey) : dropped p s = [] := by
  rw [dropped, h.state]
  rfl

end Engine

namespace Endpoint

open Engine

variable {S : Suite} {now : Nat} {w : Endpoint} {p : PublicKey} {s : Session}

theorem ensureSession_fst (now : Nat) (hs : w.engine.freshSession S p = .ok s) :
    (w.engine.ensureSession S now p).1 = .ok () := by
  by_cases hc : w.engine.sessions.contains p now = true
  · rw [ensureSession, if_pos hc]
  · rw [ensureSession_absent hc, hs]

theorem resolve_ok (now : Nat) (hw : w.engine.sessions.Sound) (httl : w.engine.sessions.ttl ≠ some 0)
    (hs : w.engine.freshSession S p = .ok s) : ∃ s', (w.engine.resolve S now p).1 = .ok s' := by
  have hresult := ensureSession_fst now hs
  have hsound := sound_ensureSession S now p hw
  have hlive : ((w.engine.ensureSession S now p).2.session p now).isSome = true := by
    rcases ensureSession_ok S now p hw hresult with ⟨hlive, heq⟩ | ⟨s', -, hstored⟩
    · rw [heq]
      exact hlive
    · -- the session is as old as the moment, and no session expires at once
      have hfresh : (w.engine.ensureSession S now p).2.sessions.overdue ⟨p, s', now⟩ now = false := by
        rw [Cache.overdue_eq, ttl_ensureSession S now p hw]
        cases ht : w.engine.sessions.ttl with
        | none => rfl
        | some ttl =>
          have hpos : 0 < ttl := Nat.pos_of_ne_zero fun hzero => httl (ht.trans (congrArg some hzero))
          show decide (ttl ≤ now - now) = false
          rw [Nat.sub_self, decide_eq_false (Nat.not_le.2 hpos)]
      rw [session, Cache.peek_stored hsound, hstored, Option.bind_some, hfresh]
      rfl
  obtain ⟨s', hs'⟩ := Option.isSome_iff_exists.1 hlive
  rw [resolve_ensured hw hresult, hs']
  exact ⟨s', rfl⟩

end Endpoint

/-- All sessions are plain, nothing was told, and nothing waits where short-lived agreements are disabled. -/
structure Endpoint.Plain (S : Suite) (w : Endpoint) : Prop where
  sound : w.engine.sessions.Sound
  sessions : ∀ q s, w.engine.held q = some s → s.PlainWith S w.engine.identity q
  handedOut : w.handedOut = []
  events : w.engine.events = []
  passive : w.engine.config.forwardSecrecy = false → w.engine.outbox = [] ∧ w.engine.deferred = []

namespace Endpoint.Plain

open Engine

variable {S : Suite} {now : Nat} {w : Endpoint} {p : PublicKey} {op : Operation}

theorem start (S : Suite) (identity : KeyPair) (config : ArmConfig) (entropy : Entropy) :
    (Endpoint.start identity config entropy).Plain S where
  sound := sound_start identity config entropy
  sessions _ _ h := by cases h
  handedOut := rfl
  events := rfl
  passive _ := ⟨rfl, rfl⟩

theorem finds (h : w.Plain S) {s : Session} (hs : w.engine.Finds S now p s) : s.PlainWith S w.engine.identity p := by
  rcases hs with hlive | ⟨-, hfresh⟩
  · exact h.sessions p s (held_live h.sound hlive)
  · exact plain_freshSession hfresh

theorem looked_events {e : Engine} (h : w.Plain S) (he : w.engine.Looked e) : e.events = [] := by
  obtain ⟨gone, hgone, hdropped⟩ := he.events
  have hnone : gone = [] := by
    refine List.eq_nil_iff_forall_not_mem.2 ?_
    intro v hv
    obtain ⟨q, s, hs, hmem⟩ := hdropped v hv
    rw [dropped_plain (h.sessions q s hs).toPlain] at hmem
    cases hmem
  rw [hgone, hnone, h.events]
  rfl

/-- **A single operation keeps an endpoint plain if its turns do.** -/
theorem perform (h : w.Plain S) (hpeer : op.peers w p) (hjobs : op ≠ .runDeferred)
    (hdefer : ∀ work, op ≠ .defer p work) (hturn : ∀ t : Turn, t.session.PlainWith S w.engine.identity p →
      (op.turn (w.engine.context S now p) t).session.Plain ∧
      (op.turn (w.engine.context S now p) t).events = t.events ∧
      (w.engine.config.forwardSecrecy = false →
        (op.turn (w.engine.context S now p) t).outbox = t.outbox ∧
        (op.turn (w.engine.context S now p) t).deferred = t.deferred)) :
    (op.perform S now w).Plain S := by
  have hcourse := op.course S now h.sound
  have hsound := hcourse.sound h.sound
  have hidentity := hcourse.identity
  have hrests := hcourse.sessions (Q := fun q s => s.Rests S w.engine.identity q) h.sound
    (fun q s hs => (plain_freshSession hs).rests)
    (fun q t t' hm ht => hm.rests ht)
    fun q s hs => (h.sessions q s hs).rests
  -- the sessions with other peers were there before, and so was that with the peer, if the operation was idle
  have hsessions : (∀ s, (op.perform S now w).engine.held p = some s → s.Plain) →
      ∀ q s, (op.perform S now w).engine.held q = some s →
        s.PlainWith S (op.perform S now w).engine.identity q := by
    intro hp q s hs
    refine ⟨?_, hidentity ▸ hrests q s hs⟩
    by_cases hq : q = p
    · subst hq
      exact hp s hs
    · have hother : ¬ op.peers w q := fun hpq => hq (Operation.peers_unique hjobs hpeer hpq)
      rcases Operation.held_perform_other S now h.sound hother with hsame | hnone
      · rw [hsame] at hs
        exact (h.sessions q s hs).toPlain
      · rw [hnone] at hs
        cases hs
  have houtcome := Operation.outcome S now h.sound hpeer hjobs hdefer
  generalize op.perform S now w = w' at houtcome hsound hidentity hsessions
  cases houtcome with
  | idle e hlooked hidle hseals =>
    refine ⟨hsound, hsessions ?_, h.handedOut, h.looked_events hlooked, ?_⟩
    · intro s hs
      rcases hidle with rfl | ⟨-, hnone⟩
      · exact (h.sessions p s hs).toPlain
      · rw [show (w.after (e, w.entropy)).engine.held p = none from hnone] at hs
        cases hs
    · intro hfs
      obtain ⟨hout, hdef⟩ := h.passive (hlooked.config ▸ hfs)
      exact ⟨hlooked.outbox.trans hout, hlooked.deferred.trans hdef⟩
  | turn e s hlooked hfinds hlive hseals =>
    obtain ⟨hplain, hevents, hpassive⟩ := hturn { session := s, entropy := w.entropy } (h.finds hfinds)
    refine ⟨hsound, hsessions ?_, h.handedOut, ?_, ?_⟩
    · intro s' hs'
      have hheld := held_absorb (t := op.turn (w.engine.context S now p) { session := s, entropy := w.entropy })
        hlooked.sound (held_live hlooked.sound hlive) p
      rw [if_pos rfl] at hheld
      cases Option.some.inj (hs'.symm.trans hheld)
      exact hplain
    · show e.events ++ _ = []
      rw [h.looked_events hlooked, hevents]
      rfl
    · intro hfs
      have hfs' : w.engine.config.forwardSecrecy = false := hlooked.config ▸ hfs
      obtain ⟨hout, hdef⟩ := h.passive hfs'
      obtain ⟨hout', hdef'⟩ := hpassive hfs'
      refine ⟨?_, ?_⟩
      · show e.outbox ++ _ = []
        rw [hlooked.outbox, hout, hout']
        rfl
      · show e.deferred ++ _ = []
        rw [hlooked.deferred, hdef, hdef']
        rfl

/-- Without a key or a name from the peer, turns of plain sessions keep them plain. -/
theorem silent {x : Context} {t t' : Turn} {own : KeyPair} (ht : t.session.PlainWith S own p)
    (hm : Turn.Moves x .silence t t') : t'.session.Plain ∧ t'.events = t.events := hm.plain ht.toPlain

theorem armOutbound (h : w.Plain S) (now : Nat) (p : PublicKey) (payload : Bytes) :
    ((Operation.armOutbound p payload).perform S now w).Plain S := by
  refine h.perform (p := p) rfl nofun nofun ?_
  intro t ht
  obtain ⟨hplain, hevents⟩ := silent ht (Turn.moves_armOutbound (w.engine.context S now p) .silence payload t)
  exact ⟨hplain, hevents, fun hfs => Turn.armOutbound_passive (x := w.engine.context S now p) hfs t payload⟩

/-- Where short-lived agreements are disabled, any message keeps an endpoint plain. -/
theorem disabled (h : w.Plain S) (hfs : w.engine.config.forwardSecrecy = false) (now : Nat) (p : PublicKey)
    (m : ArmedMessage) : ((Operation.disarmInbound p m).perform S now w).Plain S := by
  refine h.perform (p := p) rfl nofun nofun ?_
  intro t ht
  obtain ⟨hplain, hevents, hout, hdef⟩ :=
    Turn.plain_disarmInbound (x := w.engine.context S now p) hfs ht.toPlain m
  exact ⟨hplain, hevents, fun _ => ⟨hout, hdef⟩⟩

/-- A missive keeps an endpoint plain. -/
theorem missive (h : w.Plain S) (hC : S.Commutes) (hO : S.Opens) {a b : SecretKey} {payload : Bytes} {m : ArmedMessage}
    (hidentity : w.engine.identity = S.keyPair b)
    (hm : Missive S (S.keyPair a) (S.publicOf b) (.application payload) m) (now : Nat) :
    ((Operation.disarmInbound (S.publicOf a) m).perform S now w).Plain S := by
  refine h.perform (p := S.publicOf a) rfl nofun nofun ?_
  intro t ht
  obtain ⟨hid, hopen⟩ := hm.opens hC hO (hidentity ▸ ht.rests) w.engine.config now
  rw [← hidentity] at hopen
  have hdisarm := Turn.disarmInbound_payload (x := w.engine.context S now (S.publicOf a)) hid hopen
  have hturn : (Operation.disarmInbound (S.publicOf a) m).turn (w.engine.context S now (S.publicOf a)) t =
    if w.engine.config.forwardSecrecy then t.defer .checkRenewal else t := congrArg Prod.snd hdisarm
  rw [hturn]
  cases hfs : w.engine.config.forwardSecrecy with
  | false => exact ⟨ht.toPlain, rfl, fun _ => ⟨rfl, rfl⟩⟩
  | true => exact ⟨ht.toPlain, rfl, nofun⟩

theorem arm_missive (h : w.Plain S) {payload : Bytes} {m : ArmedMessage}
    (hm : (w.engine.armOutbound S now p payload w.entropy).1 = .ok m) :
    Missive S w.engine.identity p (.application payload) m := by
  obtain ⟨s, hfinds, harm⟩ := converse_found h.sound (fun x t => t.armOutbound x payload) hm
  have hs := h.finds hfinds
  obtain ⟨b, hb, hid, hpair⟩ := hs.rests
  have hsealed := Turn.armOutbound_sealed (t := { session := s, entropy := w.entropy }) hs.active harm
  refine ⟨b, hb, hsealed.name.trans hid, ?_⟩
  have henc := hsealed.encrypted
  rw [show Session.longTimeId _ = b.id from hid, show Session.longTimePair _ = b.pair from hpair] at henc
  exact henc

/-- **A plain endpoint opens a missive**, whatever its settings, unless sessions expire at once. -/
theorem reads (h : w.Plain S) (hC : S.Commutes) (hO : S.Opens) {a b : SecretKey} {payload : Bytes} {m : ArmedMessage}
    (hidentity : w.engine.identity = S.keyPair b) (httl : w.engine.sessions.ttl ≠ some 0)
    (hm : Missive S (S.keyPair a) (S.publicOf b) (.application payload) m) (now : Nat) :
    (w.engine.disarmInbound S now (S.publicOf a) m w.entropy).1 = .ok (.application payload) := by
  obtain ⟨g, hg, -⟩ := hm.mirrored hC hO
  obtain ⟨f, hf⟩ := freshSession_bond (hidentity ▸ hg)
  obtain ⟨s, hs⟩ := resolve_ok now h.sound httl hf
  have hfinds := ((resolve_found S now (S.publicOf a) h.sound).1 s hs).1
  obtain ⟨hid, hopen⟩ := hm.opens hC hO (hidentity ▸ (h.finds hfinds).rests) w.engine.config now
  rw [← hidentity] at hopen
  have hdisarm := Turn.disarmInbound_payload (x := w.engine.context S now (S.publicOf a))
    (t := { session := s, entropy := w.entropy }) hid hopen
  exact (congrArg Prod.fst (converse_ok hs (fun x t => t.disarmInbound x m) _)).trans (congrArg Prod.fst hdisarm)

theorem job (h : w.Plain S) (hfs : w.engine.config.forwardSecrecy = true) (now : Nat)
    (job : PublicKey × Deferred) : ((job.2.operation job.1).perform S now w).Plain S := by
  have hactive : ∀ {P : Prop}, w.engine.config.forwardSecrecy = false → P := by
    intro P hoff
    rw [hfs] at hoff
    cases hoff
  obtain ⟨p, work⟩ := job
  cases work with
  | checkRenewal =>
    refine h.perform (p := p) rfl nofun nofun ?_
    intro t ht
    obtain ⟨hplain, hevents⟩ := silent ht (Turn.moves_checkForRenew (w.engine.context S now p) .silence t)
    exact ⟨hplain, hevents, hactive⟩
  | keyExchange =>
    refine h.perform (p := p) rfl nofun nofun ?_
    intro t ht
    obtain ⟨hplain, hevents⟩ := silent ht (Turn.moves_doKeyExchange (w.engine.context S now p) .silence t)
    exact ⟨hplain, hevents, hactive⟩

theorem runDeferred (h : w.Plain S) (now : Nat) : (Operation.runDeferred.perform S now w).Plain S := by
  have hcleared : w.cleared.Plain S :=
    ⟨h.sound, h.sessions, h.handedOut, h.events, fun hfs => ⟨(h.passive hfs).1, rfl⟩⟩
  rw [Operation.perform_runDeferred]
  cases hfs : w.engine.config.forwardSecrecy with
  | false =>
    rw [(h.passive hfs).2]
    exact hcleared
  | true =>
    have hkeeps : (w.afterJobs S now w.engine.deferred).engine.config = w.engine.config ∧
        (w.afterJobs S now w.engine.deferred).Plain S := by
      refine keeps_afterJobs (I := fun v => v.engine.config = w.engine.config ∧ v.Plain S) ⟨rfl, hcleared⟩
        w.engine.deferred ?_
      rintro l₁ job l₂ - ⟨hconfig, hplain⟩
      exact ⟨((job.2.operation job.1).course S now hplain.sound).config.trans hconfig,
        hplain.job (hconfig ▸ hfs) now job⟩
    exact hkeeps.2

theorem evictIdleSessions (h : w.Plain S) (now : Nat) :
    (Operation.evictIdleSessions.perform S now w).Plain S := by
  have hgone : ((w.engine.sessions.takeExpired now).1.flatMap fun x => dropped x.1 x.2) = [] := by
    refine List.flatMap_eq_nil_iff.2 ?_
    rintro ⟨q, s⟩ hmem
    have hfilter := Cache.filter_takeExpired h.sound now q
    have hq : (q, s) ∈ (w.engine.sessions.takeExpired now).1.filter fun e => e.1 = q :=
      List.mem_filter.2 ⟨hmem, decide_eq_true rfl⟩
    rw [hfilter, Option.mem_toList, Option.map_eq_some_iff] at hq
    obtain ⟨i, hi, hs⟩ := hq
    have hvalue : i.value = s := congrArg Prod.snd hs
    have hheld : w.engine.held q = some s := by
      rw [held, (Option.filter_eq_some_iff.1 hi).1, Option.map_some, hvalue]
    exact dropped_plain (h.sessions q s hheld).toPlain q
  refine ⟨h.sound.takeExpired now, ?_, h.handedOut, ?_, h.passive⟩
  · intro q s hs
    have hs' : ((w.engine.sessions.takeExpired now).2.stored q).map (·.value) = some s := hs
    rw [Cache.stored_takeExpired h.sound] at hs'
    obtain ⟨i, hi, rfl⟩ := Option.map_eq_some_iff.1 hs'
    exact h.sessions q i.value (by rw [held, (Option.filter_eq_some_iff.1 hi).1]; rfl)
  · exact (congrArg₂ (· ++ ·) h.events hgone : w.engine.events ++ _ = [] ++ [])

theorem drainOutbox (h : w.Plain S) (now : Nat) : (Operation.drainOutbox.perform S now w).Plain S :=
  ⟨h.sound, h.sessions, h.handedOut, h.events, fun hfs => ⟨rfl, (h.passive hfs).2⟩⟩

theorem drainEvents (h : w.Plain S) (now : Nat) : (Operation.drainEvents.perform S now w).Plain S := by
  refine ⟨h.sound, h.sessions, ?_, rfl, h.passive⟩
  show w.handedOut ++ w.engine.events = []
  rw [h.handedOut, h.events]
  rfl

end Endpoint.Plain

end Overlay
