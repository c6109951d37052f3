import Overlay.Proofs.Engine.Live
import Overlay.Proofs.Session.Retained

/-!
# Retention

What was promoted stays readable for its whole retention (`opens_retained`), unless one of four things happens:
its session is dropped (`Operation.Spares`); so many other agreements are used that it has to leave the cache
(`Operation.used`); another agreement of its name is promoted (`Operation.promoted`); or it is retired, which
from its deadline on a message opened under it does, and a check for renewal that finds it active
(`Operation.Retires`).

The invariant is that the session with the peer retains the agreement (`Retained`).  The promotion establishes
it (`retained_promoted`), every operation that does none of the four keeps it (`Retained.perform`), and then so
does a run (`Retained.run`).
-/

namespace Overlay

namespace Operation

section

variable (S : Suite) (now : Nat) (w : Endpoint) (p : PublicKey)

/-- No session with a peer is dropped: an operation about the peer finds it live, and any operation leaves it
where it is. -/
structure Spares (op : Operation) : Prop where
  live : (w.engine.held p).isSome → op.peers w p → (w.engine.session p now).isSome
  stays : (w.engine.held p).isSome → ((op.perform S now w).engine.held p).isSome

instance (w : Endpoint) (p : PublicKey) : (op : Operation) → Decidable (op.peers w p)
  | armOutbound peer _ | disarmInbound peer _ | doKeyExchange peer | receivedKeyExchange peer _
  | sendAck peer | receivedAck peer _ | checkForRenew peer | defer peer _ =>
    inferInstanceAs (Decidable (p = peer))
  | runDeferred => inferInstanceAs (Decidable (∃ job ∈ w.engine.deferred, job.1 = p))
  | evictIdleSessions | drainOutbox | drainEvents => inferInstanceAs (Decidable False)

instance (op : Operation) : Decidable (op.Spares S now w p) :=
  decidable_of_iff
    (((w.engine.held p).isSome → op.peers w p → (w.engine.session p now).isSome) ∧
      ((w.engine.held p).isSome → ((op.perform S now w).engine.held p).isSome))
    ⟨fun h => ⟨h.1, h.2⟩, fun h => ⟨h.live, h.stays⟩⟩

/-- The name of the agreement with a peer that an operation moves out of negotiation. -/
def promoted (op : Operation) : Option AgreementId :=
  ((w.engine.held p).bind (·.inactiveId)).filter fun _ =>
    ((op.perform S now w).engine.held p).any (·.inactive = none)

/-- The name of the kept agreement with a peer that a message is under. -/
def consulted (now : Nat) (w : Endpoint) (p : PublicKey) : Operation → Option AgreementId
  | disarmInbound peer m => if peer = p ∧ (w.engine.held p).any (fun s =>
      s.initialized.contains m.agreementId now) then some m.agreementId else none
  | _ => none

/-- The names of the agreements with a peer that an operation uses: it promotes one, or brings a message under
one. -/
def used (op : Operation) : List AgreementId :=
  (op.promoted S now w p).toList ++ (op.consulted now w p).toList

/-- An operation opens a message from a peer under an agreement, or checks for renewal where it is active. -/
def Retires (id : AgreementId) : Operation → Prop
  | disarmInbound peer m => peer = p ∧ m.agreementId = id ∧
      (w.engine.disarmInbound S now peer m w.entropy).1.isOk
  | checkForRenew peer =>
    peer = p ∧ ((w.engine.held p).bind (·.active)).bind (·.id) = some id
  | _ => False

instance (id : AgreementId) : (op : Operation) → Decidable (op.Retires S now w p id)
  | disarmInbound _ _ | checkForRenew _ => inferInstanceAs (Decidable (_ ∧ _))
  | armOutbound _ _ | doKeyExchange _ | receivedKeyExchange _ _ | sendAck _ | receivedAck _ _ | defer _ _
  | runDeferred | evictIdleSessions | drainOutbox | drainEvents => inferInstanceAs (Decidable False)

/-- An operation looks an agreement with a peer up: a message from the peer is under it, or a check for renewal finds
it active. -/
def Names (id : AgreementId) : Operation → Prop
  | disarmInbound peer m => peer = p ∧ m.agreementId = id
  | checkForRenew peer => peer = p ∧ ((w.engine.held p).bind (·.active)).bind (·.id) = some id
  | _ => False

instance (id : AgreementId) : (op : Operation) → Decidable (op.Names w p id)
  | disarmInbound _ _ | checkForRenew _ => inferInstanceAs (Decidable (_ ∧ _))
  | armOutbound _ _ | doKeyExchange _ | receivedKeyExchange _ _ | sendAck _ | receivedAck _ _ | defer _ _
  | runDeferred | evictIdleSessions | drainOutbox | drainEvents => inferInstanceAs (Decidable False)

/-- An operation does nothing that could take an agreement with a given deadline away, while the agreements
used are it and few others. -/
structure Leaves (few : List AgreementId) (id : AgreementId) (deadline : Nat) (op : Operation) : Prop where
  spares : op.Spares S now w p
  uses : ∀ other ∈ op.used S now w p, other = id ∨ other ∈ few
  promoted : op.promoted S now w p ≠ some id
  retires : deadline ≤ now → ¬ op.Retires S now w p id

instance (few : List AgreementId) (id : AgreementId) (deadline : Nat) (op : Operation) :
    Decidable (op.Leaves S now w p few id deadline) :=
  decidable_of_iff
    (op.Spares S now w p ∧ (∀ other ∈ op.used S now w p, other = id ∨ other ∈ few) ∧
      op.promoted S now w p ≠ some id ∧ (deadline ≤ now → ¬ op.Retires S now w p id))
    ⟨fun h => ⟨h.1, h.2.1, h.2.2.1, h.2.2.2⟩, fun h => ⟨h.spares, h.uses, h.promoted, h.retires⟩⟩

end

variable {S : Suite} {now : Nat} {w : Endpoint} {p : PublicKey} {s : Session} {op : Operation}
  {id : AgreementId}

open Engine

/-- An operation that spares the session with a peer is a turn of it, or leaves it alone. -/
theorem Spares.turn (h : op.Spares S now w p) (hw : w.engine.sessions.Sound)
    (hfs : w.engine.config.forwardSecrecy = true) (hop : op ≠ .runDeferred)
    (hs : w.engine.held p = some s) :
    (op.peers w p ∧ w.engine.session p now = some s ∧ (op.perform S now w).engine.held p =
      some (op.turn (w.engine.context S now p) { session := s, entropy := w.entropy }).session) ∨
    (¬ op.peers w p ∧ (op.perform S now w).engine.held p = some s) := by
  have hheld : (w.engine.held p).isSome := by
    rw [hs]
    rfl
  by_cases hpeer : op.peers w p
  · obtain ⟨s', hlive⟩ := Option.isSome_iff_exists.1 (h.live hheld hpeer)
    have hs' := held_live hw hlive
    rw [hs, Option.some.injEq] at hs'
    subst hs'
    have hafter := session_perform (S := S) hw hfs hop hpeer hlive
    exact Or.inl ⟨hpeer, hlive, held_live ((op.course S now hw).sound hw) hafter⟩
  · refine Or.inr ⟨hpeer, ?_⟩
    rcases held_perform_other S now hw hpeer with hsame | hnone
    · rw [hsame, hs]
    · have hstays := h.stays hheld
      rw [hnone] at hstays
      cases hstays

theorem promoted_of_turn {t : Turn} (hs : w.engine.held p = some s) (hid : s.inactiveId = some id)
    (ht : (op.perform S now w).engine.held p = some t.session) (hgone : t.session.inactive = none) :
    op.promoted S now w p = some id := by
  rw [promoted, hs, ht, Option.bind_some, hid]
  simp [hgone]

theorem promoted_eq_none (h : ∀ s, w.engine.held p = some s → s.inactive ≠ none →
    ∃ s', (op.perform S now w).engine.held p = some s' ∧ s'.inactive ≠ none) :
    op.promoted S now w p = none := by
  rw [promoted, Option.filter_eq_none_iff]
  intro id hid hgone
  obtain ⟨s, hs, hid⟩ := Option.bind_eq_some_iff.1 hid
  obtain ⟨s', hs', hi'⟩ := h s hs fun hnone => by
    rw [Session.inactiveId, hnone] at hid
    cases hid
  rw [hs'] at hgone
  exact hi' (of_decide_eq_true hgone)

/-- Only a message or an acknowledgement can move an agreement out of negotiation. -/
theorem turn_inactive {x : Context} {t : Turn} (hs : t.session.inactive ≠ none)
    (hdisarm : ∀ peer m, op ≠ .disarmInbound peer m) (hack : ∀ peer id, op ≠ .receivedAck peer id) :
    (op.turn x t).session.inactive ≠ none := by
  rcases turn_cases x t op with hn | ⟨peer, m, rfl⟩ | ⟨peer, id, rfl⟩ | ⟨peer, rfl⟩
  · exact hn.inactive hs
  · exact absurd rfl (hdisarm peer m)
  · exact absurd rfl (hack peer id)
  · show (t.checkForRenew x).2.session.inactive ≠ none
    rcases Turn.session_checkForRenew x t with hn | ⟨a, -, -, ht⟩
    · exact hn.inactive hs
    · rw [ht]
      exact hs

theorem inactive_turn_job {x : Context} {t : Turn} (hs : t.session.inactive ≠ none)
    (job : PublicKey × Deferred) : ((job.2.operation job.1).turn x t).session.inactive ≠ none := by
  obtain ⟨peer, work⟩ := job
  apply turn_inactive hs
  · intro _ _ h
    cases work <;> cases h
  · intro _ _ h
    cases work <;> cases h

/-- A retained agreement stays, if the others that are used are among the few, and if from its deadline on no
message is opened under it, and no check for renewal finds it active. -/
theorem retains_turn {x : Context} {t : Turn} {c : ArmConfig} {i : Item AgreementId Agreement}
    {few : List AgreementId} (h : t.session.Retains c i few)
    (hfew : 0 < c.maxAgreements → few.length < c.maxAgreements)
    (hnamed : ∀ peer m, op = .disarmInbound peer m → m.agreementId = i.key → c.Lasts i.touchedAt x.now)
    (hrenewed : ∀ peer, op = .checkForRenew peer →
      ∀ a, t.session.active = some a → a.id = some i.key → c.Lasts i.touchedAt x.now)
    (hlook : ∀ peer m, op = .disarmInbound peer m →
      t.session.initialized.contains m.agreementId x.now → m.agreementId = i.key ∨ m.agreementId ∈ few)
    (hpromote : ∀ id, t.session.inactiveId = some id → (op.turn x t).session.inactive = none →
      id ≠ i.key ∧ id ∈ few)
    (hopened : i.value.isStale x.now = true → ∀ peer m, op = .disarmInbound peer m →
      m.agreementId = i.key → ∀ d, (t.disarmInbound x m).1 ≠ .ok d)
    (hchecked : i.value.isStale x.now = true → ∀ peer, op = .checkForRenew peer →
      ∀ a, t.session.active = some a → a.id ≠ some i.key) :
    (op.turn x t).session.Retains c i few := by
  rcases turn_cases x t op with hn | ⟨peer, m, rfl⟩ | ⟨peer, id, rfl⟩ | ⟨peer, rfl⟩
  · exact h.negotiated hn
  · exact Turn.retains_disarmInbound h hfew (hnamed peer m rfl) (hlook peer m rfl) hpromote
      fun hi => hopened hi peer m rfl
  · exact Turn.retains_promote h hfew id (hpromote id)
  · exact Turn.retains_checkForRenew h (hrenewed peer rfl) fun hi => hchecked hi peer rfl

theorem retains_promoted {x : Context} {t : Turn} {c : ArmConfig} {g : Agreement}
    (hs : t.session.Furnished c) (hg : t.session.inactive = some g) (hi : g.id = some id)
    (hlong : t.session.longTimeId ≠ id) (hlasts : c.Lasts x.now x.now)
    (few : List AgreementId) (hgone : (op.turn x t).session.inactive = none) :
    (op.turn x t).session.Retains c ⟨id, x.dated g, x.now⟩ few := by
  have hstays : t.session.inactive ≠ none := by
    rw [hg]
    exact nofun
  rcases turn_cases x t op with hn | ⟨peer, m, rfl⟩ | ⟨peer, id', rfl⟩ | ⟨peer, rfl⟩
  · exact absurd hgone (hn.inactive hstays)
  · exact Turn.retains_of_vacated hs hg hi hlong hlasts few hgone
  · have hturn : (t.promote x id').2.session.inactive = none := hgone
    show Session.Retains c _ few (t.promote x id').2.session
    rcases Turn.promote_cases x id' t with ⟨-, ht⟩ | ⟨g', hg', hi', ht⟩
    · rw [ht] at hturn
      exact absurd hturn hstays
    · rw [hg, Option.some.injEq] at hg'
      subst hg'
      rw [hi, Option.some.injEq] at hi'
      subst hi'
      rw [ht]
      exact hs.retains_promote hlong (x.dated g) x.now few
  · exact absurd hgone (turn_inactive hstays (fun _ _ => nofun) fun _ _ => nofun)

end Operation

namespace Endpoint

open Engine Operation

variable {S : Suite} {now : Nat} {w : Endpoint} {p : PublicKey} {s : Session} {c : ArmConfig}
  {i : Item AgreementId Agreement} {few : List AgreementId} {op : Operation} {id : AgreementId}

structure Retained (c : ArmConfig) (p : PublicKey) (i : Item AgreementId Agreement)
    (few : List AgreementId) (w : Endpoint) : Prop where
  config : w.engine.config = c
  session : ∃ s, w.engine.held p = some s ∧ s.Retains c i few

/-! ### One operation -/

/-- **An operation keeps what it does not take away.** -/
theorem Retained.perform {deadline : Nat} (h : w.Retained c p i few) (hw : w.engine.sessions.Sound)
    (hfs : c.forwardSecrecy = true) (hfew : 0 < c.maxAgreements → few.length < c.maxAgreements)
    (hlasts : op.Names w p i.key → c.Lasts i.touchedAt now)
    (hstale : i.value.staleAt = some deadline) (hop : op ≠ .runDeferred)
    (hl : op.Leaves S now w p few i.key deadline) : (op.perform S now w).Retained c p i few := by
  obtain ⟨hconfig, s, hs, hretains⟩ := h
  refine ⟨(op.course S now hw).config.trans hconfig, ?_⟩
  rcases hl.spares.turn hw (hconfig ▸ hfs) hop hs with ⟨hpeer, hsession, hafter⟩ | ⟨-, hafter⟩
  swap
  · exact ⟨s, hafter, hretains⟩
  have hdead : i.value.isStale now = true → ¬ op.Retires S now w p i.key := by
    intro hi
    rw [Agreement.isStale, hstale] at hi
    exact hl.retires (of_decide_eq_true hi)
  refine ⟨_, hafter, retains_turn hretains hfew ?_ ?_ ?_ ?_ ?_ ?_⟩
  · rintro peer m rfl hid
    cases hpeer
    exact hlasts ⟨rfl, hid⟩
  · rintro peer rfl a ha hid
    cases hpeer
    refine hlasts ⟨rfl, ?_⟩
    rw [hs, Option.bind_some, ha]
    exact hid
  · rintro peer m rfl hfound
    cases hpeer
    refine hl.uses _ (List.mem_append_right _ ?_)
    rw [consulted, hs, Option.any_some, if_pos ⟨rfl, hfound⟩]
    exact List.mem_singleton_self _
  · intro id hid hgone
    have hpromoted := promoted_of_turn hs hid hafter hgone
    have hne : id ≠ i.key := fun he => hl.promoted (he ▸ hpromoted)
    refine ⟨hne, (hl.uses id (List.mem_append_left _ ?_)).resolve_left hne⟩
    rw [hpromoted]
    exact List.mem_singleton_self _
  · rintro hi peer m rfl hid d hd
    cases hpeer
    refine hdead hi ⟨rfl, hid, ?_⟩
    rw [Engine.disarmInbound, converse_live hw hsession, hd]
    rfl
  · rintro hi peer rfl a ha hid
    cases hpeer
    refine hdead hi ⟨rfl, ?_⟩
    rw [hs, Option.bind_some, ha]
    exact hid

theorem retained_promoted {g : Agreement} (hw : w.engine.sessions.Sound) (hconfig : w.engine.config = c)
    (hfs : c.forwardSecrecy = true) (hop : op ≠ .runDeferred) (hs : w.engine.held p = some s)
    (hfurnished : s.Furnished c) (hg : s.inactive = some g) (hi : g.id = some id)
    (hlong : s.longTimeId ≠ id) (hlasts : c.Lasts now now)
    (few : List AgreementId) (hspares : op.Spares S now w p)
    (hpromoted : op.promoted S now w p = some id) :
    (op.perform S now w).Retained c p ⟨id, (w.engine.context S now p).dated g, now⟩ few := by
  refine ⟨(op.course S now hw).config.trans hconfig, ?_⟩
  obtain ⟨-, hgone⟩ := Option.filter_eq_some_iff.1 hpromoted
  rcases hspares.turn hw (hconfig ▸ hfs) hop hs with ⟨hpeer, hsession, hafter⟩ | ⟨-, hafter⟩
  · rw [hafter] at hgone
    exact ⟨_, hafter, retains_promoted hfurnished hg hi hlong hlasts few (of_decide_eq_true hgone)⟩
  · rw [hafter] at hgone
    have hnone := of_decide_eq_true hgone
    rw [hg] at hnone
    cases hnone

theorem inactive_job (hw : w.engine.sessions.Sound) (hfs : w.engine.config.forwardSecrecy = true)
    (job : PublicKey × Deferred) (hspares : (job.2.operation job.1).Spares S now w p)
    (h : ∃ s, w.engine.held p = some s ∧ s.inactive ≠ none) :
    ∃ s, ((job.2.operation job.1).perform S now w).engine.held p = some s ∧ s.inactive ≠ none := by
  obtain ⟨s, hs, hi⟩ := h
  rcases hspares.turn hw hfs (job.2.operation_ne_runDeferred job.1) hs with ⟨-, -, hafter⟩ | ⟨-, hafter⟩
  · exact ⟨_, hafter, inactive_turn_job hi job⟩
  · exact ⟨s, hafter, hi⟩

theorem promoted_runDeferred (hw : w.engine.sessions.Sound)
    (hfs : w.engine.config.forwardSecrecy = true)
    (hspares : w.Throughout S [(now, .runDeferred)] fun now v part => part.Spares S now v p) :
    Operation.runDeferred.promoted S now w p = none := by
  apply promoted_eq_none
  intro s hs hi
  have hjobs : w.Throughout S [(now, .runDeferred)] fun now v part =>
      part.Spares S now v p ∧ ∃ job : PublicKey × Deferred, part = job.2.operation job.1 := by
    refine ⟨fun v part hpart => ⟨hspares.1 v part hpart, ?_⟩, trivial⟩
    cases hpart with
    | whole op hop => exact absurd rfl hop
    | job l₁ job l₂ h => exact ⟨job, rfl⟩
  have hkeeps := hjobs.keeps (I := fun v => v.engine.config.forwardSecrecy = true ∧
    ∃ s, v.engine.held p = some s ∧ s.inactive ≠ none) hw (fun v h => h) ?_ ⟨hfs, s, hs, hi⟩
  · exact hkeeps.2
  · rintro now v op hv - ⟨hspares, job, rfl⟩ ⟨hfs, hinactive⟩
    refine ⟨?_, inactive_job hv hfs job hspares hinactive⟩
    rw [((job.2.operation job.1).course S now hv).config]
    exact hfs

theorem ne_runDeferred_of_promoted (hw : w.engine.sessions.Sound) (hfs : w.engine.config.forwardSecrecy = true)
    (hspares : w.Throughout S [(now, op)] fun now v part => part.Spares S now v p)
    (hpromoted : op.promoted S now w p = some id) : op ≠ .runDeferred := by
  rintro rfl
  rw [promoted_runDeferred hw hfs hspares] at hpromoted
  cases hpromoted

/-! ### A run -/

/-- **A run keeps what none of its operations takes away.** -/
theorem Retained.run {ops : List (Nat × Operation)} {deadline : Nat} (h : w.Retained c p i few)
    (hw : w.engine.sessions.Sound) (hfs : c.forwardSecrecy = true)
    (hfew : 0 < c.maxAgreements → few.length < c.maxAgreements)
    (hlasts : ∀ o ∈ ops, c.Lasts i.touchedAt o.1)
    (hstale : i.value.staleAt = some deadline)
    (hl : w.Throughout S ops fun now v part => part.Leaves S now v p few i.key deadline) :
    (w.run S ops).Retained c p i few := by
  have hboth : w.Throughout S ops fun now v part =>
      part.Leaves S now v p few i.key deadline ∧ c.Lasts i.touchedAt now :=
    hl.mono fun o ho v part hpart => ⟨hpart, hlasts o ho⟩
  refine hboth.keeps hw (fun v h => ⟨h.config, h.session⟩) ?_ h
  intro now v op hv hop hp hretained
  exact hretained.perform hv hfs hfew (fun _ => hp.2) hstale hop hp.1

/-- Whatever was sealed under a retained agreement is opened in a live session. -/
theorem Retained.opens (h : w.Retained c p i few) (hS : S.Opens) (hw : w.engine.sessions.Sound)
    (hsession : (w.engine.session p now).isSome)
    (hlasts : c.Lasts i.touchedAt now) {pair : SessionPair}
    {m : ArmedMessage} {content : ArmMessage} (hp : i.value.pair = some pair)
    (hid : m.agreementId = i.key) (hm : S.encrypt pair.rx m.nonce
      (associatedData p w.engine.identity.publicKey m.agreementId) content.encode = some m.ciphertext) :
    (w.engine.disarmInbound S now p m w.entropy).1 = .ok (Turn.disarmed content) := by
  obtain ⟨s, hs⟩ := Option.isSome_iff_exists.1 hsession
  obtain ⟨s', hs', hretains⟩ := h.session
  rw [held_live hw hs, Option.some.injEq] at hs'
  subst hs'
  rw [Engine.disarmInbound, converse_live hw hs]
  exact Turn.retained_opens (t := { session := s, entropy := w.entropy }) hretains hS hlasts hp hid hm

/-- What is promoted is retained through a run that does not take it away. -/
theorem retained_later {g : Agreement} {t : Nat} {later : List (Nat × Operation)}
    (hw : w.engine.sessions.Sound) (hconfig : w.engine.config = c) (hfs : c.forwardSecrecy = true)
    (hs : w.engine.held p = some s) (hfurnished : s.Furnished c) (hg : s.inactive = some g)
    (hi : g.id = some id) (hlong : s.longTimeId ≠ id) (hpromoted : op.promoted S now w p = some id)
    (hspares : w.Throughout S [(now, op)] fun now v part => part.Spares S now v p)
    (hleaves : (op.perform S now w).Throughout S later fun time v part =>
      part.Leaves S time v p few id (Overlay.after now c.expireAfter.millis))
    (hfew : c.maxAgreements = 0 ∨ few.length < c.maxAgreements)
    (hclock : ∀ o ∈ (now, op) :: later, o.1 ≤ t) (ht : t < now + c.retention.millis) :
    ((op.perform S now w).run S later).Retained c p ⟨id, (w.engine.context S now p).dated g, now⟩ few := by
  have hop := ne_runDeferred_of_promoted hw (hconfig ▸ hfs) hspares hpromoted
  have hlasts : ∀ time ≤ t, c.Lasts now time := fun time =>
    ArmConfig.lasts_of_lt ht (hclock _ List.mem_cons_self)
  have hdeadline : ((w.engine.context S now p).dated g).staleAt =
      some (Overlay.after now c.expireAfter.millis) := by
    rw [← hconfig]
    rfl
  refine Retained.run ?_ ((op.course S now hw).sound hw) hfs (fun hmax => hfew.resolve_left (by omega))
    (fun o ho => hlasts o.1 (hclock o (List.mem_cons_of_mem _ ho))) hdeadline hleaves
  exact retained_promoted hw hconfig hfs hop hs hfurnished hg hi hlong
    (hlasts now (hclock _ List.mem_cons_self)) few (hspares.1 w op (.whole op hop)) hpromoted

/-! ### Every run -/

/-- **A promoted agreement is readable for its whole retention.**  In every run, a message that was sealed under
an agreement is opened at every moment of the retention that starts with the promotion, if the session was not
dropped since, fewer than the bound of other agreements were used, none of its name was promoted, and from its
deadline on no message was opened under it and no check for renewal found it active. -/
theorem opens_retained (S : Suite) (hS : S.Opens) (identity : KeyPair) (config : ArmConfig)
    (hfs : config.forwardSecrecy = true) (entropy : Entropy) (past later : List (Nat × Operation))
    (t₀ t : Nat) (op : Operation) (p : PublicKey) (w w' : Endpoint) (s : Session) (g : Agreement) (b : Bond)
    (few : List AgreementId) (m : ArmedMessage) (content : ArmMessage)
    (hw : w = (start identity config entropy).run S past) (hw' : w' = op.perform S t₀ w)
    (hs : w.engine.held p = some s) (hg : s.inactive = some g) (hb : g.bond = some b)
    (hlong : S.agreementId identity.publicKey p ≠ .ok b.id)
    (hpromoted : op.promoted S t₀ w p = some b.id)
    (hspares : w.Throughout S [(t₀, op)] fun now v part => part.Spares S now v p)
    (hleaves : w'.Throughout S later fun now v part =>
      part.Leaves S now v p few b.id (Overlay.after t₀ config.expireAfter.millis))
    (hfew : config.maxAgreements = 0 ∨ few.length < config.maxAgreements)
    (hclock : ∀ o ∈ (t₀, op) :: later, o.1 ≤ t) (ht : t < t₀ + config.retention.millis)
    (hlive : ((w'.run S later).engine.session p t).isSome) (hid : m.agreementId = b.id)
    (hm : S.encrypt b.pair.rx m.nonce (associatedData p identity.publicKey m.agreementId) content.encode =
      some m.ciphertext) :
    ((w'.run S later).engine.disarmInbound S t p m (w'.run S later).entropy).1 =
      .ok (Turn.disarmed content) := by
  subst hw hw'
  have hsound := sound_start identity config entropy
  have hbefore := sound_run (S := S) hsound past
  have hafter := (op.course S t₀ hbefore).sound hbefore
  have hname : s.longTimeId ≠ b.id := fun he => hlong (he ▸ longTime_run S _ _ _ past p s hs)
  have hretained := retained_later hbefore (config_run hsound past) hfs hs
    (furnished_run S _ _ _ past p s hs) hg (congrArg (·.map (·.id)) hb) hname hpromoted hspares hleaves
    hfew hclock ht
  have hlasts : config.Lasts t₀ t := ArmConfig.lasts_of_lt ht (hclock _ List.mem_cons_self) (Nat.le_refl t)
  refine hretained.opens hS (sound_run hafter later) hlive hlasts
    (congrArg (·.map (·.pair)) hb) hid ?_
  rw [identity_run hafter, (op.course S t₀ hbefore).identity, identity_run hsound]
  exact hm

def pact (own theirs : Nat) : Bond :=
  (Agreement.bondWith Textbook.suite (Textbook.suite.keyPair ⟨Textbook.remainder own⟩)
    (Textbook.suite.publicOf ⟨Textbook.remainder theirs⟩)).toOption.getD default

def letter (b : Bond) (payload : Bytes) : ArmedMessage where
  agreementId := b.id
  nonce := .filled 24 0
  ciphertext := (Textbook.suite.encrypt b.pair.rx (.filled 24 0)
    (associatedData partner newcomer.engine.address b.id) (ArmMessage.application payload).encode).getD []

def offered (theirs : Nat) : Operation :=
  .receivedKeyExchange partner (Textbook.suite.publicOf ⟨Textbook.remainder theirs⟩)

theorem encrypt_letter (b : Bond) (payload : Bytes) :
    Textbook.suite.encrypt b.pair.rx (letter b payload).nonce
      (associatedData partner newcomer.engine.address (letter b payload).agreementId)
      (ArmMessage.application payload).encode = some (letter b payload).ciphertext := rfl

/-- The newcomer reads a letter, writes one, and reads another one when the agreement is stale. -/
theorem opens_retained_letter :
    let w := (Operation.receivedAck partner (pact 11 13).id).perform Textbook.suite 2
      (newcomer.run Textbook.suite [(1, offered 13)])
    let v := w.run Textbook.suite
      [(3, .disarmInbound partner (letter (pact 11 13) [7])), (1000, .armOutbound partner [8])]
    (v.engine.disarmInbound Textbook.suite 300500 partner (letter (pact 11 13) [9]) v.entropy).1 =
      .ok (.application [9]) := by
  have hsome : ((newcomer.run Textbook.suite [(1, offered 13)]).engine.held partner).any fun s =>
      s.inactive = some ⟨Textbook.suite.keyPair ⟨Textbook.remainder 11⟩, some (pact 11 13), none⟩ := by
    decide +kernel
  obtain ⟨s, hs, hg⟩ := (Option.any_eq_true _ _).1 hsome
  have hpromoted : (Operation.receivedAck partner (pact 11 13).id).promoted Textbook.suite 2
      (newcomer.run Textbook.suite [(1, offered 13)]) partner = some (pact 11 13).id := by decide +kernel
  intro w v
  refine opens_retained Textbook.suite Textbook.suite_opens (Textbook.suite.keyPair ⟨Textbook.remainder 5⟩)
    {} (by decide) (Textbook.counting 11) [(1, offered 13)]
    [(3, .disarmInbound partner (letter (pact 11 13) [7])), (1000, .armOutbound partner [8])] 2 300500
    (.receivedAck partner (pact 11 13).id) partner (newcomer.run Textbook.suite [(1, offered 13)]) w s
    _ (pact 11 13) [] (letter (pact 11 13) [9]) (.application [9]) rfl rfl hs (of_decide_eq_true hg) rfl
    (by decide +kernel) hpromoted (by decide +kernel) (by decide +kernel) (Or.inr (by decide)) (by simp)
    (by decide) (by decide +kernel) rfl (encrypt_letter _ _)

/-- A promotion of an agreement with the partner, what comes after it, and then a letter under it. -/
structure Delivery where
  before : Endpoint
  bond : Bond
  start : Nat
  promotion : Operation
  later : List (Nat × Operation)
  moment : Nat
  payload : Bytes

namespace Delivery

def recipient (d : Delivery) : Endpoint :=
  (d.promotion.perform Textbook.suite d.start d.before).run Textbook.suite d.later

/-- What seems enough for the letter to be opened: since the promotion the session was not dropped, and fewer
than the bound of other agreements were promoted; and the retention is not over. -/
structure Owed (d : Delivery) : Prop where
  forwardSecrecy : d.before.engine.config.forwardSecrecy = true
  address : d.before.engine.address = newcomer.engine.address
  bond : ((d.before.engine.held partner).bind (·.inactive)).bind (·.bond) = some d.bond
  promoted : d.promotion.promoted Textbook.suite d.start d.before partner = some d.bond.id
  spares : d.before.Throughout Textbook.suite ((d.start, d.promotion) :: d.later) fun now v part =>
    part.Spares Textbook.suite now v partner
  few : ∃ others : List AgreementId, others.length < d.before.engine.config.maxAgreements ∧
    (d.promotion.perform Textbook.suite d.start d.before).Throughout Textbook.suite d.later
      fun now v part => ∀ id ∈ part.promoted Textbook.suite now v partner, id ∈ others
  clock : (d.start :: d.later.map (·.1) ++ [d.moment]).Pairwise (· ≤ ·)
  window : d.moment < d.start + d.before.engine.config.retention.millis
  live : (d.recipient.engine.session partner d.moment).isSome

def Refused (d : Delivery) : Prop :=
  (d.recipient.engine.disarmInbound Textbook.suite d.moment partner (letter d.bond d.payload)
    d.recipient.entropy).1 = .error (.unknownAgreementId d.bond.id)

instance (d : Delivery) : Decidable d.Refused := inferInstanceAs (Decidable (_ = _))

def second : Delivery where
  before := newcomer.run Textbook.suite [(1, offered 13)]
  bond := pact 11 13
  start := 2
  promotion := .receivedAck partner (pact 11 13).id
  later := [(1000, .armOutbound partner [8]), (300500, .disarmInbound partner (letter (pact 11 13) [7]))]
  moment := 300501
  payload := [9]

def renewed : Delivery where
  before := newcomer.run Textbook.suite [(1, offered 13)]
  bond := pact 11 13
  start := 2
  promotion := .receivedAck partner (pact 11 13).id
  later := [(1000, .armOutbound partner [8]), (300500, .checkForRenew partner)]
  moment := 300501
  payload := [9]

/-- A letter under the agreement that was the least recently used of two when a third one was promoted. -/
def crowded : Delivery where
  before := (Endpoint.start (Textbook.suite.keyPair ⟨Textbook.remainder 5⟩) { maxAgreements := 2 }
    (Textbook.counting 11)).run Textbook.suite
      [(1, offered 13), (2, .receivedAck partner (pact 11 13).id), (3, offered 17)]
  bond := pact 12 17
  start := 4
  promotion := .receivedAck partner (pact 12 17).id
  later := [(5, .disarmInbound partner (letter (pact 11 13) [7])), (6, offered 19),
    (7, .receivedAck partner (pact 13 19).id)]
  moment := 8
  payload := [9]

/-- **No condition can be left out**: what may be used, and what may be opened or checked after the deadline.
Each of the three letters is refused. -/
theorem refused_of_owed :
    (second.Owed ∧ second.Refused) ∧ (renewed.Owed ∧ renewed.Refused) ∧
      (crowded.Owed ∧ crowded.Refused) := by
  have hsecond : second.Owed :=
    ⟨by decide +kernel, by decide +kernel, by decide +kernel, by decide +kernel, by decide +kernel,
      ⟨[], by decide +kernel, by decide +kernel⟩, by decide, by decide +kernel, by decide +kernel⟩
  have hrenewed : renewed.Owed :=
    ⟨by decide +kernel, by decide +kernel, by decide +kernel, by decide +kernel, by decide +kernel,
      ⟨[], by decide +kernel, by decide +kernel⟩, by decide, by decide +kernel, by decide +kernel⟩
  have hcrowded : crowded.Owed :=
    ⟨by decide +kernel, by decide +kernel, by decide +kernel, by decide +kernel, by decide +kernel,
      ⟨[(pact 13 19).id], by decide +kernel, by decide +kernel⟩, by decide, by decide +kernel,
      by decide +kernel⟩
  exact ⟨⟨hsecond, by decide +kernel⟩, ⟨hrenewed, by decide +kernel⟩, hcrowded, by decide +kernel⟩

end Delivery

end Endpoint

end Overlay
