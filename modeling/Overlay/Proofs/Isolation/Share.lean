import Overlay.Proofs.Cache.Ahead
import Overlay.Proofs.Cache.Bounded
import Overlay.Proofs.Engine.Work

/-!
# The share of a peer

All peers share the sessions, the jobs, the outbox and the events of an engine.  What an engine keeps about one peer,
together with its settings, is the share of that peer (`Engine.share`).

As long as the bound leaves room for the sessions it needs (`Engine.Room`), work for one peer leaves the share of any
other as it was (`share_converse_other`), and what it answers and what it makes of the peer's own share depend on that
share alone (`share_converse`).  The same goes for checks for renewal, and a sweep does to each share what that share
tells (`share_evictIdleSessions`).
-/

namespace Overlay

universe u v

/-! ### Room in a cache -/

namespace Cache

variable {κ : Type u} {ν : Type v} [DecidableEq κ] {c : Cache κ ν} {k : κ} {now : Nat}

/-- An insertion that the bound leaves room for costs no other key its place. -/
theorem stored_insert_of_room (h : Sound c) (hroom : c.maxSize = 0 ∨ c.size < c.maxSize) (k : κ) (v : ν) (now : Nat) :
    (c.insert k v now).evicted = none ∧
      ∀ x, (c.insert k v now).cache.stored x = if x = k then some ⟨k, v, now⟩ else c.stored x := by
  rcases stored_insert h k v now with hkept | ⟨i, hgone, -, -, -⟩
  · exact hkept
  · rw [(insert_refines h k v now).1] at hgone
    obtain ⟨-, hpos, hfull, -⟩ := Recency.evicted_insert hgone
    rw [← h.size_eq] at hfull
    change 0 < c.maxSize at hpos
    change c.maxSize ≤ c.size at hfull
    omega

theorem size_of_stored_none (h : Sound c) (hnone : ∀ k, c.stored k = none) : c.size = 0 := by
  rw [h.size_eq, List.length_eq_zero_iff, List.eq_nil_iff_forall_not_mem]
  intro i hi
  exact Recency.find?_eq_none.1 (hnone i.key) i hi rfl

omit [DecidableEq κ] in
theorem overdue_of_bounds {d : Cache κ ν} (hb : c.bounds = d.bounds) (i : Item κ ν) (now : Nat) :
    c.overdue i now = d.overdue i now := by
  have httl : c.ttl = d.ttl := congrArg (·.2.1) hb
  rw [overdue_eq, overdue_eq, httl]

omit [DecidableEq κ] in
theorem used_of_bounds {d : Cache κ ν} (hb : c.bounds = d.bounds) (i : Item κ ν) (now : Nat) :
    c.recency.used i now = d.recency.used i now := by
  have hpolicy : c.recency.policy = d.recency.policy := congrArg (·.1) hb
  unfold Recency.used
  rw [hpolicy]

/-- What a look-up of a key finds and leaves behind is told by what is stored for that key. -/
theorem get_of_stored {d : Cache κ ν} (hc : Sound c) (hd : Sound d) (hb : c.bounds = d.bounds)
    (hs : c.stored k = d.stored k) (now : Nat) :
    c.peek k now = d.peek k now ∧ (c.get k now).1 = (d.get k now).1 ∧
      (c.get k now).2.stored k = (d.get k now).2.stored k := by
  have hpeek : c.peek k now = d.peek k now := by
    rw [peek_stored hc, peek_stored hd, hs]
    simp only [overdue_of_bounds hb]
  refine ⟨hpeek, ?_, ?_⟩
  · rw [get_fst hc, get_fst hd, hpeek]
  · rw [stored_get hc, stored_get hd, if_pos rfl, if_pos rfl, hs]
    simp only [overdue_of_bounds hb, used_of_bounds hb]

end Cache

/-! ### Turns tell of their peer only -/

theorem filter_changed_other {p q : PublicKey} (h : q ≠ p) (s s' : EncryptionState) :
    (changed p s s').filter (fun v => v.peer = some q) = [] := by
  have h' : p ≠ q := Ne.symm h
  cases s <;> cases s' <;> simp [changed, Event.peer, h']

namespace Turn

variable {x : Context} {h : Hearing} {t t' : Turn} {q : PublicKey}

theorem Moves.filter_events_other (hm : Moves x h t t') (hq : q ≠ x.peer) :
    t'.events.filter (fun v => v.peer = some q) = t.events.filter fun v => v.peer = some q := by
  induction hm with
  | refl => rfl
  | tail _ hm ih => rw [hm.tells, List.filter_append, filter_changed_other hq, List.append_nil, ih]

theorem Course.filter_events_other (hc : Course x h t t') (hq : q ≠ x.peer) :
    t'.events.filter (fun v => v.peer = some q) = t.events.filter fun v => v.peer = some q := by
  obtain ⟨t₁, hm, hclose⟩ := hc
  have hsame : t'.events = t₁.events := by cases hclose <;> rfl
  rw [hsame, hm.filter_events_other hq]

end Turn

/-! ### Shares -/

/-- What an engine keeps about one peer, with its settings. -/
structure Share where
  identity : KeyPair
  config : ArmConfig
  bounds : ExpiryPolicy × Option Nat × Nat
  item : Option (Item PublicKey Session)
  jobs : List (PublicKey × Deferred)
  outbox : List Outgoing
  events : List Event

namespace Engine

variable {S : Suite} {now : Nat} {p q : PublicKey} {e e' : Engine} {c c' : Cache PublicKey Session}

def share (p : PublicKey) (e : Engine) : Share where
  identity := e.identity
  config := e.config
  bounds := e.sessions.bounds
  item := e.sessions.stored p
  jobs := e.deferred.filter fun job => job.1 = p
  outbox := e.outbox.filter fun m => m.peer = p
  events := e.events.filter fun v => v.peer = some p

/-- The sessions with other peers leave room for one with this peer, which is sure while the bound is not reached. -/
def Room (q : PublicKey) (e : Engine) : Prop :=
  e.sessions.maxSize = 0 ∨ (e.sessions.remove q).2.size < e.sessions.maxSize

instance (q : PublicKey) (e : Engine) : Decidable (e.Room q) := inferInstanceAs (Decidable (_ ∨ _))

theorem share_withSessions (p : PublicKey) (e : Engine) (c : Cache PublicKey Session) :
    (e.withSessions c).share p = { e.share p with bounds := c.bounds, item := c.stored p } := rfl

theorem share_withSessions_same (hb : c.bounds = e.sessions.bounds) (hs : c.stored p = e.sessions.stored p) :
    (e.withSessions c).share p = e.share p := by
  rw [share_withSessions, hb, hs]
  rfl

theorem share_withSessions_congr (h : e.share p = e'.share p) (hb : c.bounds = c'.bounds)
    (hs : c.stored p = c'.stored p) : (e.withSessions c).share p = (e'.withSessions c').share p := by
  rw [share_withSessions p e c, share_withSessions p e' c', h, hb, hs]

theorem share_announce (p : PublicKey) (e : Engine) (events : List Event) :
    (e.announce events).share p =
      { e.share p with events := (e.share p).events ++ events.filter fun v => v.peer = some p } := by
  simp only [share, announce, List.filter_append]

theorem share_defer (p q : PublicKey) (e : Engine) (work : Deferred) :
    (e.defer q work).share p =
      { e.share p with jobs := (e.share p).jobs ++ [(q, work)].filter fun job => job.1 = p } := by
  simp only [share, defer, List.filter_append]

theorem session_of_share (he : e.sessions.Sound) (he' : e'.sessions.Sound) (h : e.share p = e'.share p) (now : Nat) :
    e.session p now = e'.session p now :=
  (Cache.get_of_stored he he' (congrArg Share.bounds h) (congrArg Share.item h) now).1

theorem context_of_share (h : e.share p = e'.share p) (S : Suite) (now : Nat) (q : PublicKey) :
    e.context S now q = e'.context S now q := context_congr (congrArg Share.identity h) (congrArg Share.config h)

theorem freshSession_of_share (h : e.share p = e'.share p) (S : Suite) (q : PublicKey) :
    e.freshSession S q = e'.freshSession S q :=
  freshSession_congr (congrArg Share.identity h) (congrArg Share.config h)

/-! ### Looking a session up -/

theorem share_get (he : e.sessions.Sound) (he' : e'.sessions.Sound) (h : e.share p = e'.share p) (now : Nat) :
    (e.sessions.get p now).1 = (e'.sessions.get p now).1 ∧
      (e.withSessions (e.sessions.get p now).2).share p = (e'.withSessions (e'.sessions.get p now).2).share p := by
  have hbounds : e.sessions.bounds = e'.sessions.bounds := congrArg Share.bounds h
  obtain ⟨-, hfound, hstored⟩ := Cache.get_of_stored he he' hbounds (congrArg Share.item h) now
  refine ⟨hfound, share_withSessions_congr h ?_ hstored⟩
  rw [Cache.bounds_get he, Cache.bounds_get he', hbounds]

theorem share_get_other (he : e.sessions.Sound) (hq : p ≠ q) (now : Nat) :
    (e.withSessions (e.sessions.get q now).2).share p = e.share p :=
  share_withSessions_same (Cache.bounds_get he q now) ((Cache.stored_get he q p now).trans (if_neg hq))

/-! ### Starting a session -/

theorem sound_vacate (he : e.sessions.Sound) (p : PublicKey) : (e.vacate p).sessions.Sound := he.remove p

theorem share_vacate (he : e.sessions.Sound) (p : PublicKey) :
    (e.vacate p).share p = { e.share p with
      item := none
      events := (e.share p).events ++ ((e.share p).item.map fun i => dropped p i.value).getD [] } := by
  rw [vacate, share_announce, share_withSessions, Cache.bounds_remove he, Cache.stored_remove he, if_pos rfl,
    Cache.remove_fst he]
  have hdue : ((((e.sessions.stored p).map (·.value)).map (dropped p)).getD []).filter (fun v => v.peer = some p) =
      ((e.sessions.stored p).map fun i => dropped p i.value).getD [] := by
    cases e.sessions.stored p with
    | none => rfl
    | some i => exact (filter_dropped p p i.value).trans (if_pos rfl)
  rw [hdue]
  rfl

theorem share_vacate_other (he : e.sessions.Sound) (hq : p ≠ q) : (e.vacate q).share p = e.share p := by
  have hdue : (((e.sessions.remove q).1.map (dropped q)).getD []).filter (fun v => v.peer = some p) = [] := by
    cases (e.sessions.remove q).1 with
    | none => rfl
    | some s => exact (filter_dropped q p s).trans (if_neg (Ne.symm hq))
  have hkept : (e.withSessions (e.sessions.remove q).2).share p = e.share p :=
    share_withSessions_same (Cache.bounds_remove he q) ((Cache.stored_remove he q p).trans (if_neg hq))
  rw [vacate, share_announce, hdue, hkept, List.append_nil]

theorem Room.vacate (hroom : e.Room p) (he : e.sessions.Sound) :
    (e.vacate p).sessions.maxSize = 0 ∨ (e.vacate p).sessions.size < (e.vacate p).sessions.maxSize := by
  have hmax : (e.vacate p).sessions.maxSize = e.sessions.maxSize := Cache.maxSize_of_bounds (Cache.bounds_remove he p)
  rw [hmax]
  exact hroom

/-- Where there is room, nothing happens to other sessions when one is started. -/
theorem ensureSession_vacant (he : e.sessions.Sound) (hroom : e.Room p) (hnone : e.session p now = none) :
    e.ensureSession S now p =
      match e.freshSession S p with
      | .error err => (.error err, e.vacate p)
      | .ok s => (.ok (), (e.vacate p).withSessions ((e.vacate p).sessions.insert p s now).cache) := by
  have hc : ¬ e.sessions.contains p now = true := by
    rw [Cache.contains, show e.sessions.peek p now = none from hnone]
    exact Bool.false_ne_true
  rw [ensureSession_absent hc]
  cases e.freshSession S p with
  | error err => rfl
  | ok s =>
    have hstay := (Cache.stored_insert_of_room (sound_vacate he p) (hroom.vacate he) p s now).1
    simp only [hstay, announce, Option.map_none, Option.getD_none, List.append_nil]

theorem share_ensureSession (he : e.sessions.Sound) (he' : e'.sessions.Sound) (hroom : e.Room p) (hroom' : e'.Room p)
    (h : e.share p = e'.share p) (S : Suite) (now : Nat) :
    (e.ensureSession S now p).1 = (e'.ensureSession S now p).1 ∧
      (e.ensureSession S now p).2.share p = (e'.ensureSession S now p).2.share p := by
  have hsession := session_of_share he he' h now
  have hvacate : (e.vacate p).share p = (e'.vacate p).share p := by rw [share_vacate he, share_vacate he', h]
  cases hs : e.session p now with
  | some s =>
    have hc : e.sessions.contains p now = true := congrArg Option.isSome hs
    have hc' : e'.sessions.contains p now = true := congrArg Option.isSome (hsession.symm.trans hs)
    rw [ensureSession, ensureSession, if_pos hc, if_pos hc']
    exact ⟨rfl, h⟩
  | none =>
    rw [ensureSession_vacant he hroom hs, ensureSession_vacant he' hroom' (hsession.symm.trans hs),
      freshSession_of_share h]
    cases e'.freshSession S p with
    | error err => exact ⟨rfl, hvacate⟩
    | ok s =>
      refine ⟨rfl, share_withSessions_congr hvacate ?_ ?_⟩
      · rw [Cache.bounds_insert (sound_vacate he p), Cache.bounds_insert (sound_vacate he' p)]
        exact congrArg Share.bounds hvacate
      · rw [Cache.stored_insert_self (sound_vacate he p), Cache.stored_insert_self (sound_vacate he' p)]

theorem share_ensureSession_other (he : e.sessions.Sound) (hroom : e.Room q) (hq : p ≠ q) (S : Suite) (now : Nat) :
    (e.ensureSession S now q).2.share p = e.share p := by
  cases hs : e.session q now with
  | some s =>
    have hc : e.sessions.contains q now = true := congrArg Option.isSome hs
    rw [ensureSession, if_pos hc]
  | none =>
    have hvacate := share_vacate_other he hq
    rw [ensureSession_vacant he hroom hs]
    cases e.freshSession S q with
    | error err => exact hvacate
    | ok s =>
      refine (share_withSessions_same ?_ ?_).trans hvacate
      · exact Cache.bounds_insert (sound_vacate he q) q s now
      · exact ((Cache.stored_insert_of_room (sound_vacate he q) (hroom.vacate he) q s now).2 p).trans (if_neg hq)

theorem share_resolve (he : e.sessions.Sound) (he' : e'.sessions.Sound) (hroom : e.Room p) (hroom' : e'.Room p)
    (h : e.share p = e'.share p) (S : Suite) (now : Nat) :
    (e.resolve S now p).1 = (e'.resolve S now p).1 ∧ (e.resolve S now p).2.share p = (e'.resolve S now p).2.share p := by
  have hsound := (looked_ensureSession he S now p).sound
  have hsound' := (looked_ensureSession he' S now p).sound
  obtain ⟨hresult, hshare⟩ := share_ensureSession he he' hroom hroom' h S now
  unfold resolve
  cases hr : e.ensureSession S now p with
  | mk result e₁ =>
  cases hr' : e'.ensureSession S now p with
  | mk result' e₁' =>
    rw [hr, hr'] at hresult hshare
    rw [hr] at hsound
    rw [hr'] at hsound'
    cases hresult
    cases result with
    | error err => exact ⟨rfl, hshare⟩
    | ok _ =>
      obtain ⟨hfound, hget⟩ := share_get hsound hsound' hshare now
      simp only
      rw [hfound]
      cases (e₁'.sessions.get p now).1 <;> exact ⟨rfl, hget⟩

theorem share_resolve_other (he : e.sessions.Sound) (hroom : e.Room q) (hq : p ≠ q) (S : Suite) (now : Nat) :
    (e.resolve S now q).2.share p = e.share p := by
  have hsound := (looked_ensureSession he S now q).sound
  have hshare := share_ensureSession_other he hroom hq S now
  unfold resolve
  cases hr : e.ensureSession S now q with
  | mk result e₁ =>
    rw [hr] at hsound hshare
    cases result with
    | error err => exact hshare
    | ok _ =>
      have hget := (share_get_other hsound hq now).trans hshare
      simp only
      cases (e₁.sessions.get q now).1 <;> exact hget

/-! ### Turns -/

theorem share_absorb (he : e.sessions.Sound) (p : PublicKey) (t : Turn) :
    (e.absorb p t).share p = { e.share p with
      item := (e.share p).item.map fun i => { i with value := t.session }
      jobs := (e.share p).jobs ++ t.deferred.map (p, ·)
      outbox := (e.share p).outbox ++ t.outbox.map (⟨p, ·⟩)
      events := (e.share p).events ++ t.events.filter fun v => v.peer = some p } := by
  simp [share, absorb, Cache.bounds_modify he, Cache.stored_modify he]

theorem share_absorb_other (he : e.sessions.Sound) (hq : p ≠ q) {t : Turn}
    (ht : t.events.filter (fun v => v.peer = some p) = []) : (e.absorb q t).share p = e.share p := by
  have hq' : q ≠ p := Ne.symm hq
  simp [share, absorb, Cache.bounds_modify he, Cache.stored_modify he, hq, hq', ht]

/-- **Work for a peer depends on the share of that peer alone.** -/
theorem share_converse {α : Type} (he : e.sessions.Sound) (he' : e'.sessions.Sound) (hroom : e.Room p)
    (hroom' : e'.Room p) (h : e.share p = e'.share p) (S : Suite) (now : Nat)
    (work : Context → Turn → Except ArmError α × Turn) (r : Entropy) :
    (e.converse S now p work r).1 = (e'.converse S now p work r).1 ∧
      (e.converse S now p work r).2.1.share p = (e'.converse S now p work r).2.1.share p := by
  have hsound := (looked_resolve he S now p).sound
  have hsound' := (looked_resolve he' S now p).sound
  obtain ⟨hresult, hshare⟩ := share_resolve he he' hroom hroom' h S now
  cases hr : (e.resolve S now p).1 with
  | error err =>
    rw [converse_error hr, converse_error (hresult.symm.trans hr)]
    exact ⟨rfl, hshare⟩
  | ok s =>
    rw [converse_ok hr, converse_ok (hresult.symm.trans hr), context_of_share h S now p]
    refine ⟨rfl, ?_⟩
    rw [share_absorb hsound, share_absorb hsound', hshare]

/-- **Work for a peer leaves the share of any other as it was.** -/
theorem share_converse_other {α : Type} (he : e.sessions.Sound) (hroom : e.Room q) (hq : p ≠ q) (S : Suite) (now : Nat)
    {work : Context → Turn → Except ArmError α × Turn}
    (hwork : ∀ x t, x.peer = q → ∃ h, Turn.Course x h t (work x t).2) (r : Entropy) :
    (e.converse S now q work r).2.1.share p = e.share p := by
  have hsound := (looked_resolve he S now q).sound
  have hshare := share_resolve_other he hroom hq S now
  cases hr : (e.resolve S now q).1 with
  | error err =>
    rw [converse_error hr]
    exact hshare
  | ok s =>
    rw [converse_ok hr]
    obtain ⟨h, hcourse⟩ := hwork (e.context S now q) { session := s, entropy := r } rfl
    exact (share_absorb_other hsound hq (hcourse.filter_events_other hq)).trans hshare

/-! ### Checks for renewal, sweeps and queues -/

theorem share_checkForRenew (he : e.sessions.Sound) (he' : e'.sessions.Sound) (h : e.share p = e'.share p) (S : Suite)
    (now : Nat) (r : Entropy) :
    (e.checkForRenew S now p r).1 = (e'.checkForRenew S now p r).1 ∧
      (e.checkForRenew S now p r).2.1.share p = (e'.checkForRenew S now p r).2.1.share p := by
  have hconfig : e.config = e'.config := congrArg Share.config h
  obtain ⟨hfound, hget⟩ := share_get he he' h now
  have hsound := he.get p now
  have hsound' := he'.get p now
  unfold checkForRenew
  by_cases hfs : e.config.forwardSecrecy = true
  · rw [if_pos hfs, if_pos (hconfig ▸ hfs)]
    cases hr : e.sessions.get p now with
    | mk found c =>
    cases hr' : e'.sessions.get p now with
    | mk found' c' =>
      rw [hr, hr'] at hfound hget
      rw [hr] at hsound
      rw [hr'] at hsound'
      cases hfound
      cases found with
      | none => exact ⟨rfl, hget⟩
      | some s =>
        simp only [context_of_share hget S now p, true_and]
        rw [share_absorb hsound, share_absorb hsound', hget]
  · rw [if_neg hfs, if_neg (hconfig ▸ hfs)]
    exact ⟨rfl, h⟩

theorem share_checkForRenew_other (he : e.sessions.Sound) (hq : p ≠ q) (S : Suite) (now : Nat) (r : Entropy) :
    (e.checkForRenew S now q r).2.1.share p = e.share p := by
  have hget := share_get_other he hq now
  have hsound := he.get q now
  unfold checkForRenew
  split
  · cases hr : e.sessions.get q now with
    | mk found c =>
      rw [hr] at hget hsound
      cases found with
      | none => exact hget
      | some s =>
        have hmoves := Turn.moves_checkForRenew ((e.withSessions c).context S now q) .silence
          { session := s, entropy := r }
        exact (share_absorb_other hsound hq (hmoves.filter_events_other hq)).trans hget
  · rfl

theorem evictIdleSessions_snd (e : Engine) (now : Nat) :
    (e.evictIdleSessions now).2 = (e.withSessions (e.sessions.takeExpired now).2).announce
      ((e.sessions.takeExpired now).1.flatMap fun (p, s) => dropped p s) := rfl

theorem share_evictIdleSessions (he : e.sessions.Sound) (he' : e'.sessions.Sound) (h : e.share p = e'.share p)
    (now : Nat) : (e.evictIdleSessions now).2.share p = (e'.evictIdleSessions now).2.share p := by
  have hbounds : e.sessions.bounds = e'.sessions.bounds := congrArg Share.bounds h
  have hitem : e.sessions.stored p = e'.sessions.stored p := congrArg Share.item h
  have hsweep : (e.withSessions (e.sessions.takeExpired now).2).share p =
      (e'.withSessions (e'.sessions.takeExpired now).2).share p := by
    apply share_withSessions_congr h
    · rw [Cache.bounds_takeExpired he, Cache.bounds_takeExpired he', hbounds]
    · rw [Cache.stored_takeExpired he, Cache.stored_takeExpired he', hitem]
      simp only [Cache.overdue_of_bounds hbounds]
  rw [evictIdleSessions_snd, evictIdleSessions_snd, share_announce, share_announce, hsweep, filter_flatMap_dropped,
    filter_flatMap_dropped, Cache.filter_takeExpired he, Cache.filter_takeExpired he', hitem]
  simp only [Cache.overdue_of_bounds hbounds]

end Engine

end Overlay
