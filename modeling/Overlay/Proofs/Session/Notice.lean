import Mathlib.Data.List.Chain
import Overlay.Proofs.Session.Move

/-!
# What the application is told

An engine tells the application each time the protection of the traffic with a peer changes.  What it told
about a peer (`notices`) is true of a state when it alternates, beginning with the change to a short-lived
agreement, and ends with that state (`Truthful`).

Every move of a turn tells exactly the change that it makes (`Move.tells`), so turns keep what was told true
(`Moves.truthful`).  A turn that heard nothing can only go back to the long-time agreement (`Moves.fades`).
-/

namespace Overlay

def Event.encryption? (p : PublicKey) : Event → Option EncryptionState
  | .longTimeEncryption q => if q = p then some .longTime else none
  | .forwardSecrecyEncryption q => if q = p then some .forwardSecrecy else none
  | _ => none

def notices (p : PublicKey) (events : List Event) : List EncryptionState :=
  events.filterMap (Event.encryption? p)

/-- What was told alternates, beginning with the change to a short-lived agreement, and ends with the
state. -/
structure Truthful (told : List EncryptionState) (s : EncryptionState) : Prop where
  alternates : (EncryptionState.longTime :: told).IsChain (· ≠ ·)
  last : told.getLastD .longTime = s

def changed (p : PublicKey) (s s' : EncryptionState) : List Event :=
  if s = s' then []
  else match s' with
    | .longTime => [.longTimeEncryption p]
    | .forwardSecrecy => [.forwardSecrecyEncryption p]

theorem truthful_nil : Truthful [] .longTime := ⟨List.isChain_singleton _, rfl⟩

theorem notices_append (p : PublicKey) (a b : List Event) :
    notices p (a ++ b) = notices p a ++ notices p b := List.filterMap_append

theorem notices_changed (p : PublicKey) (s s' : EncryptionState) :
    notices p (changed p s s') = if s = s' then [] else [s'] := by
  cases s <;> cases s' <;> simp [notices, changed, Event.encryption?]

theorem notices_changed_other {p q : PublicKey} (h : q ≠ p) (s s' : EncryptionState) :
    notices q (changed p s s') = [] := by
  have h' : p ≠ q := Ne.symm h
  cases s <;> cases s' <;> simp [notices, changed, Event.encryption?, h']

/-- The events about a peer are all that matters for what it was told. -/
theorem notices_filter (p : PublicKey) (events : List Event) :
    notices p (events.filter fun e => e.peer = some p) = notices p events := by
  unfold notices
  rw [List.filterMap_filter]
  apply List.filterMap_congr
  intro e _
  cases e with
  | superPeerChanged peer => split <;> rfl
  | _ => simp [Event.peer, Event.encryption?]

theorem Truthful.unique {told : List EncryptionState} {s s' : EncryptionState} (h : Truthful told s)
    (h' : Truthful told s') : s = s' := h.last.symm.trans h'.last

theorem Truthful.change {told : List EncryptionState} {s : EncryptionState} (h : Truthful told s)
    (s' : EncryptionState) : Truthful (told ++ if s = s' then [] else [s']) s' := by
  by_cases hs : s = s'
  · rw [if_pos hs, List.append_nil, ← hs]
    exact h
  · rw [if_neg hs]
    refine ⟨?_, List.getLastD_concat⟩
    rw [← List.cons_append, List.isChain_append]
    refine ⟨h.alternates, List.isChain_singleton s', ?_⟩
    intro a ha b hb
    have hl : (EncryptionState.longTime :: told).getLast? = some s := by
      rw [List.getLast?_cons, ← List.getLastD_eq_getLast?, h.last]
    rw [hl, Option.mem_some_iff] at ha
    rw [List.head?_cons, Option.mem_some_iff] at hb
    rw [← ha, ← hb]
    exact hs

/-! ### Fading -/

/-- From one record and state to another without a change to a short-lived agreement: nothing was told,
or the way back to the long-time agreement. -/
inductive Fades : List EncryptionState → EncryptionState → List EncryptionState → EncryptionState → Prop
  | same (told : List EncryptionState) (s : EncryptionState) : Fades told s told s
  | lost (told : List EncryptionState) (s : EncryptionState) : Fades told s told .longTime
  | told (told : List EncryptionState) :
      Fades told .forwardSecrecy (told ++ [.longTime]) .longTime

theorem Fades.trans {told told' told'' : List EncryptionState} {s s' s'' : EncryptionState}
    (h : Fades told s told' s') (g : Fades told' s' told'' s'') : Fades told s told'' s'' := by
  cases h with
  | same => exact g
  | lost =>
    cases g with
    | same => exact .lost told s
    | lost => exact .lost told s
  | told =>
    cases g with
    | same => exact .told told
    | lost => exact .told told

theorem Fades.unchanged {told told' : List EncryptionState} {s : EncryptionState}
    (h : Fades told s told' .forwardSecrecy) : told' = told ∧ s = .forwardSecrecy := by
  cases h
  exact ⟨rfl, rfl⟩

theorem Fades.of_longTime {told told' : List EncryptionState} {s' : EncryptionState}
    (h : Fades told .longTime told' s') : told' = told ∧ s' = .longTime := by
  cases h <;> exact ⟨rfl, rfl⟩

theorem fades_changed (told : List EncryptionState) (s : EncryptionState) (p : PublicKey) :
    Fades told s (told ++ notices p (changed p s .longTime)) .longTime := by
  rw [notices_changed]
  cases s with
  | longTime =>
    rw [if_pos rfl, List.append_nil]
    exact .same told .longTime
  | forwardSecrecy =>
    rw [if_neg (by decide)]
    exact .told told

/-! ### Turns -/

namespace Turn

variable {x : Context} {h : Hearing} {t t' : Turn}

theorem resumeLongTime_tells (x : Context) (t : Turn) :
    (t.resumeLongTime x).events =
      t.events ++ changed x.peer t.session.state (t.resumeLongTime x).session.state := by
  unfold resumeLongTime
  split
  · rename_i hs
    rw [hs.1]
    rfl
  · simp [changed]

theorem promote_of_id {a : Agreement} {id : AgreementId} (ha : t.session.inactive = some a)
    (hi : a.id = some id) :
    (t.promote x id).2 =
      { t with
        session := { t.session with
          inactive := none
          initialized := (t.session.initialized.insert id
            (a.withStaleAt (after x.now x.config.expireAfter.millis)) x.now).cache
          active := some (a.withStaleAt (after x.now x.config.expireAfter.millis))
          lastRenewAttemptAt := some x.now
          state := .forwardSecrecy }
        events := t.events ++ changed x.peer t.session.state .forwardSecrecy } := by
  simp only [promote, ha, hi, if_true]
  cases hs : t.session.state with
  | longTime => rfl
  | forwardSecrecy => simp [withSession, changed]

/-- A move tells the change that it makes, and nothing else. -/
theorem Move.tells (hm : Move x h t t') :
    t'.events = t.events ++ changed x.peer t.session.state t'.session.state := by
  have hsame : ∀ s : EncryptionState, t.events = t.events ++ changed x.peer s s := by
    intro s
    simp [changed]
  cases hm with
  | defer work => exact hsame _
  | nonce => exact hsame _
  | offer hn => exact hsame _
  | post a m ha hm => exact hsame _
  | note exchange renewal => exact hsame _
  | bond a key b hk ha hb => exact hsame _
  | promote a id hid ha hi => rw [promote_of_id ha hi]
  | consult id => exact hsame _
  | evict id => exact resumeLongTime_tells x _
  | retire id => exact resumeLongTime_tells x _

theorem Moves.truthful {told : List EncryptionState} (hm : Moves x h t t')
    (ht : Truthful (told ++ notices x.peer t.events) t.session.state) :
    Truthful (told ++ notices x.peer t'.events) t'.session.state := by
  induction hm with
  | refl => exact ht
  | tail _ hm ih =>
    rw [hm.tells, notices_append, notices_changed, ← List.append_assoc]
    exact ih.change _

/-- Turns tell nothing about other peers. -/
theorem Moves.notices_other {q : PublicKey} (hm : Moves x h t t') (hq : q ≠ x.peer) :
    notices q t'.events = notices q t.events := by
  induction hm with
  | refl => rfl
  | tail _ hm ih => rw [hm.tells, notices_append, notices_changed_other hq, List.append_nil, ih]

theorem resumeLongTime_state (x : Context) (t : Turn) :
    (t.resumeLongTime x).session.state = t.session.state ∨
      (t.resumeLongTime x).session.state = .longTime := by
  unfold resumeLongTime
  split
  · exact Or.inr rfl
  · exact Or.inl rfl

/-- A turn that heard nothing can only go back to the long-time agreement. -/
theorem Moves.fades {told : List EncryptionState} (hm : Moves x .silence t t') :
    Fades (told ++ notices x.peer t.events) t.session.state
      (told ++ notices x.peer t'.events) t'.session.state := by
  induction hm with
  | refl => exact .same _ _
  | @tail t₁ t₂ _ hm ih =>
    have hstate : t₂.session.state = t₁.session.state ∨ t₂.session.state = .longTime := by
      cases hm with
      | promote a id hid ha hi => exact hid.elim
      | evict id => exact resumeLongTime_state x _
      | retire id => exact resumeLongTime_state x _
      | _ => exact Or.inl rfl
    apply ih.trans
    rw [hm.tells, notices_append, ← List.append_assoc]
    rcases hstate with hs | hs
    · rw [hs, notices_changed, if_pos rfl, List.append_nil]
      exact .same _ _
    · rw [hs]
      exact fades_changed _ _ _

end Turn

end Overlay
