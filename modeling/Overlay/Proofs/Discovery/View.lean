import Overlay.Event
import Overlay.Table

/-!
# What an application learns from events

An application that has nothing but the events keeps a `View`: the paths that were added and not removed since,
each with the address last told, and the super peer last told.  `View.replay` is what it sees after a list of
events.  An event is *expected* if it changes what it is about: a path that goes was there, a super peer becomes
reachable that was not, and the super peer in use becomes another one (`View.Expects`).

A part of discovery at work (`Watched`) is *faithful* to its events if, replayed from the empty view, all of them
were expected and the view now shows its state (`Watched.Faithful`).  Operations that report what they change
keep that (`Watched.Faithful.reported`), and so does handing events out.
-/

namespace Overlay

/-- What is known of paths and of the super peer in use. -/
structure View where
  paths : PublicKey → PathKind → Option Address
  gateway : Option PublicKey

namespace View

variable {v : View} {past later : List Event}

def empty : View := ⟨fun _ _ => none, none⟩

def setPath (v : View) (peer : PublicKey) (path : PathKind) (addr : Option Address) : View :=
  { v with paths := fun p k => if p = peer ∧ k = path then addr else v.paths p k }

def see (v : View) : Event → View
  | .pathAdded peer addr path => v.setPath peer path (some addr)
  | .pathRemoved peer path => v.setPath peer path none
  | .superPeerChanged peer => { v with gateway := peer }
  | .longTimeEncryption _ | .forwardSecrecyEncryption _ | .messageReceived _ _ => v

def replay (v : View) (events : List Event) : View := events.foldl see v

/-- A view expects an event that changes what it is about.  Only paths to super peers are not added twice:
other paths may move. -/
def Expects (v : View) : Event → Prop
  | .pathAdded peer _ path => path = .superPeer → v.paths peer .superPeer = none
  | .pathRemoved peer path => v.paths peer path ≠ none
  | .superPeerChanged peer => v.gateway ≠ peer
  | .longTimeEncryption _ | .forwardSecrecyEncryption _ | .messageReceived _ _ => True

/-- Each of some events is expected after those before it. -/
def Orderly (v : View) (events : List Event) : Prop :=
  ∀ past e later, events = past ++ e :: later → (v.replay past).Expects e

@[simp] theorem replay_nil (v : View) : v.replay [] = v := rfl

theorem replay_append (v : View) (past later : List Event) :
    v.replay (past ++ later) = (v.replay past).replay later := List.foldl_append

theorem orderly_nil (v : View) : v.Orderly [] := by
  intro past e later h
  cases past <;> cases h

theorem orderly_cons {e : Event} : v.Orderly (e :: later) ↔ v.Expects e ∧ (v.see e).Orderly later := by
  constructor
  · intro h
    refine ⟨h [] e later rfl, ?_⟩
    intro past e' rest hl
    exact h (e :: past) e' rest (congrArg (e :: ·) hl)
  · rintro ⟨he, h⟩ past e' rest hl
    cases past with
    | nil =>
      cases hl
      exact he
    | cons e₀ past =>
      cases hl
      exact h past e' rest rfl

theorem orderly_append : v.Orderly (past ++ later) ↔ v.Orderly past ∧ (v.replay past).Orderly later := by
  induction past generalizing v with
  | nil => exact ⟨fun h => ⟨orderly_nil v, h⟩, fun h => h.2⟩
  | cons e past ih =>
    rw [List.cons_append, orderly_cons, ih, orderly_cons, and_assoc]
    rfl

/-! ### Paths that come, and paths that go together -/

theorem paths_added (v : View) (peer : PublicKey) (addr : Address) (path : PathKind) (p : PublicKey)
    (k : PathKind) : (v.replay [.pathAdded peer addr path]).paths p k =
      if p = peer ∧ k = path then some addr else v.paths p k := rfl

theorem added_of_paths {events : List Event} {p : PublicKey} {k : PathKind} {addr : Address}
    (h : (v.replay events).paths p k = some addr) : v.paths p k = some addr ∨ .pathAdded p addr k ∈ events := by
  induction events generalizing v with
  | nil => exact Or.inl h
  | cons e events ih =>
    rcases ih h with hbefore | hlater
    · -- The event itself leaves the path alone, removes it, or adds it.
      cases e with
      | pathAdded peer addr' path =>
        simp only [see, setPath] at hbefore
        split at hbefore
        · rename_i hsame
          cases hbefore
          exact Or.inr (by rw [hsame.1, hsame.2]; exact List.mem_cons_self)
        · exact Or.inl hbefore
      | pathRemoved peer path =>
        simp only [see, setPath] at hbefore
        split at hbefore
        · cases hbefore
        · exact Or.inl hbefore
      | superPeerChanged _ | longTimeEncryption _ | forwardSecrecyEncryption _ | messageReceived _ _ =>
        exact Or.inl hbefore
    · exact Or.inr (List.mem_cons_of_mem e hlater)

theorem paths_congr {v' : View} {p : PublicKey} {k : PathKind} (events : List Event)
    (h : v.paths p k = v'.paths p k) : (v.replay events).paths p k = (v'.replay events).paths p k := by
  induction events generalizing v v' with
  | nil => exact h
  | cons e events ih =>
    have hsee : (v.see e).paths p k = (v'.see e).paths p k := by
      cases e with
      | pathAdded peer addr path => simp only [see, setPath, h]
      | pathRemoved peer path => simp only [see, setPath, h]
      | _ => exact h
    exact ih hsee

theorem gateway_congr {v' : View} (events : List Event) (h : v.gateway = v'.gateway) :
    (v.replay events).gateway = (v'.replay events).gateway := by
  induction events generalizing v v' with
  | nil => exact h
  | cons e events ih =>
    have hsee : (v.see e).gateway = (v'.see e).gateway := by
      cases e with
      | superPeerChanged peer => rfl
      | _ => exact h
    exact ih hsee

theorem paths_gone (v : View) (path : PathKind) (keys : List PublicKey) (p : PublicKey) (k : PathKind) :
    (v.replay (keys.map (.pathRemoved · path))).paths p k =
      if k = path ∧ p ∈ keys then none else v.paths p k := by
  induction keys generalizing v with
  | nil => simp
  | cons key keys ih =>
    have hsee : v.replay ((key :: keys).map (.pathRemoved · path)) =
        (v.setPath key path none).replay (keys.map (.pathRemoved · path)) := rfl
    rw [hsee, ih]
    by_cases hk : k = path
    · by_cases hp : p ∈ keys
      · simp [hk, hp]
      · by_cases he : p = key <;> simp [setPath, hk, hp, he]
    · simp [setPath, hk]

theorem gateway_gone (v : View) (path : PathKind) (keys : List PublicKey) :
    (v.replay (keys.map (.pathRemoved · path))).gateway = v.gateway := by
  induction keys generalizing v with
  | nil => rfl
  | cons key keys ih => exact ih (v.setPath key path none)

theorem orderly_gone {path : PathKind} {keys : List PublicKey} (hkeys : keys.Nodup)
    (h : ∀ p ∈ keys, v.paths p path ≠ none) : v.Orderly (keys.map (.pathRemoved · path)) := by
  induction keys generalizing v with
  | nil => exact orderly_nil v
  | cons key keys ih =>
    rw [List.nodup_cons] at hkeys
    rw [List.map_cons, orderly_cons]
    refine ⟨h key List.mem_cons_self, ih hkeys.2 ?_⟩
    intro p hp
    have hne : p ≠ key := fun he => hkeys.1 (he ▸ hp)
    simp only [see, setPath, hne, false_and, if_false]
    exact h p (List.mem_cons_of_mem key hp)

variable {ν : Type} {t : Table PublicKey ν} {path : PathKind} {gone : ν → Bool}

def removals (t : Table PublicKey ν) (path : PathKind) (gone : ν → Bool) : List Event :=
  (t.entries.filter fun e => gone e.2).map fun e => .pathRemoved e.1 path

theorem removals_eq (t : Table PublicKey ν) (path : PathKind) (gone : ν → Bool) :
    removals t path gone =
      ((t.entries.filter fun e => gone e.2).map Prod.fst).map (.pathRemoved · path) := by
  rw [List.map_map]
  rfl

theorem mem_lost {p : PublicKey} :
    p ∈ (t.entries.filter fun e => gone e.2).map Prod.fst ↔ (t.get? p).any gone = true := by
  rw [List.mem_map, Option.any_eq_true]
  constructor
  · rintro ⟨e, he, rfl⟩
    obtain ⟨hmem, hgone⟩ := List.mem_filter.1 he
    exact ⟨e.2, Table.mem_entries.1 hmem, hgone⟩
  · rintro ⟨x, hx, hgone⟩
    exact ⟨(p, x), List.mem_filter.2 ⟨Table.mem_entries.2 hx, hgone⟩, rfl⟩

theorem paths_removals (v : View) (t : Table PublicKey ν) (path : PathKind) (gone : ν → Bool)
    (p : PublicKey) (k : PathKind) :
    (v.replay (removals t path gone)).paths p k =
      if k = path ∧ (t.get? p).any gone = true then none else v.paths p k := by
  simp only [removals_eq, paths_gone, mem_lost]

theorem gateway_removals (v : View) (t : Table PublicKey ν) (path : PathKind) (gone : ν → Bool) :
    (v.replay (removals t path gone)).gateway = v.gateway := by
  rw [removals_eq, gateway_gone]

theorem orderly_removals (h : ∀ p x, t.get? p = some x → gone x = true → v.paths p path ≠ none) :
    v.Orderly (removals t path gone) := by
  rw [removals_eq]
  refine orderly_gone (t.nodup.sublist (List.filter_sublist.map Prod.fst)) ?_
  intro p hp
  obtain ⟨x, hx, hgone⟩ := (Option.any_eq_true _ _).1 (mem_lost.1 hp)
  exact h p x hx hgone

/-! Where a view has a path to every peer whose record is in use, and to no other one, peers may be lost. -/

variable {inUse : ν → Bool}

theorem orderly_losses (gone : ν → Bool) (h : ∀ p, (v.paths p path).isSome = (t.get? p).any inUse) :
    v.Orderly (removals t path fun x => gone x && inUse x) := by
  refine orderly_removals ?_
  intro p x hx hgone hnone
  rw [Bool.and_eq_true] at hgone
  have hshown := h p
  rw [hx, hnone, Option.any_some, hgone.2] at hshown
  cases hshown

theorem paths_losses (gone : ν → Bool) (h : ∀ p, (v.paths p path).isSome = (t.get? p).any inUse) (p : PublicKey) :
    ((v.replay (removals t path fun x => gone x && inUse x)).paths p path).isSome =
      (t.get? p).any fun x => !gone x && inUse x := by
  have hshown := h p
  rw [paths_removals]
  cases hx : t.get? p with
  | none =>
    rw [hx] at hshown
    simpa using hshown
  | some x =>
    rw [hx, Option.any_some] at hshown
    cases hg : gone x <;> cases hu : inUse x <;> simp [hg, hu, hshown]

end View

/-! ### Parts of discovery at work -/

/-- A part of discovery at work, with the events that it has handed out. -/
structure Watched (σ : Type) where
  side : σ
  handedOut : List Event := []

namespace Watched

variable {σ : Type} {pending : σ → List Event} {shows : View → σ → Prop} {s s' s'' : σ}

/-- The new events of a state tell how it differs from another one: they are expected by every view that shows
the other one, and turn it into a view that shows the state. -/
def Reports (pending : σ → List Event) (shows : View → σ → Prop) (s s' : σ) : Prop :=
  ∃ news, pending s' = pending s ++ news ∧ ∀ v : View, shows v s → v.Orderly news ∧ shows (v.replay news) s'

theorem Reports.trans (h : Reports pending shows s s') (h' : Reports pending shows s' s'') :
    Reports pending shows s s'' := by
  obtain ⟨news, hnews, h⟩ := h
  obtain ⟨more, hmore, h'⟩ := h'
  refine ⟨news ++ more, by rw [hmore, hnews, List.append_assoc], ?_⟩
  intro v hv
  obtain ⟨horder, hshows⟩ := h v hv
  obtain ⟨horder', hshows'⟩ := h' _ hshows
  exact ⟨View.orderly_append.2 ⟨horder, horder'⟩, by rwa [View.replay_append]⟩

/-- A change that views do not show needs no report. -/
theorem Reports.silent (hp : pending s' = pending s) (h : ∀ v, shows v s → shows v s') :
    Reports pending shows s s' :=
  ⟨[], by rw [hp, List.append_nil], fun v hv => ⟨v.orderly_nil, h v hv⟩⟩

theorem Reports.refl (s : σ) : Reports pending shows s s := .silent rfl fun _ h => h

/-- The new events of a state turn every view that shows another state into one that shows it. -/
def Updates (pending : σ → List Event) (shows : View → σ → Prop) (s s' : σ) : Prop :=
  ∃ news, pending s' = pending s ++ news ∧ ∀ v : View, shows v s → shows (v.replay news) s'

theorem Updates.trans (h : Updates pending shows s s') (h' : Updates pending shows s' s'') :
    Updates pending shows s s'' := by
  obtain ⟨news, hnews, h⟩ := h
  obtain ⟨more, hmore, h'⟩ := h'
  refine ⟨news ++ more, by rw [hmore, hnews, List.append_assoc], ?_⟩
  intro v hv
  rw [View.replay_append]
  exact h' _ (h v hv)

theorem Updates.silent (hp : pending s' = pending s) (h : ∀ v, shows v s → shows v s') :
    Updates pending shows s s' := ⟨[], by rw [hp, List.append_nil], h⟩

theorem Updates.refl (s : σ) : Updates pending shows s s := .silent rfl fun _ h => h

/-- All events so far, those that are still to be handed out last. -/
def told (pending : σ → List Event) (w : Watched σ) : List Event := w.handedOut ++ pending w.side

/-- Replayed from the empty view, all events were expected, and the view shows the state. -/
structure Faithful (pending : σ → List Event) (shows : View → σ → Prop) (w : Watched σ) : Prop where
  orderly : View.empty.Orderly (w.told pending)
  shown : shows (View.empty.replay (w.told pending)) w.side

def view (pending : σ → List Event) (w : Watched σ) : View := View.empty.replay (w.told pending)

theorem Updates.view {w : Watched σ} (hs : Updates pending shows w.side s) (h : shows (w.view pending) w.side) :
    shows (Watched.view pending { w with side := s }) s := by
  obtain ⟨news, hnews, hs⟩ := hs
  have htold : told pending { w with side := s } = w.told pending ++ news := by
    simp only [told, hnews, List.append_assoc]
  rw [Watched.view, htold, View.replay_append]
  exact hs _ h

theorem told_handOut {w : Watched σ} (hs : pending s = []) :
    told pending ⟨s, w.handedOut ++ pending w.side⟩ = w.told pending := by
  simp only [told, hs, List.append_nil]

theorem Faithful.reported {w : Watched σ} (h : w.Faithful pending shows)
    (hs : Reports pending shows w.side s) : Faithful pending shows { w with side := s } := by
  obtain ⟨news, hnews, hs⟩ := hs
  obtain ⟨horder, hshows⟩ := hs _ h.shown
  have htold : told pending { w with side := s } = w.told pending ++ news := by
    simp only [told, hnews, List.append_assoc]
  refine ⟨?_, ?_⟩
  · rw [htold]
    exact View.orderly_append.2 ⟨h.orderly, horder⟩
  · rw [htold, View.replay_append]
    exact hshows

theorem Faithful.handOut {w : Watched σ} (h : w.Faithful pending shows) (hs : pending s = [])
    (hshows : ∀ v, shows v w.side → shows v s) :
    Faithful pending shows ⟨s, w.handedOut ++ pending w.side⟩ := by
  have htold := told_handOut (w := w) hs
  exact ⟨htold ▸ h.orderly, htold ▸ hshows _ h.shown⟩

end Watched

end Overlay
