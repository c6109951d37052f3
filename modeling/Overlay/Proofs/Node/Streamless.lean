import Overlay.Node.Step
import Overlay.Proofs.Discovery.SuperPeerSide
import Overlay.Proofs.Engine.Operation

/-!
# Events that are not about streams

Only the code around the link tells the application that a stream connection to a super peer has come or gone
(`Event.stream?`).  Discovery and the engine tell of other things: whatever they do, the events that wait in their
queues stay free of streams (`Streamless`), for each operation of a child (`streamless_heartbeat`,
`streamless_receive`), of a super peer (`streamless_greeted`, `streamless_checkStale`, `streamless_relay`), and of the
engine (`Endpoint.Course.streamless`).
-/

namespace Overlay

/-- Whether an event tells that a stream connection has come, or that it has gone. -/
def Event.stream? : Event → Option Bool
  | .pathAdded _ _ .tcpFallback => some true
  | .pathRemoved _ .tcpFallback => some false
  | _ => none

def Streamless (events : List Event) : Prop := ∀ e ∈ events, e.stream? = none

theorem streamless_nil : Streamless [] := fun _ h => absurd h List.not_mem_nil

theorem streamless_append {events more : List Event} :
    Streamless (events ++ more) ↔ Streamless events ∧ Streamless more := List.forall_mem_append

theorem streamless_singleton {e : Event} : Streamless [e] ↔ e.stream? = none := List.forall_mem_singleton

theorem streamless_map {α : Type} (l : List α) {tells : α → Event} (h : ∀ x, (tells x).stream? = none) :
    Streamless (l.map tells) := by
  intro e he
  obtain ⟨x, -, rfl⟩ := List.mem_map.1 he
  exact h x

/-! ### Children -/

namespace ChildSide

variable {c : ChildSide}

theorem streamless_chooseGateway (h : Streamless c.events) (now : Nat) : Streamless (c.chooseGateway now).events := by
  simp only [chooseGateway, announce]
  refine streamless_append.2 ⟨h, streamless_append.2 ⟨streamless_map _ fun _ => rfl, ?_⟩⟩
  split
  · exact streamless_nil
  · exact streamless_singleton.2 rfl

theorem streamless_heartbeat (h : Streamless c.events) (now : Nat) : Streamless (c.heartbeat now).events :=
  streamless_append.2 ⟨streamless_chooseGateway h now, streamless_map _ fun _ => rfl⟩

theorem streamless_acknowledgedBySuperPeer (h : Streamless c.events) (now : Nat) (sender : PublicKey) (time : UInt64)
    (addr : Address) : Streamless (c.acknowledgedBySuperPeer now sender time addr).2.events := by
  rcases c.acknowledgedBySuperPeer_cases now sender time addr with hno | ⟨r, -, hyes⟩
  · rw [hno]
    exact h
  · rw [hyes]
    refine streamless_chooseGateway (streamless_append.2 ⟨h, ?_⟩) now
    split
    · exact streamless_nil
    · exact streamless_singleton.2 rfl

theorem streamless_introduced (h : Streamless c.events) (now : Nat) (sender peer : PublicKey) (addr : Address) :
    Streamless (c.introduced now sender peer addr).2.events := by
  rcases c.introduced_cases now sender peer addr with hno | ⟨-, -, -, hyes⟩
  · rw [hno]
    exact h
  · rw [hyes]
    exact h

theorem streamless_greetedOnPath (h : Streamless c.events) (now : Nat) (sender : PublicKey) (time childrenTime : UInt64)
    (addr : Address) : Streamless (c.greetedOnPath now sender time childrenTime addr).2.events := by
  rcases c.greetedOnPath_cases now sender time childrenTime addr with hno | ⟨r, -, hyes⟩
  · rw [hno]
    exact h
  · rw [hyes]
    exact h

theorem streamless_acknowledgedOnPath (h : Streamless c.events) (now : Nat) (sender : PublicKey) (time : UInt64)
    (addr : Address) : Streamless (c.acknowledgedOnPath now sender time addr).2.events := by
  rcases c.acknowledgedOnPath_cases now sender time addr with hno | ⟨r, -, hyes⟩
  · rw [hno]
    exact h
  · rw [hyes]
    refine streamless_append.2 ⟨h, ?_⟩
    split
    · exact streamless_singleton.2 rfl
    · exact streamless_nil

theorem streamless_receive (h : Streamless c.events) (now : Nat) (sender : PublicKey) (m : DiscoveryMessage)
    (addr : Address) : Streamless (c.receive now sender m addr).2.events := by
  cases m with
  | acknowledgement time =>
    simp only [receive]
    split
    · exact streamless_acknowledgedBySuperPeer h now sender time addr
    · exact streamless_acknowledgedOnPath h now sender time addr
  | hello time childrenTime => exact streamless_greetedOnPath h now sender time childrenTime addr
  | unite peer at' => exact streamless_introduced h now sender peer at'
  | application _ => exact h

theorem events_route (c : ChildSide) (now : Nat) (peer : PublicKey) : (c.route now peer).2.events = c.events := by
  unfold route
  split <;> rfl

end ChildSide

/-! ### Super peers -/

namespace SuperPeerSide

variable {s : SuperPeerSide}

theorem streamless_greeted (h : Streamless s.events) (now : Nat) (sender : PublicKey) (time childrenTime : UInt64)
    (addr : Address) : Streamless (s.greeted now sender time childrenTime addr).2.events := by
  unfold greeted
  split
  · exact h
  · refine streamless_append.2 ⟨h, ?_⟩
    split
    · exact streamless_nil
    · exact streamless_singleton.2 rfl

theorem streamless_checkStale (h : Streamless s.events) (now : Nat) : Streamless (s.checkStale now).2.events :=
  streamless_append.2 ⟨h, streamless_map _ fun _ => rfl⟩

theorem streamless_relay (h : Streamless s.events) (now : Nat) (e : Envelope) :
    Streamless (s.relay now e).2.events := by
  obtain ⟨attempts, messages, hrelay, -⟩ := s.relay_snd now e
  rw [hrelay]
  exact h

end SuperPeerSide

/-! ### The engine -/

theorem streamless_changed (p : PublicKey) (s s' : EncryptionState) : Streamless (changed p s s') := by
  cases s <;> cases s' <;> simp [changed, Streamless, Event.stream?]

theorem Turn.Moves.streamless {x : Context} {h : Hearing} {t t' : Turn} (hm : Moves x h t t')
    (ht : Streamless t.events) : Streamless t'.events := by
  induction hm with
  | refl => exact ht
  | tail _ hm ih =>
    rw [hm.tells]
    exact streamless_append.2 ⟨ih, streamless_changed _ _ _⟩

theorem Engine.Fate.streamless {S : Suite} {e : Engine} {about : PublicKey → Prop} {q : PublicKey}
    {o o' : Option Session} {events : List Event} (hf : Fate S e about q o events o') : Streamless events := by
  cases hf with
  | keep => exact streamless_nil
  | drop s =>
    rw [dropped_eq]
    exact streamless_changed _ _ _
  | start _ _ _ => exact streamless_nil

namespace Endpoint

variable {S : Suite} {now : Nat} {sc : Scope} {w w' : Endpoint}

theorem Step.streamless (hs : Step S now sc w w') (h : Streamless w.engine.events) : Streamless w'.engine.events := by
  cases hs with
  | settle c events hc hb hf =>
    refine streamless_append.2 ⟨h, ?_⟩
    intro e he
    -- An event about a peer is among those about it, and an event about nobody tells of no path.
    cases hpeer : e.peer with
    | none =>
      cases e with
      | superPeerChanged _ => rfl
      | _ => cases hpeer
    | some q => exact (hf q).streamless e (List.mem_filter.2 ⟨he, decide_eq_true hpeer⟩)
  | lapse c p i hc hb hi hs hl => exact h
  | turn p s t hpeer hp hm => exact streamless_append.2 ⟨h, hm.streamless streamless_nil⟩
  | queue deferred outbox hd ho => exact h
  | handOut => exact streamless_nil

/-- Nothing that an engine does is told of streams. -/
theorem Course.streamless (hc : Course S now sc w w') (h : Streamless w.engine.events) :
    Streamless w'.engine.events := by
  obtain ⟨v, hs, hclose⟩ := hc
  rw [hclose.events]
  clear hclose
  induction hs with
  | refl => exact h
  | tail _ hs ih => exact hs.streamless ih

end Endpoint

end Overlay
