import Overlay.Engine

/-!
# Engines that share a clock

A laboratory for armed conversations: engines with names, one clock, and one source of randomness.  Messages
move only when they are delivered, so any order and any loss can be tried.  `settle` plays the undisturbed
course: every engine does its jobs, then all messages are delivered, round after round until nothing is left.
-/

namespace Overlay

/-- Named engines with one clock and one source of randomness. -/
structure Engines where
  members : List (String × Engine)
  now : Nat
  entropy : Entropy

namespace Engines

def start (members : List (String × KeyPair × ArmConfig)) (now : Nat) (entropy : Entropy) : Engines :=
  ⟨(members.map fun (name, identity, config) => (name, Engine.start identity config)).mergeSort
    fun a b => decide (a.1 ≤ b.1), now, entropy⟩

def get? (w : Engines) (name : String) : Option Engine := w.members.lookup name

def put (w : Engines) (name : String) (e : Engine) : Engines :=
  { w with members := w.members.map fun m => if m.1 = name then (name, e) else m }

def nameOf? (w : Engines) (address : PublicKey) : Option String :=
  (w.members.find? fun m => m.2.address = address).map (·.1)

def operate {α : Type} (S : Suite) (w : Engines) (name : String)
    (op : Suite → Nat → Engine → Entropy → α × Engine × Entropy) : Option (α × Engines) :=
  (w.get? name).map fun e =>
    let (result, e, entropy) := op S w.now e w.entropy
    (result, { w.put name e with entropy := entropy })

def collect (w : Engines) (name : String) : List Outgoing × Engines :=
  match w.get? name with
  | none => ([], w)
  | some e => let (messages, e) := e.drainOutbox; (messages, w.put name e)

/-- Starts an engine anew with the same identity. -/
def restart (w : Engines) (name : String) (config : Option ArmConfig) : Engines :=
  match w.get? name with
  | none => w
  | some e => w.put name (Engine.start e.identity (config.getD e.config))

/-- What has become of a message sent by one engine. -/
structure Delivery where
  sender : String
  /-- The engine at the message's address and its answer, if there is one. -/
  answer : Option (String × Except ArmError Disarmed)

def deliver (S : Suite) (w : Engines) (sender : String) (m : Outgoing) : Delivery × Engines :=
  let result := do
    let origin ← w.get? sender
    let target ← w.nameOf? m.peer
    let (answer, w) ← w.operate S target fun S now e r => e.disarmInbound S now origin.address m.armed r
    return (Delivery.mk sender (some (target, answer)), w)
  result.getD (⟨sender, none⟩, w)

/-- Hands every message in an engine's outbox to another engine, whatever its address. -/
def deliverAll (S : Suite) (w : Engines) (sender target : String) :
    List (Except ArmError Disarmed) × Engines :=
  let origin := (w.get? sender).map (·.address)
  let (messages, w) := w.collect sender
  messages.foldl (fun (answers, w) m =>
    match origin.bind fun o =>
        w.operate S target fun S now e r => e.disarmInbound S now o m.armed r with
    | some (answer, w) => (answers ++ [answer], w)
    | none => (answers, w)) ([], w)

def runDeferred (S : Suite) (w : Engines) : Engines :=
  w.members.foldl (fun w m => ((w.operate S m.1 fun S now e r => e.runDeferred S now r).map (·.2)).getD w) w

def collectAll (w : Engines) : List (String × Outgoing) × Engines :=
  w.members.foldl (fun (messages, w) m =>
    let (more, w) := w.collect m.1
    (messages ++ more.map (m.1, ·), w)) ([], w)

/-- At most `n` rounds of the undisturbed course. -/
def settle (S : Suite) : Nat → Engines → List (List Delivery) × Engines
  | 0, w => ([], w)
  | n + 1, w =>
    match (w.runDeferred S).collectAll with
    | ([], w) => ([], w)
    | (messages, w) =>
      let (round, w) := messages.foldl (fun (round, w) (sender, m) =>
        let (d, w) := w.deliver S sender m
        (round ++ [d], w)) ([], w)
      let (rounds, w) := settle S n w
      (round :: rounds, w)

def drainEvents (w : Engines) : List (String × List Event) × Engines :=
  (w.members.map fun (name, e) => (name, e.events),
    { w with members := w.members.map fun (name, e) => (name, e.drainEvents.2) })

end Engines

end Overlay
