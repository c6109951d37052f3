import Overlay.Node.Activity

/-!
# What a node does

A node acts when something happens to it (`Stimulus`): its timer fires, the application has a payload to send,
or a message arrives.  It handles that, and then works off what has been queued (`flush`): the jobs of the
engine, discovery messages, and handshake messages, round after round until nothing is left.  Sending may
queue new jobs, so there is a bound on the rounds.
-/

namespace Overlay

/-- Something that happens to a node. -/
inductive Stimulus where
  | heartbeat
  | send (peer : PublicKey) (payload : Bytes)
  | datagram (data : Bytes) (sender : Address)
  | frame (data : Bytes) (sender : Address)
deriving DecidableEq

namespace Activity

/-! ## Receiving -/

/-- Hands an envelope for another node on, if it is for a child of ours.  A failure has no further
consequence. -/
def relay (x : Surroundings) (e : Envelope) (a : Activity) : Activity :=
  match a.node.superPeerSide with
  | none => a
  | some s =>
    let (decision, s) := s.relay x.now e
    let a := a.withNode { a.node with superPeerSide := some s }
    match decision with
    | .forward addr e => (a.transmit x addr e.encode).2
    | .own | .drop => a

/-- Handles a message from a peer.  Greetings that ask for a place as a child go to the super peer's side. -/
def handleMessage (x : Surroundings) (sender : PublicKey) (addr : Address) (m : DiscoveryMessage)
    (a : Activity) : Activity :=
  let n := a.node
  let asChild := a.withNode { n with childSide := (n.childSide.receive x.now sender m addr).2 }
  match m with
  | .application payload =>
    (a.withNode { n with childSide := n.childSide.applicationSeen x.now sender }).tell
      [.messageReceived sender payload]
  | .hello time childrenTime =>
    if childrenTime = 0 then asChild
    else
      a.withNode { n with
        superPeerSide := n.superPeerSide.map fun s =>
          (s.greeted x.now sender time childrenTime addr).2 }
  | _ => asChild

/-- Handles an envelope that came from an address.  Those of other networks, our own, and those that cannot be
decrypted are dropped. -/
def handleEnvelope (x : Surroundings) (e : Envelope) (addr : Address) (a : Activity) : Activity :=
  if e.networkId ≠ a.node.config.discovery.networkId || e.sender = a.node.address then a
  else if e.recipient ≠ a.node.address then a.relay x e
  else
    match a.withEngine x fun S now n r => n.disarmInbound S now e.sender e.armed r with
    | (.ok (.application payload), a) =>
      match DiscoveryMessage.decode payload with
      | .ok m => a.handleMessage x e.sender addr m
      | .error _ => a
    | (_, a) => a

def receive (x : Surroundings) (data : Bytes) (sender : Address) (a : Activity) : Activity :=
  match Envelope.decode data with
  | .ok e => a.handleEnvelope x e sender
  | .error _ => a

/-- Notes that a datagram has come from an address.  If it is that of a super peer, the link is no longer
needed. -/
def heardFrom (sender : Address) (a : Activity) : Activity :=
  match a.node.fallback with
  | none => a
  | some f =>
    let (done, f) := f.onInbound sender
    let a := a.withNode { a.node with fallback := some f }
    if done then a.closeLink else a

/-! ## Stimuli -/

def heartbeat (x : Surroundings) (a : Activity) : Activity :=
  let n := a.node
  (a.withNode { n with
    childSide := n.childSide.heartbeat x.now
    superPeerSide := n.superPeerSide.map fun s => (s.checkStale x.now).2
    engine := (n.engine.evictIdleSessions x.now).2 }).checkLink

def handle (x : Surroundings) (s : Stimulus) (a : Activity) : Except NodeError Unit × Activity :=
  match s with
  | .heartbeat => (.ok (), a.heartbeat x)
  | .send peer payload => a.sendApplication x peer payload
  | .datagram data sender => (.ok (), (a.heardFrom sender).receive x data sender)
  | .frame data sender => (.ok (), a.receive x data sender)

/-! ## Working off what is queued -/

def drained (n : Node) : Node :=
  { n with
    engine := n.engine.drainOutbox.2.drainEvents.2
    childSide := n.childSide.drainOutbox.2.drainEvents.2
    superPeerSide := n.superPeerSide.map fun s => s.drainOutbox.2.drainEvents.2 }

/-- Sends a message of the handshake, if there is a way to the peer.  A failure has no further consequence. -/
def sendOutgoing (x : Surroundings) (m : Outgoing) (a : Activity) : Activity :=
  match a.route x m.peer with
  | (some addr, a) => (a.sendEnvelope x m.peer m.armed addr).2
  | (none, a) => a

/-- One round, and whether it has left nothing to do. -/
def flushRound (x : Surroundings) (a : Activity) : Bool × Activity :=
  let (_, a) := a.withEngine x fun S now e r => e.runDeferred S now r
  let n := a.node
  let discovery := n.childSide.outbox ++ (n.superPeerSide.map (·.outbox)).getD []
  let handshake := n.engine.outbox
  let events := n.engine.events ++ n.childSide.events ++ (n.superPeerSide.map (·.events)).getD []
  let a := (a.withNode (drained n)).tell events
  if discovery.isEmpty && handshake.isEmpty then (a.node.engine.deferred.isEmpty, a)
  else
    let a := discovery.foldl (fun a m => (a.sendMessage x m.recipient m.message m.addr).2) a
    (false, handshake.foldl (fun a m => a.sendOutgoing x m) a)

def flushRounds (x : Surroundings) : Nat → Activity → Activity
  | 0, a => a
  | rounds + 1, a =>
    match a.flushRound x with
    | (true, a) => a
    | (false, a) => flushRounds x rounds a

/-- The most rounds that follow a stimulus. -/
def maxRounds : Nat := 16

/-- Works off what is queued. -/
def flush (x : Surroundings) (a : Activity) : Activity := flushRounds x maxRounds a

end Activity

/-- What a node does when something happens to it.  A node that was stopped does nothing. -/
def Node.step (x : Surroundings) (s : Stimulus) (n : Node) (r : Entropy) :
    Except NodeError Unit × Activity :=
  if n.running then
    let (result, a) := ({ node := n, entropy := r } : Activity).handle x s
    (result, a.flush x)
  else (.error .shutdown, { node := n, entropy := r })

end Overlay
