import Overlay.Node.Basic
import Overlay.Wire.Frame

/-!
# How a node sends

While a node acts it may change its state, draw randomness, and do things in the world, one after the other
(`Action`): send datagrams, open or close its link, write frames on a stream, tell the application.  An
`Activity` is all of this so far.

An envelope for an address takes one of three ways (`transmit`): the stream of a child connected from there;
the link, if it is the address of a super peer and the link is open or due to be opened; else a datagram.
-/

namespace Overlay

/-- Something a node does in the world. -/
inductive Action where
  | datagram (addr : Address) (data : Bytes)
  | openLink (addr : Address)
  | closeLink
  | writeLink (data : Bytes)
  | writeClient (addr : Address) (data : Bytes)
  | tell (event : Event)
deriving DecidableEq

/-- Writes a frame on the stream of a child, or on the link. -/
def Action.write : Option Address → Bytes → Action
  | some addr => .writeClient addr
  | none => .writeLink

/-- What stays fixed while a node acts. -/
structure Surroundings where
  suite : Suite
  now : Nat
  transport : Address → Bytes → Except TransportError Unit
  /-- Whether the queue of a stream has room for a frame: that of the link, or of the stream of a child. -/
  room : Option Address → Bytes → Bool := fun _ _ => true

/-- What a node has done so far. -/
structure Activity where
  node : Node
  entropy : Entropy
  actions : List Action := []

namespace Activity

def act (a : Activity) (action : Action) : Activity := { a with actions := a.actions ++ [action] }

def tell (a : Activity) (events : List Event) : Activity :=
  { a with actions := a.actions ++ events.map .tell }

def withNode (a : Activity) (n : Node) : Activity := { a with node := n }

def withEngine {α : Type} (x : Surroundings)
    (work : Suite → Nat → Engine → Entropy → α × Engine × Entropy) (a : Activity) : α × Activity :=
  let (result, engine, entropy) := work x.suite x.now a.node.engine a.entropy
  (result, { a with node := { a.node with engine := engine }, entropy := entropy })

/-! ## The link -/

def closeLink (a : Activity) : Activity :=
  match a.node.link with
  | none => a
  | some _ =>
    ((a.withNode { a.node with link := none }).act .closeLink).tell
      (a.node.config.discovery.superPeers.keys.map fun peer => .pathRemoved peer .tcpFallback)

/-- Closes the link if it has ended. -/
def checkLink (a : Activity) : Activity :=
  if a.node.link.any (·.ended) then
    let a := a.closeLink
    a.withNode { a.node with fallback := a.node.fallback.map (·.connectionClosed) }
  else a

def openLink (served : Address) (a : Activity) : Activity :=
  match a.node.config.fallback.superPeerAddress with
  | none => a
  | some addr =>
    let peer := a.node.config.discovery.superPeerAt? served
    ((a.withNode { a.node with link := some { addr := addr } }).act (.openLink addr)).tell
      (peer.map fun peer => Event.pathAdded peer addr .tcpFallback).toList

/-- Makes the link ready for a message to the super peer at an address: one that has ended is closed, and one
that is due is opened. -/
def prepareLink (x : Surroundings) (served : Address) (a : Activity) : Activity :=
  let a := a.checkLink
  match a.node.link, a.node.fallback with
  | none, some f =>
    let (due, f) := f.onSend x.now
    let a := a.withNode { a.node with fallback := some f }
    if due then a.openLink served else a
  | _, _ => a

/-! ## The three ways of an envelope -/

/-- Writes a message on a stream as one frame, if its queue has room. -/
def sendFrame (x : Surroundings) (child : Option Address) (data : Bytes) (a : Activity) :
    Except TransportError Unit × Activity :=
  match Frame.encode data with
  | .ok frame =>
    if x.room child frame then (.ok (), a.act (.write child frame))
    else (.error .closed, a)
  | .error e => (.error e, a)

def sendDatagram (x : Surroundings) (addr : Address) (data : Bytes) (a : Activity) :
    Except TransportError Unit × Activity :=
  match x.transport addr data with
  | .ok () => (.ok (), a.act (.datagram addr data))
  | .error e => (.error e, a)

def transmit (x : Surroundings) (addr : Address) (data : Bytes) (a : Activity) :
    Except TransportError Unit × Activity :=
  if a.node.clients.contains addr then a.sendFrame x (some addr) data
  else if a.node.mayFallBackAt addr then
    let a := a.prepareLink x addr
    if a.node.link.isSome then a.sendFrame x none data else a.sendDatagram x addr data
  else a.sendDatagram x addr data

/-! ## Sending to a peer -/

/-- Where messages for a peer are sent: to the peer itself if it is a child of ours. -/
def route (x : Surroundings) (peer : PublicKey) (a : Activity) : Option Address × Activity :=
  match a.node.superPeerSide.bind (·.route peer) with
  | some addr => (some addr, a)
  | none =>
    let (addr, childSide) := a.node.childSide.route x.now peer
    (addr, a.withNode { a.node with childSide := childSide })

def sendEnvelope (x : Surroundings) (peer : PublicKey) (armed : ArmedMessage) (addr : Address)
    (a : Activity) : Except NodeError Unit × Activity :=
  let envelope : Envelope := {
    networkId := a.node.config.discovery.networkId
    hopCount := 0
    sender := a.node.address
    recipient := peer
    armed := armed }
  let (result, a) := a.transmit x addr envelope.encode
  (result.mapError .transport, a)

def sendMessage (x : Surroundings) (peer : PublicKey) (m : DiscoveryMessage) (addr : Address)
    (a : Activity) : Except NodeError Unit × Activity :=
  match a.withEngine x fun S now e r => e.armOutbound S now peer m.encode r with
  | (.error e, a) => (.error (.arm e), a)
  | (.ok armed, a) => a.sendEnvelope x peer armed addr

/-- Sends a payload to a peer.  One for ourselves arrives at once. -/
def sendApplication (x : Surroundings) (peer : PublicKey) (payload : Bytes) (a : Activity) :
    Except NodeError Unit × Activity :=
  if peer = a.node.address then (.ok (), a.tell [.messageReceived peer payload])
  else
    match a.route x peer with
    | (none, a) => (.error (.noRoute peer.short), a)
    | (some addr, a) => a.sendMessage x peer (.application payload) addr

end Activity

end Overlay
