import Overlay.Session.Turn

/-!
# The engine

An engine holds the armed conversations of one identity, one session for each peer.  An operation looks
the session of its peer up, or starts one (`resolve`), lets a `Turn` of that session do the work, and takes
in what the turn leaves behind (`converse`): jobs, messages and events are queued in order.  No operation
waits for a job; `runDeferred` does them all later.

The cache bounds the sessions in number and idle time.  Where a session is found expired, or has to leave,
while it was protected by a short-lived agreement, the application is told.
-/

namespace Overlay

structure Outgoing where
  peer : PublicKey
  armed : ArmedMessage
deriving DecidableEq

/-- The armed conversations of one identity. -/
structure Engine where
  identity : KeyPair
  config : ArmConfig
  sessions : Cache PublicKey Session
  deferred : List (PublicKey × Deferred)
  outbox : List Outgoing
  events : List Event

namespace Engine

def start (identity : KeyPair) (config : ArmConfig) : Engine where
  identity := identity
  config := config
  sessions := .empty .afterAccess config.sessionExpireAfter.bound? config.maxSessions
  deferred := []
  outbox := []
  events := []

def address (e : Engine) : PublicKey := e.identity.publicKey

/-- The session with a peer, if it has not expired. -/
def session (e : Engine) (peer : PublicKey) (now : Nat) : Option Session := e.sessions.peek peer now

/-- The events due when a session is discarded. -/
def dropped (peer : PublicKey) (s : Session) : List Event :=
  if s.state = .forwardSecrecy then [.longTimeEncryption peer] else []

def announce (e : Engine) (events : List Event) : Engine := { e with events := e.events ++ events }

def freshSession (S : Suite) (e : Engine) (peer : PublicKey) : Except ArmError Session :=
  match Agreement.longTime S e.identity peer with
  | .error err => .error err
  | .ok a => Session.ofLongTime a e.config.maxAgreements e.config.retention

/-- Makes sure that a session with a peer is stored.  An expired one is replaced, and the least recently
used one leaves when there are too many. -/
def ensureSession (S : Suite) (now : Nat) (peer : PublicKey) (e : Engine) :
    Except ArmError Unit × Engine :=
  if e.sessions.contains peer now then (.ok (), e)
  else
    let (idle, sessions) := e.sessions.remove peer
    let e := { e with sessions := sessions }.announce ((idle.map (dropped peer)).getD [])
    match e.freshSession S peer with
    | .error err => (.error err, e)
    | .ok s =>
      let put := e.sessions.insert peer s now
      let gone := (put.evicted.map fun (p, s) => dropped p s).getD []
      (.ok (), { e with sessions := put.cache }.announce gone)

/-- The session with a peer, which is started if there is none. -/
def resolve (S : Suite) (now : Nat) (peer : PublicKey) (e : Engine) : Except ArmError Session × Engine :=
  match e.ensureSession S now peer with
  | (.error err, e) => (.error err, e)
  | (.ok (), e) =>
    let (found, sessions) := e.sessions.get peer now
    let e := { e with sessions := sessions }
    match found with
    | some s => (.ok s, e)
    | none => (.error (.invalidArgument (.noSession peer)), e)

def context (S : Suite) (e : Engine) (now : Nat) (peer : PublicKey) : Context :=
  ⟨S, e.config, e.identity, peer, now⟩

def absorb (e : Engine) (peer : PublicKey) (t : Turn) : Engine :=
  { e with
    sessions := e.sessions.modify peer fun _ => t.session
    deferred := e.deferred ++ t.deferred.map (peer, ·)
    outbox := e.outbox ++ t.outbox.map (⟨peer, ·⟩)
    events := e.events ++ t.events }

/-- Lets a turn of the session with a peer do some work. -/
def converse {α : Type} (S : Suite) (now : Nat) (peer : PublicKey)
    (work : Context → Turn → Except ArmError α × Turn) (e : Engine) (r : Entropy) :
    Except ArmError α × Engine × Entropy :=
  match e.resolve S now peer with
  | (.error err, e) => (.error err, e, r)
  | (.ok s, e) =>
    let (result, t) := work (e.context S now peer) { session := s, entropy := r }
    (result, e.absorb peer t, t.entropy)

/-! ## Operations -/

def armOutbound (S : Suite) (now : Nat) (peer : PublicKey) (payload : Bytes) (e : Engine) (r : Entropy) :
    Except ArmError ArmedMessage × Engine × Entropy :=
  e.converse S now peer (fun x t => t.armOutbound x payload) r

def disarmInbound (S : Suite) (now : Nat) (peer : PublicKey) (m : ArmedMessage) (e : Engine) (r : Entropy) :
    Except ArmError Disarmed × Engine × Entropy :=
  e.converse S now peer (fun x t => t.disarmInbound x m) r

def doKeyExchange (S : Suite) (now : Nat) (peer : PublicKey) (e : Engine) (r : Entropy) :
    Except ArmError Unit × Engine × Entropy :=
  if e.config.forwardSecrecy then e.converse S now peer (fun x t => t.doKeyExchange x) r
  else (.ok (), e, r)

def receivedKeyExchange (S : Suite) (now : Nat) (peer key : PublicKey) (e : Engine) (r : Entropy) :
    Except ArmError Unit × Engine × Entropy :=
  if key = peer then (.error (.invalidArgument .longTimeKeyExchanged), e, r)
  else e.converse S now peer (fun x t => t.receivedKeyExchange x key) r

def sendAck (S : Suite) (now : Nat) (peer : PublicKey) (e : Engine) (r : Entropy) :
    Except ArmError Unit × Engine × Entropy :=
  e.converse S now peer (fun x t => t.sendAck x) r

/-- Promotes the inactive agreement with a peer if it has the given name, and tells whether it has. -/
def receivedAck (S : Suite) (now : Nat) (peer : PublicKey) (id : AgreementId) (e : Engine) (r : Entropy) :
    Except ArmError Bool × Engine × Entropy :=
  e.converse S now peer (fun x t => let (promoted, t) := t.promote x id; (.ok promoted, t)) r

/-- Retires or renews the active agreement with a peer.  Nothing is done where there is no session. -/
def checkForRenew (S : Suite) (now : Nat) (peer : PublicKey) (e : Engine) (r : Entropy) :
    Except ArmError Unit × Engine × Entropy :=
  if e.config.forwardSecrecy then
    let (found, sessions) := e.sessions.get peer now
    let e := { e with sessions := sessions }
    match found with
    | none => (.ok (), e, r)
    | some s =>
      let (result, t) := Turn.checkForRenew (e.context S now peer) { session := s, entropy := r }
      (result, e.absorb peer t, t.entropy)
  else (.ok (), e, r)

def defer (e : Engine) (peer : PublicKey) (work : Deferred) : Engine :=
  { e with deferred := e.deferred ++ [(peer, work)] }

/-- Does one job; a failure has no further consequence. -/
def perform (S : Suite) (now : Nat) (state : Engine × Entropy) (job : PublicKey × Deferred) :
    Engine × Entropy :=
  match job.2 with
  | .checkRenewal => (state.1.checkForRenew S now job.1 state.2).2
  | .keyExchange => (state.1.doKeyExchange S now job.1 state.2).2

def runDeferred (S : Suite) (now : Nat) (e : Engine) (r : Entropy) : Nat × Engine × Entropy :=
  (e.deferred.length, e.deferred.foldl (perform S now) ({ e with deferred := [] }, r))

def evictIdleSessions (now : Nat) (e : Engine) : Nat × Engine :=
  let (gone, sessions) := e.sessions.takeExpired now
  (gone.length, { e with sessions := sessions }.announce (gone.flatMap fun (p, s) => dropped p s))

def drainOutbox (e : Engine) : List Outgoing × Engine := (e.outbox, { e with outbox := [] })

def drainEvents (e : Engine) : List Event × Engine := (e.events, { e with events := [] })

end Engine

end Overlay
