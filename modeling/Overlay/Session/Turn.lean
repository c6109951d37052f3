import Overlay.Entropy
import Overlay.Event
import Overlay.Session.Basic
import Overlay.Wire.ArmMessage
import Overlay.Wire.ArmedMessage

/-!
# Turns of a conversation

Every operation of an armed conversation concerns one peer at one moment (`Context`).  A `Turn` is all that it
may change: the session with that peer, the randomness it draws, and what it leaves behind: jobs for later,
protocol messages to send, and events.  An operation that fails keeps the changes made before it failed.

The handshake.  Each end sends the key of its inactive agreement under the long-time keys; on receiving the
peer's key it bonds its inactive agreement with it, and acknowledges the agreement's name.  An
acknowledgement of that name, or the first message under it, promotes the inactive agreement (`promote`): it
can decrypt from now on, and it encrypts until its deadline.
-/

namespace Overlay

inductive Deferred where
  /-- Retire the active agreement if it is stale, or renew it. -/
  | checkRenewal
  | keyExchange
deriving DecidableEq

/-- What a received message amounts to. -/
inductive Disarmed where
  | application (payload : Bytes)
  /-- A message of the handshake, which has been handled. -/
  | consumed
deriving DecidableEq

/-- What stays fixed during an operation: who we are, with whom we talk, how, and when. -/
structure Context where
  suite : Suite
  config : ArmConfig
  own : KeyPair
  peer : PublicKey
  now : Nat

/-- What an operation may change. -/
structure Turn where
  session : Session
  entropy : Entropy
  deferred : List Deferred := []
  outbox : List ArmedMessage := []
  events : List Event := []

/-- The data that bind a ciphertext to both ends and to the agreement. -/
def associatedData (sender recipient : PublicKey) (id : AgreementId) : Bytes :=
  sender.toBytes ++ recipient.toBytes ++ id.toBytes

/-- Whether more than `interval` has passed since the last time, if there was one. -/
def intervalElapsed (last : Option Nat) (now interval : Nat) : Bool :=
  last.all fun t => interval < now - t

namespace Turn

def defer (t : Turn) (work : Deferred) : Turn := { t with deferred := t.deferred ++ [work] }

def post (t : Turn) (m : ArmedMessage) : Turn := { t with outbox := t.outbox ++ [m] }

def announce (t : Turn) (e : Event) : Turn := { t with events := t.events ++ [e] }

def withSession (t : Turn) (s : Session) : Turn := { t with session := s }

/-! ## Sealing and opening -/

def sealMessage (x : Context) (id : AgreementId) (pair : SessionPair) (m : ArmMessage) (t : Turn) :
    Except ArmError ArmedMessage × Turn :=
  let (nonce, entropy) := t.entropy.drawNonce
  let data := associatedData x.own.publicKey x.peer id
  let result := match x.suite.encrypt pair.tx nonce data m.encode with
    | some ciphertext => .ok ⟨id, nonce, ciphertext⟩
    | none => .error (.crypto .encryptionFailed)
  (result, { t with entropy := entropy })

def sealLongTime (x : Context) (m : ArmMessage) (t : Turn) : Except ArmError ArmedMessage × Turn :=
  t.sealMessage x t.session.longTimeId t.session.longTimePair m

def openMessage (x : Context) (pair : SessionPair) (m : ArmedMessage) : Except ArmError ArmMessage :=
  let data := associatedData x.peer x.own.publicKey m.agreementId
  match x.suite.decrypt pair.rx m.nonce data m.ciphertext with
  | none => .error (.crypto .decryptionFailed)
  | some plaintext =>
    match ArmMessage.decode plaintext with
    | .ok content => .ok content
    | .error e => .error (.codec e)

/-! ## The handshake -/

/-- Our key of the inactive agreement, which is created first if there is none. -/
def ensureInactive (x : Context) (t : Turn) : PublicKey × Turn :=
  match t.session.inactive with
  | some a => (a.keyPair.publicKey, t)
  | none =>
    let (secret, entropy) := t.entropy.drawSecret
    let keyPair := x.suite.keyPair secret
    let session := { t.session with inactive := some (.ofKeyPair keyPair) }
    (keyPair.publicKey, { t with session := session, entropy := entropy })

/-- Sends our key of the inactive agreement and notes the time. -/
def sendKeyExchange (x : Context) (key : PublicKey) (t : Turn) : Except ArmError Unit × Turn :=
  match t.sealLongTime x (.keyExchange key) with
  | (.ok m, t) =>
    (.ok (), (t.post m).withSession { t.session with lastKeyExchangeAt := some x.now })
  | (.error e, t) => (.error e, t)

/-- Makes sure of an inactive agreement and sends our key of it, unless a key was sent within the retry
interval. -/
def doKeyExchange (x : Context) (t : Turn) : Except ArmError Unit × Turn :=
  let (key, t) := t.ensureInactive x
  if intervalElapsed t.session.lastKeyExchangeAt x.now x.config.retryInterval.millis then
    t.sendKeyExchange x key
  else (.ok (), t)

def sendAck (x : Context) (t : Turn) : Except ArmError Unit × Turn :=
  match t.session.inactiveId with
  | none => (.error .noInactiveAgreement, t)
  | some id =>
    match t.sealLongTime x (.acknowledgement id) with
    | (.ok m, t) => (.ok (), t.post m)
    | (.error e, t) => (.error e, t)

def bondInactive (x : Context) (key : PublicKey) (t : Turn) : Except ArmError Unit × Turn :=
  match t.session.inactive with
  | none => (.ok (), t)
  | some a =>
    let (result, a) := a.setRecipient x.suite key
    (result, t.withSession { t.session with inactive := some a })

/-- Takes in the peer's key: bonds the inactive agreement with it, answers with our own key, and
acknowledges. -/
def receivedKeyExchange (x : Context) (key : PublicKey) (t : Turn) : Except ArmError Unit × Turn :=
  if key = x.peer then (.error (.invalidArgument .longTimeKeyExchanged), t)
  else
    let (_, t) := t.ensureInactive x
    match t.bondInactive x key with
    | (.error e, t) => (.error e, t)
    | (.ok (), t) =>
      if x.config.forwardSecrecy then
        match t.doKeyExchange x with
        | (.error e, t) => (.error e, t)
        | (.ok (), t) => t.sendAck x
      else t.sendAck x

/-- Promotes the inactive agreement if it has the given name, and tells whether it has. -/
def promote (x : Context) (id : AgreementId) (t : Turn) : Bool × Turn :=
  match t.session.inactive with
  | none => (false, t)
  | some a =>
    if a.id = some id then
      let s := t.session
      let a := a.withStaleAt (after x.now x.config.expireAfter.millis)
      let t := t.withSession { s with
        inactive := none
        initialized := (s.initialized.insert id a x.now).cache
        active := some a
        lastRenewAttemptAt := some x.now
        state := .forwardSecrecy }
      (true, if s.state = .longTime then t.announce (.forwardSecrecyEncryption x.peer) else t)
    else (false, t)

/-- Goes back to the long-time agreement if no short-lived one is active. -/
def resumeLongTime (x : Context) (t : Turn) : Turn :=
  if t.session.state = .forwardSecrecy ∧ t.session.active = none then
    (t.withSession { t.session with state := .longTime }).announce (.longTimeEncryption x.peer)
  else t

/-- Drops a stale agreement, and clears the active slot if it holds that agreement. -/
def evictAgreement (x : Context) (id : AgreementId) (t : Turn) : Turn :=
  let s := t.session
  let t := t.withSession { s with
    initialized := (s.initialized.remove id).2
    active := s.active.filter fun a => a.id ≠ some id }
  t.resumeLongTime x

/-- Retires the active agreement if it is stale or no longer kept for decryption.  Otherwise starts a
renewal once it is renewable and the retry interval has passed since the last attempt. -/
def checkForRenew (x : Context) (t : Turn) : Except ArmError Unit × Turn :=
  let s := t.session
  match s.active with
  | none => (.ok (), t)
  | some a =>
    let tracked := a.id.any fun id => s.initialized.contains id x.now
    if a.isStale x.now || !tracked then
      let initialized := match a.id with
        | some id => (s.initialized.remove id).2
        | none => s.initialized
      (.ok (), (t.withSession { s with active := none, initialized := initialized }).resumeLongTime x)
    else if a.isRenewable x.now
        && intervalElapsed s.lastRenewAttemptAt x.now x.config.retryInterval.millis then
      let (key, t) := (t.withSession { s with lastRenewAttemptAt := some x.now }).ensureInactive x
      t.sendKeyExchange x key
    else (.ok (), t)

/-! ## Messages -/

/-- The bond that encrypts now, if a short-lived agreement is fit for it. -/
def activeBond (x : Context) (s : Session) : Option Bond :=
  (s.active.filter fun a => !a.isStale x.now).bind (·.bond)

/-- Encrypts a payload for the peer under the active agreement; without one, under the long-time agreement,
and asks for a key exchange. -/
def armOutbound (x : Context) (payload : Bytes) (t : Turn) : Except ArmError ArmedMessage × Turn :=
  let t := if x.config.forwardSecrecy then t.defer .checkRenewal else t
  match activeBond x t.session with
  | some bond => t.sealMessage x bond.id bond.pair (.application payload)
  | none =>
    let t := if x.config.forwardSecrecy then t.defer .keyExchange else t
    t.sealLongTime x (.application payload)

/-- Decrypts a message from the peer with the agreement it names, and tells whether that is the long-time
one.  A message under the inactive agreement promotes it; one under a stale agreement is its last. -/
def openInbound (x : Context) (m : ArmedMessage) (t : Turn) :
    Except ArmError (ArmMessage × Bool) × Turn :=
  let s := t.session
  let id := m.agreementId
  if id = s.longTimeId then
    ((openMessage x s.longTimePair m).map (·, true), t)
  else
    let (found, initialized) := s.initialized.get id x.now
    let t := t.withSession { s with initialized := initialized }
    match found with
    | some a =>
      match a.pair with
      | none => (.error (.unknownAgreementId id), t)
      | some pair =>
        match openMessage x pair m with
        | .error e => (.error e, t)
        | .ok content => (.ok (content, false), if a.isStale x.now then t.evictAgreement x id else t)
    | none =>
      if s.inactiveId = some id then
        let (_, t) := t.promote x id
        let (kept, initialized) := t.session.initialized.get id x.now
        let t := t.withSession { t.session with initialized := initialized }
        match kept.bind (·.pair) with
        | none => (.error (.unknownAgreementId id), t)
        | some pair => ((openMessage x pair m).map (·, false), t)
      else
        (.error (.unknownAgreementId id), if x.config.forwardSecrecy then t.defer .keyExchange else t)

/-- Handles the content of a message from the peer.  Keys count only under the long-time agreement. -/
def handle (x : Context) (content : ArmMessage) (longTime : Bool) (t : Turn) :
    Except ArmError Disarmed × Turn :=
  match content with
  | .application payload => (.ok (.application payload), t)
  | .keyExchange key =>
    if longTime && x.config.forwardSecrecy then
      let (result, t) := t.receivedKeyExchange x key
      (result.map fun _ => .consumed, t)
    else (.ok .consumed, t)
  | .acknowledgement id =>
    if x.config.forwardSecrecy then
      let (_, t) := t.promote x id
      (.ok .consumed, t)
    else (.ok .consumed, t)

def disarmInbound (x : Context) (m : ArmedMessage) (t : Turn) : Except ArmError Disarmed × Turn :=
  let t := if x.config.forwardSecrecy then t.defer .checkRenewal else t
  match t.openInbound x m with
  | (.error e, t) => (.error e, t)
  | (.ok (content, longTime), t) => t.handle x content longTime

end Turn

end Overlay
