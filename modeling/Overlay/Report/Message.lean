import Overlay.Discovery.ChildSide
import Overlay.Discovery.SuperPeerSide
import Overlay.Engine
import Overlay.Report.Basic

/-!
# Reports of messages, events and failures

A failure is reported by its kind, a path through the layers that it went through, and its message.  In a
list of events, removed paths that follow each other are reported in the order of their peers, and greetings
of a heartbeat likewise, because a table's order means nothing to a reader.
-/

namespace Overlay

/-! ## Failures -/

class Failure (ε : Type) where
  kind : ε → String
  message : ε → String

instance : Failure CryptoError where
  message := CryptoError.message
  kind
    | .keyGeneration => "KeyGeneration"
    | .encryptionFailed => "EncryptionFailed"
    | .decryptionFailed => "DecryptionFailed"
    | .keyDerivationFailed => "KeyDerivationFailed"
    | .invalidKey _ => "InvalidKey"

instance : Failure CodecError where
  message := CodecError.message
  kind
    | .tooShort _ _ => "TooShort"
    | .unknownMessageType _ => "UnknownMessageType"
    | .badMagic _ => "BadMagic"
    | .invalidAddress => "InvalidAddress"
    | .invalidKey => "InvalidKey"
    | .invalidAgreementId => "InvalidAgreementId"

instance : Failure ArmError where
  message := ArmError.message
  kind
    | .crypto e => "Crypto." ++ Failure.kind e
    | .unknownAgreementId _ => "UnknownAgreementId"
    | .invalidArgument _ => "InvalidArgument"
    | .codec e => "Codec." ++ Failure.kind e
    | .noInactiveAgreement => "NoInactiveAgreement"

instance : Failure TransportError where
  message := TransportError.message
  kind
    | .closed => "Closed"
    | .frameTooLarge _ => "FrameTooLarge"

instance : Failure NodeError where
  message := NodeError.message
  kind
    | .arm e => "Arm." ++ Failure.kind e
    | .crypto e => "Crypto." ++ Failure.kind e
    | .codec e => "Codec." ++ Failure.kind e
    | .transport e => "Transport." ++ Failure.kind e
    | .config _ => "Config"
    | .noRoute _ => "NoRoute"
    | .shutdown => "Shutdown"

def Report.failure (kind message : String) : Report :=
  .record [("error", .text kind), ("message", .text message)]

instance {ε α : Type} [Failure ε] [Reportable α] : Reportable (Except ε α) where
  report
    | .ok x => .record [("ok", report x)]
    | .error e => .failure (Failure.kind e) (Failure.message e)

/-! ## Messages -/

instance : Reportable ArmMessage where
  report
    | .application p => .record [("type", .text "application"), ("payload", report p)]
    | .keyExchange k => .record [("type", .text "key_exchange"), ("key", report k)]
    | .acknowledgement x => .record [("type", .text "ack"), ("id", report x)]

instance : Reportable ArmedMessage :=
  ⟨fun m => .record [("id", report m.agreementId), ("nonce", report m.nonce),
    ("ciphertext", report m.ciphertext)]⟩

instance : Reportable DiscoveryMessage where
  report
    | .hello t c => .record [("type", .text "hello"), ("time", report t), ("children_time", report c)]
    | .acknowledgement t => .record [("type", .text "ack"), ("time", report t)]
    | .unite k a => .record [("type", .text "unite"), ("address", report k), ("socket_addr", report a)]
    | .application p => .record [("type", .text "application"), ("payload", report p)]

instance : Reportable Envelope :=
  ⟨fun e => .record [("network_id", report e.networkId), ("hop_count", report e.hopCount),
    ("sender", report e.sender), ("recipient", report e.recipient), ("armed", report e.armed)]⟩

instance : Reportable Outbound :=
  ⟨fun m => .record [("recipient", report m.recipient), ("addr", report m.addr),
    ("message", report m.message)]⟩

instance : Reportable Outgoing :=
  ⟨fun m => .record [("peer", report m.peer), ("armed", report m.armed)]⟩

instance : Reportable Disarmed where
  report
    | .application p => .record [("application", report p)]
    | .consumed => .text "consumed"

instance : Reportable RelayDecision where
  report
    | .own => .text "local"
    | .drop => .text "drop"
    | .forward a e => .record [("forward", report a), ("envelope", report e)]

/-! ## Events -/

instance : Reportable PathKind where
  report
    | .superPeer => .text "SuperPeer"
    | .children => .text "Children"
    | .traversing => .text "Traversing"
    | .tcpFallback => .text "TcpFallback"

def Event.name : Event → String
  | .pathAdded .. => "PathAdded"
  | .pathRemoved .. => "PathRemoved"
  | .longTimeEncryption _ => "LongTimeEncryption"
  | .forwardSecrecyEncryption _ => "PerfectForwardSecrecyEncryption"
  | .messageReceived .. => "MessageReceived"
  | .superPeerChanged _ => "SuperPeerChanged"

/-- What a report of an event holds besides its name and its peer. -/
def Event.details : Event → List (String × Report)
  | .pathAdded _ a p => [("addr", report a), ("path", report p)]
  | .pathRemoved _ p => [("path", report p)]
  | .messageReceived _ p => [("payload", report p)]
  | _ => []

instance : Reportable Event :=
  ⟨fun e => .record (("event", .text e.name) :: ("peer", report e.peer) :: e.details)⟩

/-- Whether two events are removed paths of one kind. -/
def Event.sameRun : Event → Event → Bool
  | .pathRemoved _ p, .pathRemoved _ q => p = q
  | _, _ => false

def Event.rank : Event → Nat
  | .pathRemoved k _ => k.rank
  | _ => 0

/-- Each run of removed paths of one kind in the order of the peers. -/
def Event.sortRuns (events : List Event) : List Event :=
  ((events.splitBy Event.sameRun).map fun run => run.mergeSort fun a b => a.rank ≤ b.rank).flatten

def Report.events (l : List Event) : Report := report (Event.sortRuns l)

def Outbound.isChildHello (m : Outbound) : Bool :=
  match m.message with
  | .hello _ c => c ≠ 0
  | _ => false

/-- Messages in the order of a report: greetings to super peers first, and each part by recipient. -/
def Report.outbox (l : List Outbound) : Report :=
  let sort := fun (l : List Outbound) => l.mergeSort fun a b => a.recipient.rank ≤ b.recipient.rank
  report (sort (l.filter (·.isChildHello)) ++ sort (l.filter (!·.isChildHello)))

end Overlay
