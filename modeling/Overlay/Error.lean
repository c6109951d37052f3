import Overlay.Agreement.Id
import Overlay.Text.Quoted
import Overlay.Time

/-!
# What can go wrong

One type of causes for each layer: cryptography, wire formats, armed conversations, transport, and
nodes.  An outer layer wraps the causes of the layers below it.  The wording of a cause stands in its
`message`, and nothing else depends on it.
-/

namespace Overlay

/-- Why key material is refused. -/
inductive KeyFault where
  /-- It has the wrong count of octets. -/
  | length (actual : Nat)
  /-- It is our own key where a peer's is needed. -/
  | ownKey
  /-- Any other reason. -/
  | described (reason : String)
deriving DecidableEq

def KeyFault.message : KeyFault → String
  | .length n => s!"expected 32 bytes, got {n}"
  | .ownKey => "cannot agree on a key with ourselves"
  | .described reason => reason

inductive CryptoError where
  | keyGeneration
  | encryptionFailed
  | decryptionFailed
  | keyDerivationFailed
  | invalidKey (fault : KeyFault)
deriving DecidableEq

def CryptoError.message : CryptoError → String
  | .keyGeneration => "key generation failed"
  | .encryptionFailed => "AEAD encryption failed"
  | .decryptionFailed => "AEAD decryption failed (invalid tag or corrupted)"
  | .keyDerivationFailed => "key derivation failed"
  | .invalidKey fault => "invalid key: " ++ fault.message

/-- A byte string that is not the encoding of a message. -/
inductive CodecError where
  | tooShort (expected actual : Nat)
  | unknownMessageType (type : UInt8)
  | badMagic (magic : UInt32)
  | invalidAddress
  | invalidKey
  | invalidAgreementId
deriving DecidableEq

def CodecError.message : CodecError → String
  | .tooShort expected actual =>
    s!"message too short: expected at least {expected} bytes, got {actual}"
  | .unknownMessageType type => "unknown message type: 0x" ++ hexNumber 2 type.toNat
  | .badMagic magic => "bad magic number: 0x" ++ hexNumber 8 magic.toNat
  | .invalidAddress => "invalid socket address"
  | .invalidKey => "invalid key in message"
  | .invalidAgreementId => "invalid agreement id"

inductive ArgumentFault where
  | equalKeys
  /-- A text that is not the written form of an agreement's name. -/
  | agreementIdText (text : String)
  /-- A session on a long-time agreement without a recipient. -/
  | longTimeIncomplete
  /-- A key exchange that carries the peer's long-time key. -/
  | longTimeKeyExchanged
  /-- No session with the peer can be kept. -/
  | noSession (peer : PublicKey)
  /-- Any other reason. -/
  | described (reason : String)
deriving DecidableEq

def ArgumentFault.message : ArgumentFault → String
  | .equalKeys => "an agreement requires two distinct keys"
  | .agreementIdText text => "invalid agreement id: " ++ Text.quoted text
  | .longTimeIncomplete => "long-time agreement is not initialized"
  | .longTimeKeyExchanged => "key exchange carries the long-time key"
  | .noSession peer => "no session for " ++ peer.short
  | .described reason => reason

inductive ArmError where
  | crypto (error : CryptoError)
  | unknownAgreementId (id : AgreementId)
  | invalidArgument (fault : ArgumentFault)
  | codec (error : CodecError)
  | noInactiveAgreement
deriving DecidableEq

def ArmError.message : ArmError → String
  | .crypto e => "crypto error: " ++ e.message
  | .unknownAgreementId id => "decryption error: unknown agreement id " ++ id.text
  | .invalidArgument fault => "invalid argument: " ++ fault.message
  | .codec e => "codec error: " ++ e.message
  | .noInactiveAgreement => "there is currently no inactive agreement"

inductive TransportError where
  | closed
  | frameTooLarge (size : Nat)
deriving DecidableEq

def TransportError.message : TransportError → String
  | .closed => "transport closed"
  | .frameTooLarge size => s!"frame too large: {size} bytes"

/-- Settings that a node cannot run with. -/
inductive ConfigFault where
  | zeroHelloInterval
  | timeoutNotAboveInterval (timeout interval : Duration)
  | zeroRetryInterval
  | fallbackWithoutAddress
  | serverWithoutSuperPeerMode
  /-- Any other reason. -/
  | described (reason : String)
deriving DecidableEq

def ConfigFault.message : ConfigFault → String
  | .zeroHelloInterval => "hello interval must not be zero"
  | .timeoutNotAboveInterval timeout interval =>
    "hello timeout (" ++ timeout.text ++ ") must be larger than the hello interval ("
      ++ interval.text ++ ")"
  | .zeroRetryInterval => "retry interval must not be zero"
  | .fallbackWithoutAddress => "tcp fallback enabled without a super peer tcp address"
  | .serverWithoutSuperPeerMode => "only super peers accept tcp fallback connections"
  | .described reason => reason

inductive NodeError where
  | arm (error : ArmError)
  | crypto (error : CryptoError)
  | codec (error : CodecError)
  | transport (error : TransportError)
  | config (fault : ConfigFault)
  | noRoute (peer : String)
  | shutdown
deriving DecidableEq

def NodeError.message : NodeError → String
  | .arm e => "arm error: " ++ e.message
  | .crypto e => "crypto error: " ++ e.message
  | .codec e => "codec error: " ++ e.message
  | .transport e => "transport error: " ++ e.message
  | .config fault => "configuration error: " ++ fault.message
  | .noRoute peer => "no route to peer " ++ peer
  | .shutdown => "node shut down"

end Overlay
