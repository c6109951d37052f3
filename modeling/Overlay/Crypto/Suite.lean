import Overlay.Crypto.Aead
import Overlay.Crypto.Curve25519
import Overlay.Crypto.Hkdf
import Overlay.Error

/-!
# The cryptographic suite

Everything above this module reaches cryptography through a `Suite`, a record of the six functions it
needs, so that what is said about conversations can be said for every suite with the laws it takes.
`Suite.standard` is the suite that nodes run: Curve25519, SHA-256, and XChaCha20 with Poly1305.

`Suite.deriveSessionPair` turns a key pair and a peer's key into the two session keys.  Both ends order
the two public keys alike, so both compute the same key material; the first half protects what the lower
key's owner sends, the second half what the higher one's sends.
-/

namespace Overlay

/-- The cryptographic functions of an overlay. -/
structure Suite where
  /-- The public half of a secret key. -/
  publicOf : SecretKey → PublicKey
  shared : SecretKey → PublicKey → Block 32
  digest : Bytes → Block 32
  /-- Two halves of key material from a secret and a context. -/
  expand : Block 32 → Bytes → Block 32 × Block 32
  encrypt : SessionKey → Nonce → (data plaintext : Bytes) → Option Bytes
  /-- Its inverse, for a ciphertext that is authentic. -/
  decrypt : SessionKey → Nonce → (data ciphertext : Bytes) → Option Bytes

namespace Suite

/-- The suite that nodes run. -/
def standard : Suite where
  publicOf s := ⟨Crypto.Curve25519.multiply s.block Crypto.Curve25519.base⟩
  shared s p := Crypto.Curve25519.multiply s.block p.block
  digest := Crypto.sha256
  expand := Crypto.hkdf
  encrypt k := Crypto.Aead.encrypt k.block
  decrypt k := Crypto.Aead.decrypt k.block

variable (S : Suite)

def keyPair (secret : SecretKey) : KeyPair := ⟨S.publicOf secret, secret⟩

/-- Seventeen octets that keep session keys apart from whatever else is derived from a secret. -/
def sessionLabel : Bytes := [
  0x63, 0x61, 0x6e, 0x6f, 0x70, 0x79, 0x20, 0x76, 0x31, 0x20, 0x73, 0x65, 0x73, 0x73, 0x69, 0x6f, 0x6e]

def sessionContext (a b : PublicKey) : Bytes :=
  let (lower, higher) := PublicKey.ordered a b
  sessionLabel ++ lower.toBytes ++ higher.toBytes

/-- The session keys between a key pair and a peer's key, as the owner of the key pair uses them.
There are none between a key and itself, and none if the shared secret is zero, which the keys of
small order force. -/
def deriveSessionPair (own : KeyPair) (peer : PublicKey) : Except CryptoError SessionPair :=
  if own.publicKey = peer then .error (.invalidKey .ownKey)
  else
    let secret := S.shared own.secretKey peer
    if secret = Block.filled 32 0 then .error .keyDerivationFailed
    else
      let (up, down) := S.expand secret (sessionContext own.publicKey peer)
      if own.publicKey < peer then .ok ⟨⟨down⟩, ⟨up⟩⟩ else .ok ⟨⟨up⟩, ⟨down⟩⟩

/-- The name of the agreement between two keys: the digest of both, the lower one first. -/
def agreementId (a b : PublicKey) : Except ArmError AgreementId :=
  if a = b then .error (.invalidArgument .equalKeys)
  else
    let (lower, higher) := PublicKey.ordered a b
    .ok ⟨S.digest (lower.toBytes ++ higher.toBytes)⟩

end Suite

def PublicKey.ofBytes? (b : Bytes) : Except CryptoError PublicKey :=
  match Block.ofBytes? 32 b with
  | some block => .ok ⟨block⟩
  | none => .error (.invalidKey (.length b.length))

end Overlay
