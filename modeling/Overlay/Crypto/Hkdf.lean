import Overlay.Crypto.Sha256

/-!
# Key derivation from a shared secret

`hmac` is the keyed hash over SHA-256, and `hkdf` spreads a secret over two digests' worth of key
material, bound to a context string: first the secret is condensed under a salt of zeros, then each
half is the keyed hash of the half before it, the context, and a counter.
-/

namespace Overlay.Crypto

/-- The keyed hash of a message, for a key of at most 64 octets. -/
def hmac (key : Bytes) (message : Bytes) : Block 32 :=
  let full := key ++ List.replicate (64 - key.length) 0
  let inner := sha256 (full.map (· ^^^ 0x36) ++ message)
  sha256 (full.map (· ^^^ 0x5c) ++ inner.toBytes)

/-- Two digests of key material from a secret and a context, in order. -/
def hkdf (secret : Block 32) (context : Bytes) : Block 32 × Block 32 :=
  let root := hmac (List.replicate 32 0) secret.toBytes
  let first := hmac root.toBytes (context ++ [1])
  (first, hmac root.toBytes (first.toBytes ++ context ++ [2]))

end Overlay.Crypto
