import Overlay.Crypto.ChaCha20
import Overlay.Crypto.Poly1305

/-!
# Authenticated encryption

`Aead.encrypt` encrypts a plaintext under a key and a nonce of 24 octets and appends a tag over the
ciphertext and the associated data; `Aead.decrypt` checks the tag before it decrypts.  The first block of
the stream is the one-time key of the tag, so the text is combined with the stream from block one on.
Either refuses a text whose blocks the 32-bit block counter cannot count.
-/

namespace Overlay.Crypto.Aead

def tagSize : Nat := 16

def padding (b : Bytes) : Bytes := List.replicate ((16 - b.length % 16) % 16) 0

/-- What the tag is computed over. -/
def authenticated (data ciphertext : Bytes) : Bytes :=
  data ++ padding data ++ ciphertext ++ padding ciphertext
    ++ littleEndian 8 data.length ++ littleEndian 8 ciphertext.length

/-- The stream key for a nonce, and the nonce of the stream. -/
def streamKey (key : Block 32) (nonce : Block 24) : Block 32 × Bytes :=
  (ChaCha20.subkey key nonce.toBytes, List.replicate 4 0 ++ nonce.toBytes.drop 16)

def tag (key : Block 32) (nonce data ciphertext : Bytes) : Block 16 :=
  let oneTime := Block.take 32 (ChaCha20.block key nonce 0) (by simp)
  poly1305 oneTime (authenticated data ciphertext)

/-- Whether the block counter can count the blocks of a text. -/
def countable (b : Bytes) : Bool := b.length / 64 < 2 ^ 32 - 1

/-- The ciphertext of a plaintext with its tag appended. -/
def encrypt (key : Block 32) (nonce : Block 24) (data plaintext : Bytes) : Option Bytes :=
  if countable plaintext then
    let (k, n) := streamKey key nonce
    let ciphertext := ChaCha20.combine k n 1 plaintext
    some (ciphertext ++ (tag k n data ciphertext).toBytes)
  else none

/-- The plaintext of a ciphertext whose appended tag is right. -/
def decrypt (key : Block 32) (nonce : Block 24) (data sealed : Bytes) : Option Bytes :=
  if sealed.length < tagSize then none
  else
    let ciphertext := sealed.take (sealed.length - tagSize)
    if countable ciphertext then
      let (k, n) := streamKey key nonce
      if (tag k n data ciphertext).toBytes = sealed.drop (sealed.length - tagSize) then
        some (ChaCha20.combine k n 1 ciphertext)
      else none
    else none

end Overlay.Crypto.Aead
