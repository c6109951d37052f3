import Overlay.Wire.Field

/-!
# Armed messages

An encrypted message as it travels: the name of the agreement whose key encrypts it, the nonce, and the
ciphertext with its tag.  Reading refuses what is too short to hold a tag; writing takes any ciphertext.
-/

namespace Overlay

@[ext]
structure ArmedMessage where
  agreementId : AgreementId
  nonce : Nonce
  ciphertext : Bytes
deriving DecidableEq

namespace ArmedMessage

def headerSize : Nat := 56

/-- The least count of octets of a message with a tag. -/
def minSize : Nat := headerSize + 16

def encode (m : ArmedMessage) : Bytes := m.agreementId.toBytes ++ (m.nonce.toBytes ++ m.ciphertext)

def encodedLength (m : ArmedMessage) : Nat := headerSize + m.ciphertext.length

def decode (b : Bytes) : Except CodecError ArmedMessage :=
  if b.length < minSize then .error (.tooShort minSize b.length)
  else do
    let (id, rest) ← Wire.readBlock 32 b.length b
    let (nonce, rest) ← Wire.readBlock 24 b.length rest
    return ⟨⟨id⟩, nonce, rest⟩

end ArmedMessage

end Overlay
