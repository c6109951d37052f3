import Overlay.Wire.ArmedMessage

/-!
# Envelopes

Every datagram is an envelope: a routing header in the clear and an armed message.  The header is a
magic number, the network, the count of relays taken so far, and the two ends.
-/

namespace Overlay

/-- A routing header with an armed message. -/
@[ext]
structure Envelope where
  networkId : Int32
  hopCount : UInt8
  sender : PublicKey
  recipient : PublicKey
  armed : ArmedMessage
deriving DecidableEq

namespace Envelope

/-- The number every envelope starts with. -/
def magic : UInt32 := 0x1e2fc0de

def headerSize : Nat := 73

def encode (e : Envelope) : Bytes :=
  bigEndian 4 magic.toNat ++ (bigEndian 4 e.networkId.toUInt32.toNat
    ++ (e.hopCount :: (e.sender.toBytes ++ (e.recipient.toBytes ++ e.armed.encode))))

def encodedLength (e : Envelope) : Nat := headerSize + e.armed.encodedLength

def decode (b : Bytes) : Except CodecError Envelope := do
  let (found, rest) ← Wire.readUInt32 b.length b
  if found = magic then
    let (network, rest) ← Wire.readUInt32 b.length rest
    let (hopCount, rest) ← Wire.readOctet b.length rest
    let (sender, rest) ← Wire.readBlock 32 b.length rest
    let (recipient, rest) ← Wire.readBlock 32 b.length rest
    let armed ← ArmedMessage.decode rest
    return ⟨network.toInt32, hopCount, ⟨sender⟩, ⟨recipient⟩, armed⟩
  else throw (.badMagic found)

end Envelope

end Overlay
