import Overlay.Wire.Field

/-!
# What an armed message contains

The plaintext under the encryption: a payload of the layer above, the sender's short-lived key, or the
name of an agreement that the sender acknowledges.  One octet tells which.  Keys and names are followed
by nothing, but whatever follows them is ignored when read.
-/

namespace Overlay

/-- The content of an armed message. -/
inductive ArmMessage where
  | application (payload : Bytes)
  /-- The sender's key for a new agreement. -/
  | keyExchange (key : PublicKey)
  /-- The sender has derived the agreement of this name. -/
  | acknowledgement (id : AgreementId)
deriving DecidableEq

namespace ArmMessage

def tag : ArmMessage → UInt8
  | .application _ => 1
  | .keyExchange _ => 2
  | .acknowledgement _ => 3

def body : ArmMessage → Bytes
  | .application payload => payload
  | .keyExchange key => key.toBytes
  | .acknowledgement id => id.toBytes

def encode (m : ArmMessage) : Bytes := m.tag :: m.body

def decode (b : Bytes) : Except CodecError ArmMessage := do
  let (tag, rest) ← Wire.readOctet b.length b
  if tag = 1 then return .application rest
  else if tag = 2 then
    let (key, _) ← Wire.readBlock 32 b.length rest
    return .keyExchange ⟨key⟩
  else if tag = 3 then
    let (id, _) ← Wire.readBlock 32 b.length rest
    return .acknowledgement ⟨id⟩
  else throw (.unknownMessageType tag)

end ArmMessage

end Overlay
