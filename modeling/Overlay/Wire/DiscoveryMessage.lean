import Overlay.Address
import Overlay.Wire.Field

/-!
# Discovery messages

The payload of an armed message: greetings and their acknowledgements, introductions of one peer to
another, and application data.  One octet tells which.  An address is written as an octet for its family,
its octets, and its port.
-/

namespace Overlay

/-- A message between the discovery sides of two nodes, or application data. -/
inductive DiscoveryMessage where
  /-- A greeting, stamped with the sender's clock; `childrenTime` is not zero when the sender asks to be
  taken as a child. -/
  | hello (time childrenTime : UInt64)
  /-- The answer to a greeting, with the greeting's stamp. -/
  | acknowledgement (time : UInt64)
  /-- An introduction: the peer was heard from at the address. -/
  | unite (peer : PublicKey) (addr : Address)
  | application (payload : Bytes)
deriving DecidableEq

namespace Wire

def encodeAddress (a : Address) : Bytes :=
  (match a.host with
    | .v4 octets => 4 :: octets.toBytes
    | .v6 octets => 6 :: octets.toBytes) ++ bigEndian 2 a.port.toNat

def readHost (size : Nat) (rest : Bytes) : Except CodecError (Host × Bytes) := do
  let (family, rest) ← readOctet size rest
  if family = 4 then
    let (octets, rest) ← readBlock 4 size rest
    return (.v4 octets, rest)
  else if family = 6 then
    let (octets, rest) ← readBlock 16 size rest
    return (.v6 octets, rest)
  else throw .invalidAddress

def readAddress (size : Nat) (rest : Bytes) : Except CodecError (Address × Bytes) := do
  let (host, rest) ← readHost size rest
  let (port, rest) ← readUInt16 size rest
  return (⟨host, port⟩, rest)

end Wire

namespace DiscoveryMessage

def tag : DiscoveryMessage → UInt8
  | .hello _ _ => 0x10
  | .acknowledgement _ => 0x11
  | .unite _ _ => 0x12
  | .application _ => 0x13

def isDiscovery : DiscoveryMessage → Bool
  | .application _ => false
  | _ => true

def body : DiscoveryMessage → Bytes
  | .hello time childrenTime => bigEndian 8 time.toNat ++ bigEndian 8 childrenTime.toNat
  | .acknowledgement time => bigEndian 8 time.toNat
  | .unite peer addr => peer.toBytes ++ Wire.encodeAddress addr
  | .application payload => payload

def encode (m : DiscoveryMessage) : Bytes := m.tag :: m.body

def decode (b : Bytes) : Except CodecError DiscoveryMessage := do
  let (tag, rest) ← Wire.readOctet b.length b
  if tag = 0x10 then
    let (time, rest) ← Wire.readUInt64 b.length rest
    let (childrenTime, _) ← Wire.readUInt64 b.length rest
    return .hello time childrenTime
  else if tag = 0x11 then
    let (time, _) ← Wire.readUInt64 b.length rest
    return .acknowledgement time
  else if tag = 0x12 then
    let (peer, rest) ← Wire.readBlock 32 b.length rest
    let (addr, _) ← Wire.readAddress b.length rest
    return .unite ⟨peer⟩ addr
  else if tag = 0x13 then return .application rest
  else throw (.unknownMessageType tag)

end DiscoveryMessage

end Overlay
