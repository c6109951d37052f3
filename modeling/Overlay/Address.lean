import Overlay.Bytes

/-!
# Socket addresses

An address of either family with a port.  An IPv4 address and the IPv6 address that embeds it are
different addresses.  In text (`Address.text`, read by `Address.ofText?`) an IPv4 address is four numbers with
points between them, and an IPv6 address eight groups of four hexadecimal digits in brackets; the port
follows a colon.
-/

namespace Overlay

inductive Host where
  | v4 (octets : Block 4)
  | v6 (octets : Block 16)
deriving DecidableEq

@[ext]
structure Address where
  host : Host
  port : UInt16
deriving DecidableEq

instance : Inhabited Address := ⟨⟨.v4 (Block.filled 4 0), 0⟩⟩

def Address.ofV4 (a b c d : UInt8) (port : UInt16) : Address := ⟨.v4 (.ofBytes [a, b, c, d] rfl), port⟩

namespace Address

/-- Groups of four hexadecimal digits. -/
def groups : Bytes → List String
  | a :: b :: r => hex [a, b] :: groups r
  | _ => []

def text (a : Address) : String :=
  match a.host with
  | .v4 o => ".".intercalate (o.toBytes.map fun x => toString x.toNat) ++ ":" ++ toString a.port.toNat
  | .v6 o => "[" ++ ":".intercalate (groups o.toBytes) ++ "]:" ++ toString a.port.toNat

/-- The host with a written form. -/
def hostOfText? (s : String) : Option Host :=
  match s.toList with
  | '[' :: r => do
    let digits := r.filter fun c => c ≠ ':' && c ≠ ']'
    return .v6 (← Block.ofBytes? 16 (← ofHex? digits))
  | _ => do
    let numbers ← (s.splitOn ".").mapM String.toNat?
    return .v4 (← Block.ofBytes? 4 (numbers.map UInt8.ofNat))

def ofText? (s : String) : Option Address := do
  let parts := s.splitOn ":"
  let port ← parts.getLast?
  return ⟨← hostOfText? (":".intercalate parts.dropLast), UInt16.ofNat (← port.toNat?)⟩

end Address

end Overlay
