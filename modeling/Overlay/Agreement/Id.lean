import Overlay.Crypto.Key

/-!
# Names of agreements

An agreement is named by 32 octets that both of its ends compute for themselves.  This module holds the
name and its written form: 64 hexadecimal digits, in lower case when written (`AgreementId.text`).  When
read (`AgreementId.ofText?`), the text must be 64 ASCII characters, taken two by two; a pair is two digits
in either case, or a plus sign and one digit.
-/

namespace Overlay

@[ext]
structure AgreementId where
  block : Block 32
deriving DecidableEq, Inhabited

namespace AgreementId

def toBytes (x : AgreementId) : Bytes := x.block.toBytes

def text (x : AgreementId) : String := hex x.toBytes

def describe (x : AgreementId) : String := "AgreementId(" ++ x.text ++ ")"

def octet? (a b : Char) : Option UInt8 :=
  if a = '+' then (digitValue? b).map UInt8.ofNat
  else do return UInt8.ofNat (16 * (← digitValue? a) + (← digitValue? b))

def octets? : List Char → Option Bytes
  | [] => some []
  | [_] => none
  | a :: b :: r => do return (← octet? a b) :: (← octets? r)

def ofText? (s : String) : Option AgreementId := do
  let bytes ← octets? s.toList
  return ⟨← Block.ofBytes? 32 bytes⟩

end AgreementId

end Overlay
