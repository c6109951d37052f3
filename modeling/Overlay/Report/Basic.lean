import Overlay.Address
import Overlay.Agreement.Id
import Overlay.Crypto.Sha256
import Overlay.Time

/-!
# Reports

A report shows a value as a tree of named fields, for tools that watch an overlay at work.  Keys, names and
byte strings are shown in hexadecimal; a long byte string is shown by its length and its digest.  Every type
that can be reported is an instance of `Reportable`.
-/

namespace Overlay

inductive Report where
  | nothing
  | flag (b : Bool)
  | number (n : Int)
  | text (s : String)
  | list (items : List Report)
  | record (fields : List (String × Report))

class Reportable (α : Type) where
  report : α → Report

export Reportable (report)

namespace Report

variable {α : Type} [Reportable α]

/-- The longest byte string that is shown in full. -/
def maxShown : Nat := 1024

def ofHex (b : Bytes) : Report := .text (hex b)

/-- A byte string, in full unless it is long. -/
def ofBytes (b : Bytes) : Report :=
  if maxShown < b.length then
    .record [("len", .number b.length), ("sha256", ofHex (Crypto.sha256 b).toBytes)]
  else ofHex b

end Report

instance : Reportable Report := ⟨id⟩
instance : Reportable Unit := ⟨fun _ => .nothing⟩
instance : Reportable Bool := ⟨.flag⟩
instance : Reportable Nat := ⟨fun n => .number n⟩
instance : Reportable Int := ⟨.number⟩
instance : Reportable Int32 := ⟨fun n => .number n.toInt⟩
instance : Reportable UInt8 := ⟨fun n => .number n.toNat⟩
instance : Reportable UInt64 := ⟨fun n => .number n.toNat⟩
instance : Reportable String := ⟨.text⟩
instance {α : Type} [Reportable α] : Reportable (Option α) := ⟨fun x => (x.map report).getD .nothing⟩
instance {α : Type} [Reportable α] : Reportable (List α) := ⟨fun l => .list (l.map report)⟩

instance {α β : Type} [Reportable α] [Reportable β] : Reportable (α × β) :=
  ⟨fun x => .list [report x.1, report x.2]⟩

instance : Reportable Bytes := ⟨Report.ofBytes⟩
instance {n : Nat} : Reportable (Block n) := ⟨fun b => .ofHex b.toBytes⟩
instance : Reportable PublicKey := ⟨fun k => report k.block⟩
instance : Reportable SecretKey := ⟨fun k => report k.block⟩
instance : Reportable SessionKey := ⟨fun k => report k.block⟩
instance : Reportable AgreementId := ⟨fun x => report x.block⟩
instance : Reportable Address := ⟨fun a => .text a.text⟩

instance : Reportable Duration :=
  ⟨fun d => .record [("secs", report d.seconds), ("nanos", report d.subseconds)]⟩

end Overlay
