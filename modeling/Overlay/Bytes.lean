/-!
# Byte strings

Everything that is hashed, sealed or sent is a list of octets.  A `Block n` is a byte string whose
length is part of its type: keys, ids and nonces are blocks.

Numbers are written in a fixed count of octets, `littleEndian` or `bigEndian`, and read back by
`ofLittleEndian` and `ofBigEndian`.  Main statements: writing loses nothing that fits
(`ofLittleEndian_littleEndian`, `ofBigEndian_bigEndian`), and reading loses nothing but the count of
octets (`littleEndian_ofLittleEndian`, `bigEndian_ofBigEndian`).  A block is held as the number it spells, so
that comparing blocks octet by octet is comparing numbers; its octets determine it (`toBytes_injective`).
-/

namespace Overlay

/-- Powers of numbers, meant as the core library has them whatever else is in scope. -/
@[default_instance 20000]
instance (priority := 20000) powNat : Pow Nat Nat := instPowNat

abbrev Bytes := List UInt8

/-! ## Numbers -/

/-- The low `w` octets of `n`, least significant first. -/
def littleEndian : Nat → Nat → Bytes
  | 0, _ => []
  | w + 1, n => UInt8.ofNat n :: littleEndian w (n / 256)

def ofLittleEndian : Bytes → Nat
  | [] => 0
  | b :: r => b.toNat + 256 * ofLittleEndian r

def bigEndian (w n : Nat) : Bytes := (littleEndian w n).reverse

def ofBigEndian (b : Bytes) : Nat := ofLittleEndian b.reverse

@[simp] theorem length_littleEndian (w n : Nat) : (littleEndian w n).length = w := by
  induction w generalizing n with
  | zero => rfl
  | succ w ih => simp [littleEndian, ih]

@[simp] theorem length_bigEndian (w n : Nat) : (bigEndian w n).length = w := by
  simp [bigEndian]

theorem ofLittleEndian_lt (b : Bytes) : ofLittleEndian b < 256 ^ b.length := by
  induction b with
  | nil => simp [ofLittleEndian]
  | cons x r ih =>
    have hx := x.toNat_lt
    simp only [ofLittleEndian, List.length_cons, Nat.pow_succ]
    omega

theorem ofBigEndian_lt (b : Bytes) : ofBigEndian b < 256 ^ b.length := by
  have h := ofLittleEndian_lt b.reverse
  rwa [List.length_reverse] at h

theorem ofLittleEndian_littleEndian {w n : Nat} (h : n < 256 ^ w) :
    ofLittleEndian (littleEndian w n) = n := by
  induction w generalizing n with
  | zero => simp at h; simp [littleEndian, ofLittleEndian, h]
  | succ w ih =>
    have hq : n / 256 < 256 ^ w := by
      rw [Nat.pow_succ] at h
      exact Nat.div_lt_of_lt_mul (by omega)
    simp only [littleEndian, ofLittleEndian, ih hq, UInt8.toNat_ofNat']
    omega

theorem littleEndian_ofLittleEndian (b : Bytes) : littleEndian b.length (ofLittleEndian b) = b := by
  induction b with
  | nil => rfl
  | cons x r ih =>
    have hx := x.toNat_lt
    have hq : (x.toNat + 256 * ofLittleEndian r) / 256 = ofLittleEndian r := by omega
    have hm : UInt8.ofNat (x.toNat + 256 * ofLittleEndian r) = x := by
      apply UInt8.toNat_inj.1
      rw [UInt8.toNat_ofNat']
      omega
    simp only [List.length_cons, littleEndian, ofLittleEndian, hq, hm, ih]

theorem ofBigEndian_bigEndian {w n : Nat} (h : n < 256 ^ w) : ofBigEndian (bigEndian w n) = n := by
  simp [ofBigEndian, bigEndian, ofLittleEndian_littleEndian h]

theorem bigEndian_ofBigEndian (b : Bytes) : bigEndian b.length (ofBigEndian b) = b := by
  have h := littleEndian_ofLittleEndian b.reverse
  rw [List.length_reverse] at h
  rw [bigEndian, ofBigEndian, h, List.reverse_reverse]

/-! ## Pieces -/

/-- The first `k` pieces of `n` octets each; the last ones may be short or empty. -/
def pieces (n : Nat) : Nat → Bytes → List Bytes
  | 0, _ => []
  | k + 1, b => b.take n :: pieces n k (b.drop n)

def chunks (n : Nat) (b : Bytes) : List Bytes := pieces n ((b.length + n - 1) / n) b

/-! ## Hexadecimal -/

def hexDigit (n : Nat) : Char :=
  if n < 10 then Char.ofNat (48 + n) else Char.ofNat (87 + n)

def hex (b : Bytes) : String :=
  String.ofList (b.flatMap fun x => [hexDigit (x.toNat / 16), hexDigit (x.toNat % 16)])

def digitValue? (c : Char) : Option Nat :=
  if '0' ≤ c ∧ c ≤ '9' then some (c.toNat - '0'.toNat)
  else if 'a' ≤ c ∧ c ≤ 'f' then some (c.toNat - 'a'.toNat + 10)
  else if 'A' ≤ c ∧ c ≤ 'F' then some (c.toNat - 'A'.toNat + 10)
  else none

/-- The octets that digits spell two by two, in either case. -/
def ofHex? : List Char → Option Bytes
  | [] => some []
  | [_] => none
  | a :: b :: r => do
    return UInt8.ofNat (16 * (← digitValue? a) + (← digitValue? b)) :: (← ofHex? r)

/-- A number in hexadecimal with leading zeros up to `w` digits. -/
def hexNumber (w n : Nat) : String :=
  let digits := (Nat.toDigits 16 n)
  String.ofList (List.replicate (w - digits.length) '0' ++ digits)

/-! ## Blocks -/

/-- A byte string of `n` octets, held as the number they spell, most significant octet first. -/
@[ext]
structure Block (n : Nat) where
  toNat : Nat
  toNat_lt : toNat < 256 ^ n
deriving DecidableEq

namespace Block

variable {n : Nat}

def toBytes (b : Block n) : Bytes := bigEndian n b.toNat

def ofBytes (b : Bytes) (h : b.length = n) : Block n := ⟨ofBigEndian b, h ▸ ofBigEndian_lt b⟩

def ofBytes? (n : Nat) (b : Bytes) : Option (Block n) :=
  if h : b.length = n then some (ofBytes b h) else none

def filled (n : Nat) (b : UInt8) : Block n := ofBytes (List.replicate n b) List.length_replicate

instance : Inhabited (Block n) := ⟨filled n 0⟩

/-- The block that spells the low octets of a number, least significant first. -/
def ofLE (n x : Nat) : Block n := ofBytes (littleEndian n x) (length_littleEndian n x)

/-- The block that spells the low octets of a number, most significant first. -/
def ofBE (n x : Nat) : Block n := ofBytes (bigEndian n x) (length_bigEndian n x)

/-- The first `n` octets of a byte string that has as many. -/
def take (n : Nat) (b : Bytes) (h : n ≤ b.length) : Block n :=
  ofBytes (b.take n) (by rw [List.length_take]; omega)

@[simp] theorem length_toBytes (b : Block n) : b.toBytes.length = n := length_bigEndian n b.toNat

@[simp] theorem toBytes_ofBytes (b : Bytes) (h : b.length = n) : (ofBytes b h).toBytes = b := by
  subst h
  exact bigEndian_ofBigEndian b

@[simp] theorem ofBytes_toBytes (b : Block n) : ofBytes b.toBytes b.length_toBytes = b :=
  Block.ext (ofBigEndian_bigEndian b.toNat_lt)

theorem toBytes_injective {a b : Block n} (h : a.toBytes = b.toBytes) : a = b := by
  rw [← ofBytes_toBytes a, ← ofBytes_toBytes b]
  simp only [h]

@[simp] theorem ofBytes?_toBytes (b : Block n) : ofBytes? n b.toBytes = some b := by
  simp [ofBytes?]

theorem ofBytes?_eq_some {b : Bytes} {x : Block n} : ofBytes? n b = some x ↔ b = x.toBytes := by
  constructor
  · intro h
    unfold ofBytes? at h
    split at h
    · cases h
      rw [toBytes_ofBytes]
    · cases h
  · intro h
    rw [h, ofBytes?_toBytes]

end Block

end Overlay
