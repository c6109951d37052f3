import Overlay.Bytes

/-!
# The ChaCha20 stream

A state is four rows of four words.  A double round mixes the columns, then the diagonals, which are
the columns once each row is turned by its number.  `combine` adds the stream for a key and a nonce of
twelve octets to a byte string; `subkey` derives the key for a longer nonce from its first sixteen octets.
-/

namespace Overlay.Crypto.ChaCha20

structure Row where
  w0 : UInt32
  w1 : UInt32
  w2 : UInt32
  w3 : UInt32

namespace Row

@[inline] def zip (f : UInt32 → UInt32 → UInt32) (p q : Row) : Row :=
  ⟨f p.w0 q.w0, f p.w1 q.w1, f p.w2 q.w2, f p.w3 q.w3⟩

@[inline] def rotateLeft (k : UInt32) (p : Row) : Row :=
  let turn := fun (x : UInt32) => (x <<< k) ||| (x >>> (32 - k))
  ⟨turn p.w0, turn p.w1, turn p.w2, turn p.w3⟩

/-- The row moved left by one word. -/
def shift (p : Row) : Row := ⟨p.w1, p.w2, p.w3, p.w0⟩

/-- The row that sixteen octets spell, each word least significant octet first. -/
def ofBytes (b : Bytes) : Row :=
  let word := fun k => UInt32.ofNat (ofLittleEndian ((b.drop (4 * k)).take 4))
  ⟨word 0, word 1, word 2, word 3⟩

def toBytes (p : Row) : Bytes :=
  littleEndian 4 p.w0.toNat ++ littleEndian 4 p.w1.toNat ++ littleEndian 4 p.w2.toNat
    ++ littleEndian 4 p.w3.toNat

@[simp] theorem length_toBytes (p : Row) : p.toBytes.length = 16 := by simp [toBytes]

end Row

structure State where
  a : Row
  b : Row
  c : Row
  d : Row

/-- The quarter round on all four columns at once. -/
def columns (s : State) : State :=
  let a := Row.zip (· + ·) s.a s.b
  let d := (Row.zip (· ^^^ ·) s.d a).rotateLeft 16
  let c := Row.zip (· + ·) s.c d
  let b := (Row.zip (· ^^^ ·) s.b c).rotateLeft 12
  let a := Row.zip (· + ·) a b
  let d := (Row.zip (· ^^^ ·) d a).rotateLeft 8
  let c := Row.zip (· + ·) c d
  let b := (Row.zip (· ^^^ ·) b c).rotateLeft 7
  ⟨a, b, c, d⟩

/-- A column round and a diagonal round. -/
def doubleRound (s : State) : State :=
  let s := columns s
  let s := columns ⟨s.a, s.b.shift, s.c.shift.shift, s.d.shift.shift.shift⟩
  ⟨s.a, s.b.shift.shift.shift, s.c.shift.shift, s.d.shift⟩

def rounds (s : State) : State := (List.range 10).foldl (fun s _ => doubleRound s) s

def constants : Row := ⟨0x61707865, 0x3320646e, 0x79622d32, 0x6b206574⟩

/-- The state of a key and the sixteen octets of its last row. -/
def initial (key : Block 32) (last : Bytes) : State :=
  ⟨constants, Row.ofBytes (key.toBytes.take 16), Row.ofBytes (key.toBytes.drop 16), Row.ofBytes last⟩

/-- Block number `counter` of the stream, 64 octets. -/
def block (key : Block 32) (nonce : Bytes) (counter : Nat) : Bytes :=
  let s := initial key (littleEndian 4 counter ++ nonce)
  let t := rounds s
  (Row.zip (· + ·) s.a t.a).toBytes ++ (Row.zip (· + ·) s.b t.b).toBytes
    ++ (Row.zip (· + ·) s.c t.c).toBytes ++ (Row.zip (· + ·) s.d t.d).toBytes

@[simp] theorem length_block (key : Block 32) (nonce : Bytes) (counter : Nat) :
    (block key nonce counter).length = 64 := by simp [block]

/-- A byte string combined with the stream from block `counter` on. -/
def combine (key : Block 32) (nonce : Bytes) (counter : Nat) (b : Bytes) : Bytes :=
  ((chunks 64 b).zipIdx counter).flatMap fun (piece, k) =>
    List.zipWith (· ^^^ ·) piece (block key nonce k)

/-- The key that a nonce of at least sixteen octets selects. -/
def subkey (key : Block 32) (nonce : Bytes) : Block 32 :=
  let t := rounds (initial key (nonce.take 16))
  .ofBytes (t.a.toBytes ++ t.d.toBytes) (by simp)

end Overlay.Crypto.ChaCha20
