import Overlay.Bytes

/-!
# The Montgomery curve over the field of `2 ^ 255 - 19` elements

Points are known by their first coordinate alone, written as a fraction `x : z` of field elements.
`ladder` multiplies a point by a number with one doubling and one addition for each bit, keeping the
two neighbouring multiples whose difference is the point itself.  Numbers stand for their residues, and
only products are reduced.  `multiply` is the function used for key agreement: it fixes the bits of the
scalar that keep it in the right subgroup (`clamped`), and ignores the top bit of the coordinate.
-/

namespace Overlay.Crypto.Curve25519

def prime : Nat := 2 ^ 255 - 19

/-- The difference of two field elements, the second of them reduced. -/
def sub (x y : Nat) : Nat := x + prime - y

def mul (x y : Nat) : Nat := x * y % prime

/-- The bits of a number from place `w - 1` down to place zero. -/
def bits : Nat → Nat → List Bool
  | 0, _ => []
  | w + 1, n => n.testBit w :: bits w n

/-- A field element to the power of a number below `2 ^ 255`. -/
def pow (x n : Nat) : Nat :=
  (bits 255 n).foldl (fun r b => if b then mul (mul r r) x else mul r r) 1

def inv (x : Nat) : Nat := pow x (prime - 2)

/-- A first coordinate as a fraction of reduced field elements. -/
structure Point where
  x : Nat
  z : Nat

/-- The sum and the difference of the two parts of a fraction. -/
structure Spread where
  sum : Nat
  difference : Nat

def Point.spread (p : Point) : Spread := ⟨p.x + p.z, sub p.x p.z⟩

def Spread.double (p : Spread) : Point :=
  let s := mul p.sum p.sum
  let d := mul p.difference p.difference
  let e := sub s d
  ⟨mul s d, mul e (s + 121665 * e)⟩

/-- The sum of two points whose difference has the first coordinate `u`. -/
def Spread.addWith (u : Nat) (p q : Spread) : Point :=
  let a := mul q.difference p.sum
  let b := mul q.sum p.difference
  let s := a + b
  let d := sub a b
  ⟨mul s s, mul u (mul d d)⟩

/-- One bit of the ladder, on two multiples that differ by the point `u`. -/
def ladderStep (u : Nat) (pq : Point × Point) (bit : Bool) : Point × Point :=
  let p := pq.1.spread
  let q := pq.2.spread
  let sum := Spread.addWith u p q
  if bit then (sum, q.double) else (p.double, sum)

/-- The multiple of the point `u` by a number of 255 bits. -/
def ladder (n u : Nat) : Point :=
  ((bits 255 n).foldl (ladderStep u) (⟨1, 0⟩, ⟨u, 1⟩)).1

/-- A scalar with its three low bits cleared, bit 255 cleared and bit 254 set. -/
def clamped (n : Nat) : Nat := n % 2 ^ 254 / 8 * 8 + 2 ^ 254

/-- The multiple of a point by a clamped scalar, all as blocks of 32 octets. -/
def multiply (scalar point : Block 32) : Block 32 :=
  let u := ofLittleEndian point.toBytes % 2 ^ 255 % prime
  let p := ladder (clamped (ofLittleEndian scalar.toBytes)) u
  Block.ofLE 32 (mul p.x (inv p.z))

/-- The point every public key is a multiple of. -/
def base : Block 32 := Block.ofLE 32 9

end Overlay.Crypto.Curve25519
