import Overlay.Bytes

/-!
# Time

Moments are counts of milliseconds on a clock of 64 bits, kept as natural numbers; a deadline that would
lie beyond the last moment is the last moment (`after`).  A `Duration` is a count of nanoseconds below
`2 ^ 64` seconds.  `Duration.millis` is its length on the clock: whole milliseconds, wrapped to 64 bits.
`Duration.ofSecondsFloat` reads a duration from a binary fraction of seconds, rounded to the nearest
nanosecond with ties to the even one.
-/

namespace Overlay

def lastMoment : Nat := 2 ^ 64 - 1

/-- The moment `span` after `t`, or the last moment. -/
def after (t span : Nat) : Nat := min (t + span) lastMoment

/-- A clock reading moved forward, wrapping at the end of the clock. -/
def clockAdvance (t span : Nat) : Nat := (t + span) % 2 ^ 64

/-- A length of time in nanoseconds. -/
@[ext]
structure Duration where
  nanos : Nat
  nanos_lt : nanos < 2 ^ 64 * 1000000000
deriving DecidableEq

namespace Duration

def zero : Duration := ⟨0, by omega⟩

instance : Inhabited Duration := ⟨zero⟩

def longest : Duration := ⟨2 ^ 64 * 1000000000 - 1, by omega⟩

/-- A count of nanoseconds, or the longest length if there are more. -/
def ofNanos (n : Nat) : Duration := if h : n < 2 ^ 64 * 1000000000 then ⟨n, h⟩ else longest

def ofSeconds (s : Nat) (n : Nat := 0) : Duration := ofNanos (s * 1000000000 + n)

def ofMillis (m : Nat) : Duration := ofNanos (m * 1000000)

def seconds (d : Duration) : Nat := d.nanos / 1000000000

def subseconds (d : Duration) : Nat := d.nanos % 1000000000

def isZero (d : Duration) : Bool := d.nanos = 0

/-- The whole milliseconds, wrapped to the 64 bits of the clock. -/
def millis (d : Duration) : Nat := d.nanos / 1000000 % 2 ^ 64

/-- A bound in milliseconds, for a length in which zero means no bound. -/
def bound? (d : Duration) : Option Nat := if d.isZero then none else some d.millis

/-- The sum of two lengths, or the longest length. -/
def add (a b : Duration) : Duration := ofNanos (a.nanos + b.nanos)

instance : LE Duration := ⟨fun a b => a.nanos ≤ b.nanos⟩

instance (a b : Duration) : Decidable (a ≤ b) := inferInstanceAs (Decidable (a.nanos ≤ b.nanos))

/-! ## Text -/

/-- The digits of a fraction `part / 10 ^ width` after its point, without trailing zeros. -/
def fractionDigits (width part : Nat) : List Char :=
  let digits := Nat.toDigits 10 part
  let padded := List.replicate (width - digits.length) '0' ++ digits
  ((padded.reverse).dropWhile (· = '0')).reverse

/-- A whole count and a fraction of `10 ^ width`, with a point only if the fraction is not zero. -/
def decimal (whole width part : Nat) : String :=
  if part = 0 then toString whole
  else toString whole ++ "." ++ String.ofList (fractionDigits width part)

/-- The length in its largest unit that is not above it, exactly. -/
def text (d : Duration) : String :=
  let n := d.nanos
  if 0 < d.seconds then decimal d.seconds 9 d.subseconds ++ "s"
  else if 1000000 ≤ n then decimal (n / 1000000) 6 (n % 1000000) ++ "ms"
  else if 1000 ≤ n then decimal (n / 1000) 3 (n % 1000) ++ "µs"
  else toString n ++ "ns"

/-! ## From binary fractions -/

/-- A quotient rounded to the nearest whole number, a half to the even one. -/
def roundQuotient (num den : Nat) : Nat :=
  let q := num / den
  let r := num % den
  if 2 * r < den then q
  else if den < 2 * r then q + 1
  else if q % 2 = 0 then q else q + 1

/-- The length of a binary fraction of seconds that is not negative. -/
def ofSecondsFloat (x : Float) : Duration :=
  let bits := x.toBits.toNat
  let field := bits / 2 ^ 52 % 2 ^ 11
  let fraction := bits % 2 ^ 52
  let mantissa := if field = 0 then fraction else 2 ^ 52 + fraction
  let place := if field = 0 then 1 else field
  let scaled := mantissa * 1000000000
  if 1075 ≤ place then ofNanos (scaled * 2 ^ (place - 1075))
  else ofNanos (roundQuotient scaled (2 ^ (1075 - place)))

end Duration

end Overlay
