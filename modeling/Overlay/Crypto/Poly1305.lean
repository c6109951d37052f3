import Overlay.Bytes

/-!
# The Poly1305 authenticator

A one-time key gives a point `r` and a mask `s`.  The message is a polynomial whose coefficients are
its pieces of sixteen octets, each with a one octet on top; the tag is its value at `r` in the field of
`2 ^ 130 - 5` elements, masked by `s`.
-/

namespace Overlay.Crypto

namespace Poly1305

def prime : Nat := 2 ^ 130 - 5

/-- The point of a key: its first half with the bits cleared that the field arithmetic needs clear. -/
def point (key : Block 32) : Nat :=
  ofLittleEndian (key.toBytes.take 16) &&& 0x0ffffffc0ffffffc0ffffffc0fffffff

def mask (key : Block 32) : Nat := ofLittleEndian (key.toBytes.drop 16)

/-- The value of the message's polynomial at `r`. -/
def value (r : Nat) (message : Bytes) : Nat :=
  (chunks 16 message).foldl (fun acc piece => (acc + ofLittleEndian (piece ++ [1])) * r % prime) 0

end Poly1305

def poly1305 (key : Block 32) (message : Bytes) : Block 16 :=
  Block.ofLE 16 (Poly1305.value (Poly1305.point key) message + Poly1305.mask key)

end Overlay.Crypto
