/-!
Numbers in the 64-bit binary format, by their bit patterns.

A `Binary64` is a signed magnitude `m * 2 ^ q` or an infinity; the patterns that are no number at
all are kept out of this type. `ofRatio` rounds a quotient of natural numbers to the nearest
magnitude, ties to the even mantissa.
-/
namespace Fallback

/-- A number in the 64-bit binary format. -/
structure Binary64 where
  bits : UInt64
  deriving DecidableEq, Inhabited

/-- The distance of a number from zero: `finite m q` is `m * 2 ^ q`. -/
inductive Magnitude
  | finite (mantissa : Nat) (exponent : Int)
  | infinite
  deriving DecidableEq

namespace Binary64

/-- The pattern of the positive infinity, and the first one above all finite magnitudes. -/
def infinityBits : Nat :=
  0x7FF0000000000000

/-- The weight of the sign bit. -/
def signBit : Nat :=
  0x8000000000000000

/-- The lowest exponent, shared by the numbers below the normal range. -/
def lowestExponent : Int :=
  -1074

/-- The sign bit is set. -/
def isNegative (x : Binary64) : Bool :=
  signBit ≤ x.bits.toNat

/-- The pattern without its sign bit. -/
def magnitudeBits (x : Binary64) : Nat :=
  x.bits.toNat % signBit

/-- What the pattern without its sign bit stands for. -/
def magnitude (x : Binary64) : Magnitude :=
  let b := x.magnitudeBits
  let field : Nat := b / Nat.pow 2 52
  if infinityBits ≤ b then .infinite
  else if field = 0 then .finite b lowestExponent
  else .finite (Nat.pow 2 52 + b % Nat.pow 2 52) (lowestExponent + (field - 1 : Nat))

/-- Positive and negative zero. -/
def isZero (x : Binary64) : Bool :=
  x.magnitudeBits = 0

/-- The number with the given sign and magnitude pattern. -/
def ofMagnitudeBits (negative : Bool) (b : Nat) : Binary64 :=
  ⟨UInt64.ofNat (if negative then signBit + b else b)⟩

/-- The quotient to the nearest natural number, ties to the even one. -/
def roundQuotient (num den : Nat) : Nat :=
  let q := num / den
  let twice := 2 * (num % den)
  if twice < den then q
  else if den < twice then q + 1
  else q + q % 2

/-- The largest power of two that does not exceed `num / den`, for positive numbers. -/
def binaryExponent (num den : Nat) : Int :=
  let e : Int := (Nat.log2 num : Int) - (Nat.log2 den : Int)
  if num * Nat.pow 2 (-e).toNat < den * Nat.pow 2 e.toNat then e - 1 else e

/-- The pattern of the magnitude nearest to `num / den`. -/
def ofRatio (num den : Nat) : Nat :=
  if num = 0 then 0
  else
    let q := max (binaryExponent num den - 52) lowestExponent
    let m := roundQuotient (num * Nat.pow 2 (-q).toNat) (den * Nat.pow 2 q.toNat)
    min ((q - lowestExponent).toNat * Nat.pow 2 52 + m) infinityBits

/-- The pattern of the magnitude nearest to `m * 10 ^ e`. Far outside the range of the format the
answer is known without the power. -/
def ofDecimal (m : Nat) (e : Int) : Nat :=
  let digits : Int := Nat.log2 m / 3 + 1
  if m = 0 then 0
  else if 400 < e then infinityBits
  else if digits + e < -400 then 0
  else if 0 ≤ e then ofRatio (m * Nat.pow 10 e.toNat) 1
  else ofRatio m (Nat.pow 10 (-e).toNat)

/-- The number is the integer `n`. -/
def equalsInt (x : Binary64) (n : Int) : Bool :=
  match x.magnitude with
  | .infinite => false
  | .finite m q =>
    let signed : Int := if x.isNegative then -(m : Int) else m
    if 0 ≤ q then signed * Int.pow 2 q.toNat = n else signed = n * Int.pow 2 (-q).toNat

/-- Equal as numbers: the two zeros are equal. -/
def equals (x y : Binary64) : Bool :=
  x.bits = y.bits || (x.isZero && y.isZero)

/-- The integer part, if the number is finite. -/
def truncate? (x : Binary64) : Option Int :=
  match x.magnitude with
  | .infinite => none
  | .finite m q =>
    let n : Nat := if 0 ≤ q then m * Nat.pow 2 q.toNat else m / Nat.pow 2 (-q).toNat
    some (if x.isNegative then -(n : Int) else n)

end Binary64

end Fallback
