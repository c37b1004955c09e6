/-! Binary floating point in the 64-bit interchange format, by its bit pattern.
A finite pattern denotes `significand * 2 ^ exponent` with a sign. A decimal
number is rounded to the nearest pattern, a tie to the even significand. -/
namespace Debugger

/-- A 64-bit floating point number, told apart by its bits alone. -/
structure Binary64 where
  bits : UInt64
deriving DecidableEq

namespace Binary64

def isNegative (x : Binary64) : Bool :=
  0x8000000000000000 ≤ x.bits.toNat

/-- The weight of the leading bit of a significand, two to the 52nd. -/
def leadingBit : Nat := 0x10000000000000

/-- The exponent bits of what is not finite. -/
def topExponent : Nat := 0x7FF

def biasedExponent (x : Binary64) : Nat :=
  x.bits.toNat / leadingBit % (topExponent + 1)

def fraction (x : Binary64) : Nat :=
  x.bits.toNat % leadingBit

def isFinite (x : Binary64) : Bool :=
  x.biasedExponent < topExponent

def isNaN (x : Binary64) : Bool :=
  x.biasedExponent == topExponent && x.fraction != 0

/-- The significand; the leading bit is implied unless the number is subnormal. -/
def significand (x : Binary64) : Nat :=
  if x.biasedExponent = 0 then x.fraction else leadingBit + x.fraction

/-- The exponent of two that goes with `significand`. -/
def exponent (x : Binary64) : Int :=
  if x.biasedExponent = 0 then -1074 else (x.biasedExponent : Int) - 1075

/-- The pattern with the given sign and the other 63 bits. -/
def ofMagnitude (negative : Bool) (magnitude : Nat) : Binary64 :=
  ⟨UInt64.ofNat (if negative then 0x8000000000000000 + magnitude else magnitude)⟩

def infinity (negative : Bool) : Binary64 :=
  ofMagnitude negative (topExponent * leadingBit)

def quietNaN (negative : Bool) : Binary64 :=
  ofMagnitude negative (topExponent * leadingBit + leadingBit / 2)

/-- The quotient rounded to the nearest number, a tie to the even one. -/
def roundDiv (n d : Nat) : Nat :=
  let quotient := n / d
  let twice := 2 * (n % d)
  if twice < d then quotient
  else if d < twice then quotient + 1
  else quotient + quotient % 2

/-- The magnitude bits of the number nearest to `n / d`, for positive `n` and
`d`. Rounding up may carry into the exponent, which is right as it stands. -/
def magnitudeOfRatio (n d : Nat) : Nat :=
  let guess : Int := (Nat.log2 n : Int) - (Nat.log2 d : Int) - 52
  -- the quotient has 53 bits at `guess` or at `guess - 1`
  let fits : Bool := d <<< (52 + guess).toNat ≤ n <<< (-(52 + guess)).toNat
  let exponent : Int := max (if fits then guess else guess - 1) (-1074)
  let rounded := roundDiv (n <<< (-exponent).toNat) (d <<< exponent.toNat)
  (exponent + 1074).toNat * leadingBit + rounded

/-- The number nearest to `digits * 10 ^ exponent`, or `none` when that
overflows. Magnitudes far outside the range are settled by their length. -/
def ofDecimal? (negative : Bool) (digits : Nat) (exponent : Int) : Option Binary64 :=
  let length : Int := (Nat.toDigits 10 digits).length
  if digits = 0 ∨ length + exponent < -330 then some (ofMagnitude negative 0)
  else if 310 < length + exponent then none
  else
    let magnitude := magnitudeOfRatio
      (digits * Nat.pow 10 exponent.toNat) (Nat.pow 10 (-exponent).toNat)
    if magnitude < topExponent * leadingBit then some (ofMagnitude negative magnitude) else none

/-- The number nearest to a natural number below `2 ^ 1000`. -/
def ofNat (n : Nat) : Binary64 :=
  if n = 0 then ofMagnitude false 0 else ofMagnitude false (magnitudeOfRatio n 1)

end Binary64
end Debugger
