import Debugger.Decimal.Binary64

/-! The decimal text of a floating point number: the fewest digits that read
back as the same number, and of those the nearest to it, the upper one on a tie.
The text is positional for every magnitude. -/
namespace Debugger.Binary64

/-- The numbers that round to a finite number, in quarters of its last place:
ends included when the significand is even. -/
structure Interval where
  low : Nat
  value : Nat
  high : Nat
  closed : Bool

/-- The gap below a power of two is half the gap above it. -/
def interval (x : Binary64) : Interval :=
  let m := x.significand
  { low := if x.fraction = 0 ∧ 1 < x.biasedExponent then 4 * m - 1 else 4 * m - 2
    value := 4 * m
    high := 4 * m + 2
    closed := m % 2 == 0 }

/-- The decimal `digits * 10 ^ scale`. -/
structure Decimal where
  digits : Nat
  scale : Int

/-- The position of the leading digit: `10 ^ (p - 1) ≤ value < 10 ^ p`. -/
def leadingPosition (value : Nat) (exponent : Int) : Int :=
  let scaled := ((value <<< exponent.toNat) * Nat.pow 10 350) >>> (-exponent).toNat
  ((Nat.toDigits 10 scaled).length : Int) - 350

/-- The nearer of the value's two neighbours among the multiples of
`10 ^ scale`, if one of them lies in the interval. -/
def neighbour? (i : Interval) (exponent scale : Int) : Option Decimal :=
  let unit := Nat.pow 10 (-scale).toNat <<< exponent.toNat
  let grid := Nat.pow 10 scale.toNat <<< (-exponent).toNat
  let inside (d : Nat) : Bool :=
    if i.closed then i.low * unit ≤ d * grid && d * grid ≤ i.high * unit
    else i.low * unit < d * grid && d * grid < i.high * unit
  let below := i.value * unit / grid
  let remainder := i.value * unit % grid
  let upFirst : Bool := grid ≤ 2 * remainder
  let first := if upFirst then below + 1 else below
  let second := if upFirst then below else below + 1
  if inside first then some ⟨first, scale⟩
  else if inside second then some ⟨second, scale⟩
  else none

/-- Tries one more digit at a time. -/
def search (i : Interval) (exponent position : Int) : Nat → Decimal
  | 0 => ⟨i.value <<< exponent.toNat >>> (2 + (-exponent).toNat), 0⟩
  | fuel + 1 =>
      match neighbour? i exponent (position - (18 - (fuel + 1) : Int)) with
      | some decimal => decimal
      | none => search i exponent position fuel

/-- The shortest decimal of a finite number other than zero. Seventeen digits
always suffice. -/
def shortest (x : Binary64) : Decimal :=
  let exponent := x.exponent - 2
  search x.interval exponent (leadingPosition x.interval.value exponent) 17

/-- Zeros at the end of the digits move into the scale. -/
def Decimal.stripped (digits : List Char) (scale : Int) : List Char × Int :=
  let zeros := (digits.reverse.takeWhile (· == '0')).length
  (digits.take (digits.length - zeros), scale + zeros)

/-- Positional writing: zeros fill up to the point, and a whole number has no
point. -/
def Decimal.positional (d : Decimal) : String :=
  let (digits, scale) := Decimal.stripped (Nat.toDigits 10 d.digits) d.scale
  if 0 ≤ scale then String.ofList (digits ++ List.replicate scale.toNat '0')
  else
    let places := (-scale).toNat
    let padded := List.replicate (places + 1 - digits.length) '0' ++ digits
    let point := padded.length - places
    String.ofList (padded.take point ++ '.' :: padded.drop point)

def render (x : Binary64) : String :=
  if x.isNaN then "NaN"
  else
    let magnitude :=
      if !x.isFinite then "inf"
      else if x.significand = 0 then "0"
      else x.shortest.positional
    if x.isNegative then "-" ++ magnitude else magnitude

end Debugger.Binary64
