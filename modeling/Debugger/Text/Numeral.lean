/-! Numerals: decimal numbers read from text up to a bound, and fixed-width
hexadecimal writing. -/
namespace Debugger.Text

/-- Why a text is not a number in range. -/
inductive NumeralFault where
  | empty
  | invalidDigit
  | tooLarge
deriving DecidableEq

def NumeralFault.message : NumeralFault → String
  | .empty => "cannot parse integer from empty string"
  | .invalidDigit => "invalid digit found in string"
  | .tooLarge => "number too large to fit in target type"

/-- The value of an ASCII decimal digit. -/
def digit? (c : Char) : Option Nat :=
  if c.isDigit then some (c.toNat - '0'.toNat) else none

/-- Reads digits from the left, so of two faults the leftmost is reported. -/
def readDigits (bound : Nat) : Nat → List Char → Except NumeralFault Nat
  | value, [] => .ok value
  | value, c :: rest =>
      match digit? c with
      | none => .error .invalidDigit
      | some digit =>
          if value * 10 + digit ≤ bound then readDigits bound (value * 10 + digit) rest
          else .error .tooLarge

/-- A number from 0 to `bound`: decimal digits, optionally after one plus sign. -/
def readBounded (bound : Nat) : List Char → Except NumeralFault Nat
  | [] => .error .empty
  | ['+'] => .error .invalidDigit
  | '+' :: digits => readDigits bound 0 digits
  | digits => readDigits bound 0 digits

/-- The hexadecimal digits 0 to f. -/
def hexDigit (n : Nat) : Char :=
  if n < 10 then Char.ofNat ('0'.toNat + n) else Char.ofNat ('a'.toNat + (n - 10))

/-- The lowest `width` hexadecimal digits of `n`, most significant first. -/
def hex : Nat → Nat → List Char
  | 0, _ => []
  | width + 1, n => hex width (n / 16) ++ [hexDigit (n % 16)]

end Debugger.Text
