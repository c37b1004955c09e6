import Debugger.Toml.Value

/-! Shapes that documents are held to: what a value has to be to stand for a
text, a number in range or a switch. -/
namespace Debugger.Toml.Value

def asText : Value → Except DocumentFault String
  | .string text => .ok text
  | _ => .error (.wrongShape "a string")

def asSwitch : Value → Except DocumentFault Bool
  | .boolean value => .ok value
  | _ => .error (.wrongShape "a boolean")

/-- A number from 0 to `limit`. -/
def asNumber (limit : Nat) : Value → Except DocumentFault Nat
  | .integer (.ofNat n) =>
      if n ≤ limit then .ok n else .error (.wrongShape "a smaller integer")
  | _ => .error (.wrongShape "an integer that is not negative")

/-- The key under which a moment reads as a table of one text. -/
def momentKey : String := "$__toml_private_datetime"

/-- The entries of a table. A moment stands for a table of one entry. -/
def asEntries : Value → Except DocumentFault (List (String × Value))
  | .table entries => .ok entries
  | .moment text => .ok [(momentKey, .string text)]
  | _ => .error (.wrongShape "a table")

mutual

/-- Whether all numbers of a value can be read and its integers fit into 128 bits,
signed or not. -/
def isRepresentable : Value → Bool
  | .integer n =>
      -0x80000000000000000000000000000000 ≤ n && n < 0x100000000000000000000000000000000
  | .unreadable => false
  | .array items => areRepresentable items
  | .table entries => haveRepresentable entries
  | _ => true

def areRepresentable : List Value → Bool
  | [] => true
  | value :: rest => value.isRepresentable && areRepresentable rest

def haveRepresentable : List (String × Value) → Bool
  | [] => true
  | (_, value) :: rest => value.isRepresentable && haveRepresentable rest

end

/-- A value that is not used, but has to be readable. -/
def asIgnored (value : Value) : Except DocumentFault Unit :=
  if value.isRepresentable then .ok () else .error (.wrongShape "a smaller number")

end Debugger.Toml.Value
