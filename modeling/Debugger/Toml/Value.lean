import Debugger.Decimal.Binary64
import Debugger.Failure

/-! Values of TOML documents, which are compared part by part. -/
namespace Debugger.Toml

inductive Value where
  | string (text : String)
  /-- Integers are kept exactly; their range is checked where they are used. -/
  | integer (value : Int)
  | float (value : Binary64)
  /-- A word in the form of a number that spells none, or one beyond all floating
  point numbers. It may stand where no value is taken, and is refused elsewhere. -/
  | unreadable
  | boolean (value : Bool)
  /-- A date, a time or both, in its normal spelling. -/
  | moment (text : String)
  | array (items : List Value)
  /-- A table with its keys in byte order. -/
  | table (entries : List (String × Value))

namespace Value

mutual

/-- Whether two values are the same. -/
def same : Value → Value → Bool
  | .string text, .string other => text = other
  | .integer n, .integer m => n = m
  | .float x, .float y => x = y
  | .unreadable, .unreadable => true
  | .boolean b, .boolean c => b = c
  | .moment text, .moment other => text = other
  | .array items, .array others => sameItems items others
  | .table entries, .table others => sameEntries entries others
  | _, _ => false

def sameItems : List Value → List Value → Bool
  | [], [] => true
  | value :: rest, other :: others => same value other && sameItems rest others
  | _, _ => false

def sameEntries : List (String × Value) → List (String × Value) → Bool
  | [], [] => true
  | (key, value) :: rest, (otherKey, other) :: others =>
      key = otherKey && same value other && sameEntries rest others
  | _, _ => false

end

mutual

theorem same_iff : ∀ value other : Value, same value other = true ↔ value = other
  | .string _, other | .integer _, other | .float _, other | .unreadable, other
  | .boolean _, other | .moment _, other => by cases other <;> simp [same]
  | .array items, other => by cases other <;> simp [same, sameItems_iff items]
  | .table entries, other => by cases other <;> simp [same, sameEntries_iff entries]

theorem sameItems_iff : ∀ items others : List Value, sameItems items others = true ↔ items = others
  | [], others => by cases others <;> simp [sameItems]
  | value :: rest, others => by
      cases others <;> simp [sameItems, same_iff value, sameItems_iff rest]

theorem sameEntries_iff :
    ∀ entries others : List (String × Value), sameEntries entries others = true ↔ entries = others
  | [], others => by cases others <;> simp [sameEntries]
  | (key, value) :: rest, others => by
      cases others <;>
        simp [sameEntries, same_iff value, sameEntries_iff rest, Prod.ext_iff]

end

instance : DecidableEq Value := fun value other =>
  decidable_of_iff (same value other = true) (same_iff value other)

end Value

/-- A reader takes characters from the front and returns the rest. -/
abbrev Reading (α : Type) := Except DocumentFault (α × List Char)

/-- Takes a text for a document, and gives its top-level entries. -/
abbrev DocumentReader := String → Except DocumentFault (List (String × Value))

/-- The text is no document; the fault names how much was left. -/
def malformed {α : Type} (rest : List Char) : Except DocumentFault α :=
  .error (.malformed rest.length)

end Debugger.Toml
