import Debugger.Scope

/-! Variables as they are shown: name, type and a preview of the value that
keeps within a budget of characters. -/
namespace Debugger

namespace Preview

def ellipsis : List Char := ['.', '.', '.']

/-- The budget of a variable that was given none. -/
def defaultLength : Nat := 50

/-- A text within `budget` characters: itself if it fits, else its beginning
followed by an ellipsis, or as much of the ellipsis as fits. -/
def truncate (budget : Nat) (text : List Char) : List Char :=
  if text.length ≤ budget then text
  else if budget < ellipsis.length then ellipsis.take budget
  else text.take (budget - ellipsis.length) ++ ellipsis

end Preview

/-- A binding visible where the program is paused. -/
structure Variable where
  name : String
  /-- The value; `none` for a name that is listed but unbound. -/
  value : Option Value
  /-- Bound in the innermost scope rather than inherited. -/
  isLocal : Bool
  /-- The budget of `render`. -/
  previewLength : Nat := Preview.defaultLength
deriving DecidableEq

namespace Variable

def typeName (v : Variable) : String :=
  match v.value with
  | none => "Nil"
  | some value => value.typeName?.getD "Unknown"

/-- The printed value within the budget. An unbound variable shows a fixed word,
whatever the budget. -/
def preview (v : Variable) (budget : Nat) : String :=
  match v.value with
  | none => "nil"
  | some value => String.ofList (Preview.truncate budget value.print.toList)

def render (v : Variable) : String :=
  v.name ++ ": " ++ v.typeName ++ " = " ++ v.preview v.previewLength

end Variable
end Debugger
