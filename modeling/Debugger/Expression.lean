import Debugger.Source

/-! Function applications, the unit at which the debugger stops. -/
namespace Debugger

/-- A function, by the name it was declared with and the name a function without
a declaration was given; either may be missing. -/
structure Function where
  declared : Option String
  lambda : Option String
deriving DecidableEq

/-- The application of a function at a place; both may be unknown. -/
structure Expression where
  function : Option Function
  source : Option Source
deriving DecidableEq

namespace Expression

/-- The name function breakpoints are compared with. -/
def declaredName (e : Expression) : Option String :=
  e.function.bind (·.declared)

/-- The declared name, else the lambda name, else a marker. -/
def displayName (e : Expression) : String :=
  (e.function.bind fun f => f.declared <|> f.lambda).getD "<anonymous>"

def render (e : Expression) : String :=
  e.displayName ++ "(...)"

end Expression
end Debugger
