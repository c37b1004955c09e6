import Debugger.Value

/-! Lexical scopes and chains of them, innermost first. A scope lists its names
in binding order, repeats kept. A name may be listed and yet unbound; looking it
up then goes on to the enclosing scope. -/
namespace Debugger

/-- One scope, without those around it. -/
structure Scope where
  entries : List (String × Option Value)
deriving DecidableEq

namespace Scope

def names (s : Scope) : List String :=
  s.entries.map (·.1)

/-- The value of the first entry with that name. -/
def value? (s : Scope) (name : String) : Option Value :=
  (s.entries.find? (·.1 = name)).bind (·.2)

/-- The scope that binds every name it lists. -/
def ofBindings (bindings : List (String × Value)) : Scope :=
  ⟨bindings.map fun binding => (binding.1, some binding.2)⟩

end Scope

/-- A scope and the scopes around it, innermost first. -/
abbrev ScopeChain := List Scope

/-- The value of the innermost scope that binds the name. -/
def ScopeChain.lookup? (chain : ScopeChain) (name : String) : Option Value :=
  chain.findSome? (·.value? name)

end Debugger
