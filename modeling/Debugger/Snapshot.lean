import Debugger.Expression
import Debugger.Text.Lines
import Debugger.Variable

/-! What the interpreter looks like where it is paused: the call stack, the
variables in view and the type parameters, read off the context that the
interpreter handed over last. -/
namespace Debugger

/-- Bindings of type parameters of one generic application, in binding order. -/
abbrev TypeParameters := List (String × Value)

/-- What the interpreter hands over before each entry. -/
structure Context where
  /-- The chain of scopes, innermost first; empty when there is none. -/
  scopes : ScopeChain := []
  /-- The applications under way, outermost first. -/
  callStack : List Expression := []
  /-- The type parameters in force, outermost first. -/
  typeParameters : List TypeParameters := []
deriving DecidableEq

/-- One entry of the call stack; the innermost has index 0. -/
structure Frame where
  index : Nat
  expression : Expression
deriving DecidableEq

namespace Frame

def functionName (f : Frame) : String :=
  f.expression.displayName

def source (f : Frame) : Option Source :=
  f.expression.source

def location (f : Frame) : String :=
  match f.source with
  | some source => f.functionName ++ " at " ++ source.render
  | none => f.functionName ++ " (unknown location)"

def render (f : Frame) : String :=
  "#" ++ toString f.index ++ " " ++ f.location

end Frame

/-- A read-only view of the interpreter at a pause. -/
structure Snapshot where
  expression : Option Expression
  context : Context
  /-- The call depth reported with the entry. -/
  depth : Nat
  previewLength : Nat := Preview.defaultLength
deriving DecidableEq

namespace Snapshot

def source (s : Snapshot) : Option Source :=
  s.expression.bind (·.source)

/-- The call stack, innermost first. -/
def frames (s : Snapshot) : List Frame :=
  s.context.callStack.reverse.mapIdx Frame.mk

/-- The entries of one scope. A repeated name shows the value that the scope
gives to the name. -/
def variablesOf (previewLength : Nat) (isLocal : Bool) (scope : Scope) : List Variable :=
  scope.names.map fun name => ⟨name, scope.value? name, isLocal, previewLength⟩

/-- All bindings in view, innermost scope first. Shadowed names are kept. -/
def visibleVariables (s : Snapshot) : List Variable :=
  match s.context.scopes with
  | [] => []
  | innermost :: outer =>
      variablesOf s.previewLength true innermost ++
        outer.flatMap (variablesOf s.previewLength false)

/-- The variables of a frame: scopes are not kept frame by frame, so every frame
sees the scopes in force at the pause. -/
def variablesInFrame (s : Snapshot) (_index : Nat) : List Variable :=
  s.visibleVariables

def find? (s : Snapshot) (name : String) : Option Variable :=
  (s.context.scopes.lookup? name).map fun value =>
    ⟨name, some value, (s.context.scopes.head?.bind (·.value? name)).isSome, s.previewLength⟩

def stackText (s : Snapshot) : String :=
  Text.joinLines (s.frames.map Frame.render)

def variablesText (s : Snapshot) : String :=
  Text.joinLines (s.visibleVariables.map Variable.render)

end Snapshot
end Debugger
