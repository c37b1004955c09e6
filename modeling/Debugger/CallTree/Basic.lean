import Debugger.OrderedMap
import Debugger.Snapshot

/-! Programs as trees of function applications. Each call may carry names, a
source span, the variables its scope binds and its type arguments. -/
namespace Debugger

/-- The source span of a call; a missing end of the range is the line itself. -/
structure Span where
  file : String
  line : Nat
  first : Option Nat
  last : Option Nat
deriving DecidableEq

def Span.source (s : Span) : Source :=
  ⟨s.file, s.first.getD s.line, s.line, s.last.getD s.line⟩

/-- A call with the calls made inside it, in order. -/
inductive Call where
  | mk (function : Option String) (lambda : Option String) (span : Option Span)
      (bindings : OrderedMap Value) (typeArguments : OrderedMap String) (children : List Call)

namespace Call

def function : Call → Option String
  | .mk function .. => function

def lambda : Call → Option String
  | .mk _ lambda .. => lambda

def span : Call → Option Span
  | .mk _ _ span .. => span

def bindings : Call → OrderedMap Value
  | .mk _ _ _ bindings .. => bindings

def typeArguments : Call → OrderedMap String
  | .mk _ _ _ _ typeArguments _ => typeArguments

def children : Call → List Call
  | .mk _ _ _ _ _ children => children

/-- The application a call stands for. A declared name hides a lambda name, and
without either the function is unresolved. -/
def expression (c : Call) : Expression where
  function :=
    match c.function, c.lambda with
    | some name, _ => some ⟨some name, none⟩
    | none, some name => some ⟨none, some name⟩
    | none, none => none
  source := c.span.map Span.source

def scope (c : Call) : Scope :=
  Scope.ofBindings c.bindings

def typeParameters (c : Call) : List TypeParameters :=
  if c.typeArguments.isEmpty then []
  else [c.typeArguments.map fun argument => (argument.1, Value.opaqueText argument.2)]

mutual

/-- The calls of a tree in preorder, each with its level; the root has level
`level`. -/
def preorder (level : Nat) : Call → List (Nat × Call)
  | .mk function lambda span bindings typeArguments children =>
      (level, .mk function lambda span bindings typeArguments children) ::
        preorderAll (level + 1) children

def preorderAll (level : Nat) : List Call → List (Nat × Call)
  | [] => []
  | call :: rest => preorder level call ++ preorderAll level rest

end

end Call

structure CallTree where
  main : Call

end Debugger
