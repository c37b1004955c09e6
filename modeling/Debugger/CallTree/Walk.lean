import Debugger.CallTree.Basic
import Debugger.CallTree.Hook

/-! Depth-first evaluation of a call tree under a hook. Each call has a scope of
its own inside the caller's, and is under way until all its children are
evaluated. An error of the hook ends the evaluation at once; the end is reported
all the same. -/
namespace Debugger.CallTree
variable {m : Type → Type} [Monad m]

/-- The context of a call inside the given one. -/
def descend (context : Context) (call : Call) : Context where
  scopes := call.scope :: context.scopes
  callStack := context.callStack ++ [call.expression]
  typeParameters := context.typeParameters ++ call.typeParameters

mutual

/-- Evaluates a call and returns the number of calls evaluated. -/
def walk (hook : Hook m) (parent : Option Expression) (context : Context) :
    Call → m (Except DebugError Nat)
  | .mk function lambda span bindings typeArguments children => do
      let call := Call.mk function lambda span bindings typeArguments children
      let inner := descend context call
      hook.capture inner
      match ← hook.enter call.expression parent inner.callStack.length with
      | .error e => return .error e
      | .ok () =>
          match ← walkAll hook (some call.expression) inner children with
          | .error e => return .error e
          | .ok count =>
              hook.exit call.expression
              return .ok (1 + count)

def walkAll (hook : Hook m) (parent : Option Expression) (context : Context) :
    List Call → m (Except DebugError Nat)
  | [] => return .ok 0
  | call :: rest => do
      match ← walk hook parent context call with
      | .error e => return .error e
      | .ok count =>
          match ← walkAll hook parent context rest with
          | .error e => return .error e
          | .ok more => return .ok (count + more)

end

def run (tree : CallTree) (hook : Hook m) : m (Except DebugError Nat) := do
  hook.start tree.main.expression
  let result ← walk hook none {} tree.main
  hook.finish tree.main.expression
  return result

end Debugger.CallTree
