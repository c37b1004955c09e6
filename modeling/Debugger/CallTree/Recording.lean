import Debugger.CallTree.Hook

/-! A hook that records its calls, and may refuse an entry. -/
namespace Debugger

inductive HookCall where
  | start (function : Expression)
  | finish (function : Expression)
  | capture (context : Context)
  | enter (expression : Expression) (parent : Option Expression) (depth : Nat)
  | exit (expression : Expression)
deriving DecidableEq

/-- An error that a recording hook returns from one entry. -/
structure Refusal where
  /-- The entry, counted from one. -/
  entry : Nat
  error : DebugError

/-- The calls so far, in order, and how many of them were entries. -/
structure Recording where
  calls : Array HookCall := #[]
  entries : Nat := 0

namespace Recording

def record (call : HookCall) (r : Recording) : Recording :=
  { r with calls := r.calls.push call }

/-- Records every call, and refuses the entry named by the refusal after
recording it. -/
def hook (refusal : Option Refusal) : Hook (StateM Recording) where
  start function := modify (record (.start function))
  finish function := modify (record (.finish function))
  capture context := modify (record (.capture context))
  enter expression parent depth := do
    modify fun r => { r.record (.enter expression parent depth) with entries := r.entries + 1 }
    let entered := (← get).entries
    match refusal with
    | some refusal => return if refusal.entry = entered then .error refusal.error else .ok ()
    | none => return .ok ()
  exit expression := modify (record (.exit expression))

end Recording
end Debugger
