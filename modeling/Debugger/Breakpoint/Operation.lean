import Debugger.Breakpoint.Store
import Debugger.Diagnostic

/-! Operations on a breakpoint store as data, so that histories of them can be
run and spoken about. -/
namespace Debugger

inductive StoreOperation where
  | add (kind : Breakpoint.Kind)
  | remove (id : BreakpointId)
  | get (id : BreakpointId)
  | list
  | ids
  | clear
  | size
  | isEmpty
  | setEnabled (id : BreakpointId) (enabled : Bool)
  | setCondition (id : BreakpointId) (condition : Option String)
  | setTarget (id : BreakpointId) (target : Nat)
  | shouldBreak (site : Site)
deriving DecidableEq

inductive StoreAnswer where
  | nothing
  | flag (value : Bool)
  | count (value : Nat)
  | id (value : BreakpointId)
  | breakpoint (value : Option Breakpoint)
  | breakpoints (value : List Breakpoint)
  | ids (value : List BreakpointId)
deriving DecidableEq

namespace StoreOperation

/-- The diagnostics of a breakpoint that fired, if one did. -/
def noteHit (fired : Option Breakpoint) : List Diagnostic :=
  fired.toList.map fun b => .breakpointHit b.id b.hitCount

/-- The answer, what is noted, and the store afterwards. -/
def perform (s : Store) : StoreOperation → StoreAnswer × List Diagnostic × Store
  | .add kind => (.id (s.add kind).1, [.breakpointAdded (s.add kind).1 kind], (s.add kind).2)
  | .remove id => (.flag (s.remove id).1, [.breakpointRemoval id (s.remove id).1], (s.remove id).2)
  | .get id => (.breakpoint (s.get? id), [], s)
  | .list => (.breakpoints s.list, [], s)
  | .ids => (.ids s.ids, [], s)
  | .clear => (.nothing, [], s.clear)
  | .size => (.count s.size, [], s)
  | .isEmpty => (.flag s.isEmpty, [], s)
  | .setEnabled id enabled => (.flag (s.setEnabled id enabled).1, [], (s.setEnabled id enabled).2)
  | .setCondition id condition =>
      (.flag (s.setCondition id condition).1, [], (s.setCondition id condition).2)
  | .setTarget id target => (.flag (s.setTarget id target).1, [], (s.setTarget id target).2)
  | .shouldBreak site =>
      (.flag (s.shouldBreak site).1.isSome, noteHit (s.shouldBreak site).1, (s.shouldBreak site).2)

/-- A history from the left: the answers, what is noted, and the final store. -/
def performAll (s : Store) : List StoreOperation → List StoreAnswer × List Diagnostic × Store
  | [] => ([], [], s)
  | operation :: rest =>
      let (answer, noted, after) := perform s operation
      let (answers, more, final) := performAll after rest
      (answer :: answers, noted ++ more, final)

end StoreOperation
end Debugger
