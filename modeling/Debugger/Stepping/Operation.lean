import Debugger.Diagnostic

/-! Operations on the step state as data. -/
namespace Debugger

inductive StepOperation where
  | setMode (mode : StepMode)
  | recordDepth (depth : Nat)
  | finished (expression : Expression)
  | atEntry
  | atDepth (depth : Nat)
  | reset
  | current
deriving DecidableEq

inductive StepAnswer where
  | nothing
  | flag (value : Bool)
  | steps (value : Steps)
deriving DecidableEq

namespace StepOperation

def noteEntry (s : Steps) : List Diagnostic :=
  if s.decideAtEntry.1 then [.stepIntoSatisfied] else []

def noteDepth (s : Steps) (depth : Nat) : List Diagnostic :=
  if (s.decideAtDepth depth).1 then [.stepSatisfied s.mode depth s.recordedDepth] else []

/-- The answer, what is noted, and the step state afterwards. -/
def perform (s : Steps) : StepOperation → StepAnswer × List Diagnostic × Steps
  | .setMode mode => (.nothing, [], s.setMode mode)
  | .recordDepth depth => (.nothing, [], s.recordDepth depth)
  | .finished expression => (.nothing, [], s.finished expression)
  | .atEntry => (.flag s.decideAtEntry.1, noteEntry s, s.decideAtEntry.2)
  | .atDepth depth =>
      (.flag (s.decideAtDepth depth).1, noteDepth s depth, (s.decideAtDepth depth).2)
  | .reset => (.nothing, [], s.reset)
  | .current => (.steps s, [], s)

/-- A history from the left: each answer with the state right after it, and what
is noted. -/
def performAll (s : Steps) : List StepOperation → List (StepAnswer × Steps) × List Diagnostic
  | [] => ([], [])
  | operation :: rest =>
      let (answer, noted, after) := perform s operation
      let (answers, more) := performAll after rest
      ((answer, after) :: answers, noted ++ more)

end StepOperation
end Debugger
