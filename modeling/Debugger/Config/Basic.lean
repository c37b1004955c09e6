import Debugger.Variable

/-! The settings of a debug session. -/
namespace Debugger

/-- What happens to the remaining listeners when one breaks off. -/
inductive FailurePolicy where
  /-- They are still told. -/
  | continue
  /-- They are not told of this event. -/
  | abort
deriving DecidableEq

def FailurePolicy.name : FailurePolicy → String
  | .continue => "Continue"
  | .abort => "Abort"

/-- The settings, each with the value it has when nothing is said. -/
structure Config where
  /-- The preview budget of every variable shown. -/
  previewLength : Nat := Preview.defaultLength
  listenerFailure : FailurePolicy := .continue
  /-- Whether diagnostics are wanted in full. -/
  trace : Bool := false
deriving DecidableEq

end Debugger
