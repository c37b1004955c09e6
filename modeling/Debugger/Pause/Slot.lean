/-! The release signal of a single pause. It is given once; later releases
change nothing. -/
namespace Debugger

inductive Release where
  /-- A command lets the program go on. -/
  | resumed
  /-- The pause is abandoned and the program unwinds with an error. -/
  | interrupted
deriving DecidableEq

def Release.name : Release → String
  | .resumed => "Resumed"
  | .interrupted => "Interrupted"

/-- The signal, once it is given. -/
structure Slot where
  signal : Option Release := none
deriving DecidableEq

namespace Slot

def isReleased (s : Slot) : Bool :=
  s.signal.isSome

/-- Gives the signal and says whether this release was the first. -/
def release (s : Slot) (r : Release) : Bool × Slot :=
  match s.signal with
  | some _ => (false, s)
  | none => (true, ⟨some r⟩)

end Slot
end Debugger
