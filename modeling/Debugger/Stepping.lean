import Debugger.Expression

/-! Stepping: a pending step mode and the call depth it was issued at decide
whether the next entry pauses. A satisfied step is spent. -/
namespace Debugger

inductive StepMode where
  /-- Only breakpoints pause. -/
  | continue
  /-- Pause at the very next entry. -/
  | into
  /-- Pause once the depth is back at the recorded one or above it. -/
  | over
  /-- Pause once the depth is less than the recorded one. -/
  | out
deriving DecidableEq

def StepMode.name : StepMode → String
  | .continue => "Continue"
  | .into => "Into"
  | .over => "Over"
  | .out => "Out"

/-- The pending step and what it is compared with. -/
structure Steps where
  mode : StepMode := .continue
  recordedDepth : Nat := 0
  /-- The application that finished last. -/
  lastFinished : Option Expression := none
deriving DecidableEq

namespace Steps

/-- Whether `into` pauses; the other modes do not pause here. -/
def decideAtEntry (s : Steps) : Bool × Steps :=
  if s.mode = .into then (true, { s with mode := .continue }) else (false, s)

/-- Whether the depth is shallow enough for the mode. -/
def reached (s : Steps) (depth : Nat) : Bool :=
  match s.mode with
  | .over => depth ≤ s.recordedDepth
  | .out => depth < s.recordedDepth
  | .continue | .into => false

/-- Whether `over` or `out` pauses at that depth. -/
def decideAtDepth (s : Steps) (depth : Nat) : Bool × Steps :=
  if s.reached depth then (true, { s with mode := .continue }) else (false, s)

def setMode (s : Steps) (mode : StepMode) : Steps :=
  { s with mode }

def recordDepth (s : Steps) (depth : Nat) : Steps :=
  { s with recordedDepth := depth }

def finished (s : Steps) (e : Expression) : Steps :=
  { s with lastFinished := some e }

/-- Forgets the pending step, the depth and the finished application. -/
def reset (_ : Steps) : Steps :=
  {}

end Steps
end Debugger
