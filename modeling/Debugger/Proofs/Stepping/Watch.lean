import Debugger.Diagnostic
import Debugger.Breakpoint.Store
import Debugger.Proofs.CallTree.Turns

/-! The pauses of a program, seen from above: a watch over breakpoints and stepping
passes the calls in preorder and says at each whether to stop there. No session,
thread or interpreter takes part. -/
namespace Debugger

/-- What breakpoints are compared with at a call: the source span that it has in the program, and
the name that its function was declared with. -/
def Call.site (c : Call) : Site :=
  ⟨c.span.map Span.source, c.function⟩

/-- The interpreter hands over an expression, which has kept both. -/
theorem Call.site_expression (c : Call) : c.expression.site = c.site := by
  obtain ⟨_ | function, _ | lambda, span, bindings, typeArguments, children⟩ := c <;> rfl

structure Watch where
  breakpoints : Store
  mode : StepMode
  recordedDepth : Nat

namespace Watch

/-- Whether an entry at that level ends the pending step. -/
def stepEnds (w : Watch) (level : Nat) : Bool :=
  match w.mode with
  | .continue => false
  | .into => true
  | .over => level ≤ w.recordedDepth
  | .out => level < w.recordedDepth

def reason (w : Watch) (v : Visit) : Option StopReason :=
  if (w.breakpoints.shouldBreak v.call.site).1.isSome then some .breakpoint
  else if w.stepEnds v.level then some .step
  else none

/-- The watch behind a visit. A step that ends is spent, also where a breakpoint is
the reason to stop. -/
def pass (w : Watch) (v : Visit) : Watch where
  breakpoints := (w.breakpoints.shouldBreak v.call.site).2
  mode := if w.stepEnds v.level then .continue else w.mode
  recordedDepth := w.recordedDepth

/-- What a command at a pause of that level leaves behind. -/
def command (mode : StepMode) (level : Nat) (w : Watch) : Watch where
  breakpoints := w.breakpoints
  mode := mode
  recordedDepth := if mode = .continue then w.recordedDepth else level

end Watch

structure Stop where
  reason : StopReason
  visit : Visit

def Stop.snapshot (previewLength : Nat) (s : Stop) : Snapshot where
  expression := some s.visit.call.expression
  context := s.visit.context
  depth := s.visit.level
  previewLength := previewLength

/-- How far a program has come that is answered with commands. -/
structure Progress where
  watch : Watch
  commands : List StepMode
  stops : List Stop := []

namespace Progress

/-- A stop takes the next command; without one the program continues. -/
def stop (p : Progress) (reason : StopReason) (v : Visit) : Progress where
  watch := (p.watch.pass v).command (p.commands.headD .continue) v.level
  commands := p.commands.tail
  stops := p.stops ++ [⟨reason, v⟩]

def visit (p : Progress) (v : Visit) : Progress :=
  match p.watch.reason v with
  | none => { p with watch := p.watch.pass v }
  | some reason => p.stop reason v

theorem visit_of_none {p : Progress} {v : Visit} (reason : p.watch.reason v = none) :
    p.visit v = { p with watch := p.watch.pass v } := by
  simp only [visit, reason]

theorem visit_of_some {p : Progress} {v : Visit} {why : StopReason}
    (reason : p.watch.reason v = some why) : p.visit v = p.stop why v := by
  simp only [visit, reason]

theorem stops_foldl (visits : List Visit) (p : Progress) :
    p.stops <+: (visits.foldl visit p).stops := by
  induction visits generalizing p with
  | nil => exact List.prefix_refl p.stops
  | cons v rest ih =>
      refine List.IsPrefix.trans ?_ (ih (p.visit v))
      rw [visit]
      split
      · exact List.prefix_refl p.stops
      · exact List.prefix_append p.stops _

end Progress

namespace CallTree

def progress (tree : CallTree) (watch : Watch) (commands : List StepMode) : Progress :=
  tree.visits.foldl Progress.visit { watch, commands }

end CallTree
end Debugger
