import Debugger.Proofs.Pause.Release

/-! Tours: programs whose pauses are answered in any way, seen from above. An answer
may change the breakpoints, lets the program go on or abandons the pause, and may
come from a listener or from a controller. -/
namespace Debugger

/-- What is done about a pause. -/
structure Answer where
  /-- Given by a listener that is told of the pause, and not by the controller of a
  parked program. -/
  inside : Bool
  /-- Operations on the breakpoints beforehand. -/
  changes : List StoreOperation := []
  /-- How the program goes on; `none` abandons the pause. -/
  mode : Option StepMode

namespace Answer

/-- The mere command of a listener. -/
def now (mode : StepMode) : Answer where
  inside := true
  mode := some mode

def release (a : Answer) : Release :=
  match a.mode with
  | some _ => .resumed
  | none => .interrupted

/-- The watch as the answer to a pause of that level leaves it. -/
def settle (a : Answer) (level : Nat) (w : Watch) : Watch :=
  let changed : Watch :=
    { w with breakpoints := (StoreOperation.performAll w.breakpoints a.changes).2.2 }
  match a.mode with
  | some mode => changed.command mode level
  | none => changed

end Answer

/-- A stop with its place in preorder and how it was answered. -/
structure Halt extends Stop where
  position : Nat
  answer : Answer
  /-- The watch as the answer leaves it. -/
  watch : Watch

/-- How far an answered program has come. -/
structure Tour where
  watch : Watch
  answers : List Answer
  entered : Nat := 0
  halts : List Halt := []
  /-- Whether the last halt was abandoned. -/
  abandoned : Bool := false

namespace Tour

/-- Without answers left the program continues. -/
def next (t : Tour) : Answer :=
  t.answers.headD (.now .continue)

def halt (t : Tour) (reason : StopReason) (v : Visit) : Halt where
  position := t.entered
  reason := reason
  visit := v
  answer := t.next
  watch := t.next.settle v.level (t.watch.pass v)

def stop (t : Tour) (reason : StopReason) (v : Visit) : Tour where
  watch := (t.halt reason v).watch
  answers := t.answers.tail
  entered := t.entered + 1
  halts := t.halts ++ [t.halt reason v]
  abandoned := t.next.mode.isNone

/-- Nothing is entered once a halt was abandoned. -/
def visit (t : Tour) (v : Visit) : Tour :=
  if t.abandoned then t
  else
    match t.watch.reason v with
    | none => { t with watch := t.watch.pass v, entered := t.entered + 1 }
    | some reason => t.stop reason v

/-- How an evaluation ends that has come that far. -/
def verdict (t : Tour) : Except DebugError Unit :=
  if t.abandoned then .error .interrupted else .ok ()

@[simp] theorem verdict_stop (t : Tour) (reason : StopReason) (v : Visit) :
    (t.stop reason v).verdict = t.next.release.verdict := by
  cases mode : t.next.mode <;> simp [verdict, stop, Answer.release, Release.verdict, mode]

theorem visit_of_none {t : Tour} {v : Visit} (going : t.abandoned = false)
    (reason : t.watch.reason v = none) :
    t.visit v = { t with watch := t.watch.pass v, entered := t.entered + 1 } := by
  simp [visit, going, reason]

theorem visit_of_some {t : Tour} {v : Visit} {why : StopReason} (going : t.abandoned = false)
    (reason : t.watch.reason v = some why) : t.visit v = t.stop why v := by
  simp [visit, going, reason]

theorem visit_abandoned {t : Tour} (abandoned : t.abandoned = true) (v : Visit) :
    t.visit v = t := by
  simp [visit, abandoned]

theorem foldl_visit_abandoned {t : Tour} (abandoned : t.abandoned = true) (visits : List Visit) :
    visits.foldl visit t = t := by
  induction visits with
  | nil => rfl
  | cons v rest ih => rw [List.foldl_cons, visit_abandoned abandoned, ih]

end Tour

namespace CallTree

def tour (tree : CallTree) (watch : Watch) (answers : List Answer) : Tour :=
  tree.visits.foldl Tour.visit { watch, answers }

end CallTree
end Debugger
