import Debugger.Pause.Engine
import Debugger.Proofs.Stepping.Watch

/-! What an entry comes to: the engine decides as a watch over its breakpoints and
its stepping does. -/
namespace Debugger.Engine
variable {ε α : Type}

/-- The part of an engine that decides about pauses. -/
def watch (e : Engine ε) : Watch :=
  ⟨e.breakpoints, e.steps.mode, e.steps.recordedDepth⟩

def rewatch (w : Watch) (e : Engine ε) : Engine ε :=
  { e with
    breakpoints := w.breakpoints
    steps := { e.steps with mode := w.mode, recordedDepth := w.recordedDepth } }

/-- Both step conditions together: at most one of them holds, and the mode is spent
if one does. -/
theorem decideSteps_eq (s : Steps) (w : Watch) (depth : Nat) (mode : s.mode = w.mode)
    (recorded : s.recordedDepth = w.recordedDepth) :
    (s.decideAtEntry.1 || (s.decideAtEntry.2.decideAtDepth depth).1) = w.stepEnds depth ∧
      (s.decideAtEntry.2.decideAtDepth depth).2 =
        { s with mode := if w.stepEnds depth then .continue else s.mode } := by
  obtain ⟨pending, recordedDepth, lastFinished⟩ := s
  obtain ⟨breakpoints, watched, level⟩ := w
  subst mode recorded
  cases pending with
  | «continue» => simp [Steps.decideAtEntry, Steps.decideAtDepth, Steps.reached, Watch.stepEnds]
  | into => simp [Steps.decideAtEntry, Steps.decideAtDepth, Steps.reached, Watch.stepEnds]
  | «over» =>
      by_cases shallow : depth ≤ recordedDepth <;>
        simp [Steps.decideAtEntry, Steps.decideAtDepth, Steps.reached, Watch.stepEnds, shallow]
  | out =>
      by_cases shallow : depth < recordedDepth <;>
        simp [Steps.decideAtEntry, Steps.decideAtDepth, Steps.reached, Watch.stepEnds, shallow]

theorem decide_eq (v : Visit) (e : Engine ε) :
    ∃ noted, e.decide v.call.expression v.level =
      (e.watch.reason v, (e.rewatch (e.watch.pass v)).note noted) := by
  obtain ⟨reached, spent⟩ := decideSteps_eq e.steps e.watch v.level rfl rfl
  refine ⟨StoreOperation.noteHit (e.breakpoints.shouldBreak v.call.site).1 ++
    StepOperation.noteEntry e.steps ++ StepOperation.noteDepth e.steps.decideAtEntry.2 v.level, ?_⟩
  simp only [decide, reached, spent, Call.site_expression]
  rfl

theorem enter_of_none (host : Host ε) {expression : Expression} {depth : Nat} {e : Engine ε}
    (calm : (e.decide expression depth).1 = none) :
    enter host expression depth e = .finished (.ok ()) (e.decide expression depth).2 := by
  simp only [enter, bind, Thread.step, calm]
  rfl

theorem enter_of_some (host : Host ε) {expression : Expression} {depth : Nat} {e : Engine ε}
    {reason : StopReason} (stops : (e.decide expression depth).1 = some reason) :
    enter host expression depth e =
      pause host expression reason depth (e.decide expression depth).2 := by
  simp only [enter, bind, Thread.step, stops]
  rfl

/-- An entry goes on at once or pauses, as the watch says. -/
theorem enter_eq (host : Host ε) (v : Visit) (e : Engine ε) :
    ∃ noted, enter host v.call.expression v.level e =
      match e.watch.reason v with
      | none => .finished (.ok ()) ((e.rewatch (e.watch.pass v)).note noted)
      | some reason =>
          pause host v.call.expression reason v.level
            ((e.rewatch (e.watch.pass v)).note noted) := by
  obtain ⟨noted, decided⟩ := decide_eq v e
  refine ⟨noted, ?_⟩
  simp only [enter, bind, Thread.step, decided]
  cases e.watch.reason v <;> rfl

end Debugger.Engine
