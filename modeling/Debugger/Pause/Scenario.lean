import Debugger.Pause.Engine

/-! Scripted use of a pause engine on one thread. An operation that may pause
carries the operations that its host performs while the pause is installed, so
scripts nest. Each performed operation has a log entry from its start, which
gets the answer when the operation is done. -/
namespace Debugger.Pause

/-- One step of a script; `onPause` is performed during the pause, if there is one. -/
inductive Operation where
  | enter (expression : Expression) (depth : Nat) (onPause : List Operation)
  | pause (expression : Expression) (reason : StopReason) (depth : Nat)
      (onPause : List Operation)
  | exit (expression : Expression)
  | capture (context : Context)
  | release (how : Release)
  | releaseWith (how : Release)
  | isPaused
  | currentState
  | currentExpression
  | resetSteps
  | store (operation : StoreOperation)
  | steps (operation : StepOperation)

inductive Answer where
  | nothing
  | verdict (result : Except DebugError Unit)
  /-- The operation was not performed. -/
  | refused
  | flag (value : Bool)
  /-- With the depth of the detached snapshot, and whether a pause was
  outstanding while it was detached. -/
  | detached (released : Bool) (prepared : Option (Nat × Bool))
  | snapshot (value : Option Snapshot)
  | expression (value : Option Expression)
  | store (value : StoreAnswer)
  | steps (value : StepAnswer)

inductive Entry where
  | did (operation : Operation) (answer : Option Answer)
  | paused (expression : Expression) (reason : StopReason) (snapshot : Snapshot)
  /-- The host gave up a pause that its script left outstanding. -/
  | abandoned
  | resumed (isPaused : Bool)

abbrev Log := Array Entry

namespace Log

/-- Puts the answer into the entry of an operation. -/
def answer (index : Nat) (value : Answer) (log : Log) : Log :=
  log.modify index fun
    | .did operation _ => .did operation (some value)
    | entry => entry

end Log

abbrev Actor := Thread (Engine Log)

def write (entry : Entry) (e : Engine Log) : Engine Log :=
  { e with host := e.host.push entry }

/-- Gives up the outstanding pause, if the script left one. -/
def abandon (e : Engine Log) : Engine Log :=
  if e.isPaused then ((write .abandoned e).release .interrupted).2 else e

/-- The host that logs what it is told, and performs a script during a pause. -/
def scriptedHost (script : Actor Unit) : Engine.Host Log where
  notifyPaused expression reason snapshot := do
    Thread.modify (write (.paused expression reason snapshot))
    script
    Thread.modify abandon
  notifyResumed := Thread.modify fun e => write (.resumed e.isPaused) e

/-- An operation that cannot pause. -/
def simple : Operation → Engine Log → Answer × Engine Log
  | .exit expression, e => (.nothing, e.exited expression)
  | .capture context, e => (.nothing, e.captureContext context)
  | .release how, e => let (released, e) := e.release how; (.flag released, e)
  | .releaseWith how, e =>
      let (detached, e) := e.releaseWith how fun snapshot e => ((snapshot.depth, e.isPaused), e)
      (.detached detached.released detached.prepared, e)
  | .isPaused, e => (.flag e.isPaused, e)
  | .currentState, e => (.snapshot e.snapshot?, e)
  | .currentExpression, e => (.expression e.lastPaused, e)
  | .resetSteps, e => (.nothing, (e.stepping .reset).2)
  | .store operation, e => let (answer, e) := e.store operation; (.store answer, e)
  | .steps operation, e => let (answer, e) := e.stepping operation; (.steps answer, e)
  | .enter .., e | .pause .., e => (.refused, e)

/-- An operation that may pause is refused while a pause is outstanding. -/
def unlessPaused (act : Actor (Except DebugError Unit)) : Actor Answer := do
  if (← Thread.get).isPaused then return .refused
  else return .verdict (← act)

def logged (operation : Operation) (act : Actor Answer) : Actor Unit := do
  let index := (← Thread.get).host.size
  Thread.modify (write (.did operation none))
  let answer ← act
  Thread.modify fun e => { e with host := e.host.answer index answer }

mutual

def Operation.perform (operation : Operation) : Actor Unit :=
  match operation with
  | .enter expression depth onPause =>
      logged (.enter expression depth onPause)
        (unlessPaused (Engine.enter (scriptedHost (performAll onPause)) expression depth))
  | .pause expression reason depth onPause =>
      logged (.pause expression reason depth onPause)
        (unlessPaused (Engine.pause (scriptedHost (performAll onPause)) expression reason depth))
  | operation => logged operation (Thread.step (simple operation))

def performAll (operations : List Operation) : Actor Unit :=
  match operations with
  | [] => pure ()
  | operation :: rest => do
      operation.perform
      performAll rest

end

/-- Performs a script on a fresh engine and returns the engine as it is left. -/
def rehearse (previewLength : Nat) (operations : List Operation) : Engine Log :=
  let fresh : Engine Log := { previewLength, host := #[] }
  (performAll operations fresh).state

end Debugger.Pause
