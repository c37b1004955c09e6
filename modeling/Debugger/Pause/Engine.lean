import Debugger.Breakpoint.Operation
import Debugger.Failure
import Debugger.Pause.Run
import Debugger.Snapshot
import Debugger.Stepping.Operation

/-! The pause engine. At each entry it decides whether to stop. A stop installs
a pause with its snapshot and tells the host; the thread then waits at the
pause's slot. Whoever detaches the pause releases the slot, so a pause is
released once, from within the host's callback or later. -/
namespace Debugger

/-- All that pausing reads and writes, and the host's own state. -/
structure Engine (ε : Type) where
  breakpoints : Store := {}
  steps : Steps := {}
  /-- The context handed over last. -/
  context : Context := {}
  /-- The expression of the most recent pause. -/
  lastPaused : Option Expression := none
  previewLength : Nat := Preview.defaultLength
  current : Option Pause := none
  /-- The slots of all pauses so far, in order. -/
  slots : List Slot := []
  journal : List Diagnostic := []
  host : ε

namespace Engine
variable {ε α : Type}

def note (noted : List Diagnostic) (e : Engine ε) : Engine ε :=
  { e with journal := e.journal ++ noted }

def isPaused (e : Engine ε) : Bool :=
  e.current.isSome

def snapshot? (e : Engine ε) : Option Snapshot :=
  e.current.map (·.snapshot)

def slot (e : Engine ε) (number : Nat) : Slot :=
  e.slots.getD number {}

def captureContext (context : Context) (e : Engine ε) : Engine ε :=
  { e with context }

def exited (expression : Expression) (e : Engine ε) : Engine ε :=
  { e with steps := e.steps.finished expression }

def store (operation : StoreOperation) (e : Engine ε) : StoreAnswer × Engine ε :=
  let (answer, noted, breakpoints) := operation.perform e.breakpoints
  (answer, { e with breakpoints, journal := e.journal ++ noted })

def stepping (operation : StepOperation) (e : Engine ε) : StepAnswer × Engine ε :=
  let (answer, noted, steps) := operation.perform e.steps
  (answer, { e with steps, journal := e.journal ++ noted })

/-- What detaching a pause came to, with what `prepare` returned if it ran. -/
structure Detached (α : Type) where
  released : Bool
  prepared : Option α

/-- Detaches the outstanding pause, runs `prepare` on its snapshot and then
releases the slot. Without an outstanding pause nothing runs. -/
def releaseWith (r : Release) (prepare : Snapshot → Engine ε → α × Engine ε) (e : Engine ε) :
    Detached α × Engine ε :=
  match e.current with
  | none => (⟨false, none⟩, e.note [.releaseIgnored r])
  | some pause =>
      let (value, prepared) := prepare pause.snapshot { e with current := none }
      let (first, slot) := (prepared.slot pause.slot).release r
      (⟨first, some value⟩, { prepared with slots := prepared.slots.set pause.slot slot })

def release (r : Release) (e : Engine ε) : Bool × Engine ε :=
  let (detached, after) := e.releaseWith r fun _ e => ((), e)
  (detached.released, after)

/-- The decision at an entry. All three conditions are evaluated, so hit counts
and one-shot steps move on even when another condition stops the program; of two
reasons the breakpoint is given. -/
def decide (expression : Expression) (depth : Nat) (e : Engine ε) :
    Option StopReason × Engine ε :=
  let (fired, breakpoints) := e.breakpoints.shouldBreak expression.site
  let (atEntry, entered) := e.steps.decideAtEntry
  let (atDepth, steps) := entered.decideAtDepth depth
  let reason :=
    if fired.isSome then some .breakpoint
    else if atEntry || atDepth then some .step
    else none
  let noted := StoreOperation.noteHit fired ++ StepOperation.noteEntry e.steps ++
    StepOperation.noteDepth entered depth
  (reason, { e with breakpoints, steps, journal := e.journal ++ noted })

/-- The view that a pause at the expression offers. -/
def view (expression : Expression) (depth : Nat) (e : Engine ε) : Snapshot :=
  { expression := some expression, context := e.context, depth, previewLength := e.previewLength }

/-- The pause at the expression, under a new slot. -/
def newPause (expression : Expression) (reason : StopReason) (depth : Nat) (e : Engine ε) :
    Pause :=
  { slot := e.slots.length, reason, snapshot := e.view expression depth }

/-- Publishes a pause together with its snapshot. -/
def install (expression : Expression) (reason : StopReason) (depth : Nat) (e : Engine ε) :
    Engine ε :=
  { e with
    lastPaused := some expression
    current := some (e.newPause expression reason depth)
    slots := e.slots ++ [{}]
    journal := e.journal ++ (if e.isPaused then [.pauseReplaced] else []) ++
      [.paused reason expression depth] }

/-- Waits for the release of a pause; one that is released already does not park
the thread. -/
def wait (pause : Pause) : Thread (Engine ε) Release := fun e =>
  match (e.slot pause.slot).signal with
  | some r => .finished r e
  | none => .parked pause e .finished

/-- Takes notice of the release. A pause that is still the current one is taken
down; a later one stays. -/
def leave (pause : Pause) (r : Release) (e : Engine ε) : Engine ε :=
  { e with
    current := e.current.filter fun current => current.slot ≠ pause.slot
    journal := e.journal ++ [.pauseReleased r] }

/-- Whom the engine tells of pauses, on the interpreter's thread. -/
structure Host (ε : Type) where
  /-- Called once the pause is installed. -/
  notifyPaused : Expression → StopReason → Snapshot → Thread (Engine ε) Unit
  /-- Called once a command has released the pause. -/
  notifyResumed : Thread (Engine ε) Unit

/-- Stops until the pause is released. An interrupted pause is an error and is
not reported as resumed. -/
def pause (host : Host ε) (expression : Expression) (reason : StopReason) (depth : Nat) :
    Thread (Engine ε) (Except DebugError Unit) := do
  let pause := (← Thread.get).newPause expression reason depth
  Thread.modify (install expression reason depth)
  host.notifyPaused expression reason pause.snapshot
  let release ← wait pause
  Thread.modify (leave pause release)
  match release with
  | .resumed =>
      host.notifyResumed
      return .ok ()
  | .interrupted => return .error .interrupted

def enter (host : Host ε) (expression : Expression) (depth : Nat) :
    Thread (Engine ε) (Except DebugError Unit) := do
  let reason ← Thread.step (decide expression depth)
  match reason with
  | none => return .ok ()
  | some reason => pause host expression reason depth

end Engine
end Debugger
