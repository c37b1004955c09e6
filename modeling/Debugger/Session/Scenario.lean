import Debugger.CallTree.Walk
import Debugger.Session.Basic

/-! Scripted use of a session on two threads. A controller performs actions one
after another, and listeners perform actions of their own when they are told of
events. While a program runs, a controller's command returns only when the
program is parked again or over, so one thread runs at a time; the same holds
for a listener that is told on the controller's thread. -/
namespace Debugger

/-- The kinds of events, as scripts tell them apart. -/
inductive EventKind where
  | started
  | ended
  | paused
  | resumed
  | failed
  | added
  | removed
deriving DecidableEq

def Event.kind : Event → EventKind
  | .started _ => .started
  | .ended _ => .ended
  | .paused .. => .paused
  | .resumed => .resumed
  | .failed .. => .failed
  | .breakpointAdded _ => .added
  | .breakpointRemoved _ => .removed

namespace Session

inductive PanicKind where
  | plain
  /-- A text with the number of the log entry. -/
  | numbered
  /-- Something that is no text. -/
  | payload

/-- What the controller and listeners can do. -/
inductive Action where
  | resume (mode : StepMode)
  | interrupt
  | reset
  | state
  | lookup (name : String)
  /-- Remembers the snapshot of the outstanding pause. -/
  | hold
  | held
  | isPaused
  | isActive
  | config
  | addBreakpoint (kind : Breakpoint.Kind)
  | removeBreakpoint (id : BreakpointId)
  | notifyError (message : String) (withState : Bool)
  | addListener (name : String)
  | removeListener (name : String)
  | listenerCount
  | store (operation : StoreOperation)
  | steps (operation : StepOperation)
  /-- Breaks off the listener's script for this event. -/
  | panic (kind : PanicKind)

inductive Answer where
  | nothing
  | verdict (result : Except DebugError Unit)
  | refused
  | flag (value : Bool)
  | count (value : Nat)
  | id (value : BreakpointId)
  | state (value : Except DebugError Snapshot)
  | found (value : Except DebugError (Option Variable))
  | held (value : Option Snapshot)
  | config (value : Config)
  | store (value : StoreAnswer)
  | steps (value : StepAnswer)

/-- What a listener notes about an event it is told of. -/
inductive Report where
  | started (expression : Expression) (isActive : Bool)
  | ended (expression : Expression) (isActive : Bool)
  | paused (expression : Expression) (reason : StopReason) (depth : Nat) (at? : Option String)
  | resumed (isPaused : Bool)
  | failed (message : String) (depth : Option Nat)
  | added (id : BreakpointId)
  | removed (id : BreakpointId)

inductive Operation where
  /-- Starts a program; refused while one is under way. -/
  | run (program : Nat)
  | act (action : Action)

inductive Entry where
  /-- An operation with its answer; `none` stands for the controller. -/
  | did (listener : Option String) (operation : Operation) (answer : Option Answer)
  | heard (listener : String) (report : Report)
  | finished (result : Except DebugError Nat)

/-- A listener's part: what it does at which event, each script once. -/
structure Part where
  name : String
  /-- Told of starts, ends and pauses only. -/
  minimal : Bool := false
  scripts : List (EventKind × List Action) := []

/-- What the listeners of a scenario share. -/
structure Stage where
  parts : List Part := []
  held : Option Snapshot := none
  log : Array Entry := #[]

abbrev Staged := Session Stage String

def write (entry : Entry) : Staged → Staged :=
  updateOwn fun stage => { stage with log := stage.log.push entry }

/-- Puts the answer into the entry of an operation. -/
def answer (index : Nat) (value : Answer) : Staged → Staged :=
  updateOwn fun stage =>
    { stage with
      log := stage.log.modify index fun
        | .did listener operation _ => .did listener operation (some value)
        | entry => entry }

def report (s : Staged) : Event → Report
  | .started function => .started function s.isActive
  | .ended function => .ended function s.isActive
  | .paused expression reason snapshot =>
      .paused expression reason snapshot.depth (snapshot.frames.head?.map Frame.location)
  | .resumed => .resumed s.isPaused
  | .failed message snapshot => .failed message (snapshot.map (·.depth))
  | .breakpointAdded id => .added id
  | .breakpointRemoved id => .removed id

/-- Takes the next script of a kind out of a list of scripts. -/
def takeScript (kind : EventKind) :
    List (EventKind × List Action) → List Action × List (EventKind × List Action)
  | [] => ([], [])
  | script :: rest =>
      if script.1 = kind then (script.2, rest)
      else ((takeScript kind rest).1, script :: (takeScript kind rest).2)

/-- Takes the next script of a listener for an event of a kind. -/
def takePart (name : String) (kind : EventKind) : List Part → List Action × List Part
  | [] => ([], [])
  | part :: rest =>
      if part.name = name then
        let (script, scripts) := takeScript kind part.scripts
        (script, { part with scripts } :: rest)
      else ((takePart name kind rest).1, part :: (takePart name kind rest).2)

def isMinimal (name : String) (parts : List Part) : Bool :=
  parts.any fun part => part.name = name && part.minimal

/-- Whether a listener is told of events of a kind. -/
def hears (minimal : Bool) : EventKind → Bool
  | .started | .ended | .paused => true
  | _ => !minimal

section Performance
variable {n : Type → Type} [Monad n]

/-- Performs an action other than a panic. `settle` is what a command waits for
on this thread. -/
def perform (settle : StateT Staged n Unit) (react : Reaction (StateT Staged n) String) :
    Action → StateT Staged n Answer
  | .resume mode => do
      let result ← modifyGet (resume mode)
      settle
      return .verdict result
  | .interrupt => do
      let interrupted ← modifyGet interrupt
      settle
      return .flag interrupted
  | .reset => do
      modify resetSteps
      return .nothing
  | .state => do return .state (← get).snapshot
  | .lookup name => do return .found ((← get).snapshot.map fun snapshot => snapshot.find? name)
  | .hold => do
      match (← get).snapshot with
      | .ok snapshot =>
          modify (updateOwn fun stage => { stage with held := some snapshot })
          return .verdict (.ok ())
      | .error e => return .verdict (.error e)
  | .held => do return .held (← get).host.own.held
  | .isPaused => do return .flag (← get).isPaused
  | .isActive => do return .flag (← get).isActive
  | .config => do return .config (← get).config
  | .addBreakpoint kind => do return .id (← addBreakpoint react kind)
  | .removeBreakpoint id => do return .flag (← removeBreakpoint react id)
  | .notifyError message withState => do
      let s ← get
      notifyError react message (if withState then s.snapshot? else none)
      return .nothing
  | .addListener name => do
      modify (addListener name)
      return .count (← get).listeners.length
  | .removeListener name => do return .flag (← modifyGet (removeListener name))
  | .listenerCount => do return .count (← get).listeners.length
  | .store operation => do return .store (← modifyGet (Engine.store operation))
  | .steps operation => do return .steps (← modifyGet (Engine.stepping operation))
  | .panic _ => return .nothing

/-- How a panic reads that stands in the log under the given number. -/
def PanicKind.panic (index : Nat) : PanicKind → Panic
  | .plain => .text "scripted failure"
  | .numbered => .text ("scripted failure " ++ toString index)
  | .payload => .payload

/-- Performs a listener's script up to its end or to a panic, logging each
action. -/
def performAll (settle : StateT Staged n Unit) (react : Reaction (StateT Staged n) String)
    (name : String) : List Action → StateT Staged n (Option Panic)
  | [] => return none
  | action :: rest => do
      let index := (← get).host.own.log.size
      modify (write (.did (some name) (.act action) none))
      match action with
      | .panic kind => return some (kind.panic index)
      | action =>
          let value ← perform settle react action
          modify (answer index value)
          performAll settle react name rest

/-- The scripted listeners. Each reaction uses up a script, so reactions nest no
deeper than there are scripts. -/
def scripted (settle : StateT Staged n Unit) : Nat → Reaction (StateT Staged n) String
  | nesting, name, event => do
      let s ← get
      if hears (isMinimal name s.host.own.parts) event.kind then
        modify (write (.heard name (report s event)))
        match nesting with
        | 0 => return none
        | nesting + 1 =>
            let (script, parts) := takePart name event.kind s.host.own.parts
            modify (updateOwn fun stage => { stage with parts })
            performAll settle (scripted settle nesting) name script
      else return none

end Performance

structure Parked where
  pause : Pause
  resume : Release → Staged → Run Staged (Except DebugError Nat)

/-- The interpreter's thread as the controller sees it. -/
structure Interpreter where
  parked : Option Parked := none
  journal : List Diagnostic := []

abbrev Controller := StateT Staged (StateM Interpreter)

/-- Lets the interpreter run until it is parked or over. Each thread keeps its
own diagnostics. -/
def advance (thread : Thread Staged (Except DebugError Nat)) : Controller Unit := do
  let s ← get
  let interpreter ← StateT.lift (get : StateM Interpreter Interpreter)
  match thread { s with journal := interpreter.journal } with
  | .parked pause after resume =>
      StateT.lift (set { parked := some ⟨pause, resume⟩, journal := after.journal : Interpreter })
      set { after with journal := s.journal }
  | .finished result after =>
      StateT.lift (set { parked := none, journal := after.journal : Interpreter })
      set (write (.finished result) { after with journal := s.journal })

/-- Waits for the interpreter, if the pause it is parked at was released. -/
def settle : Controller Unit := do
  let interpreter ← StateT.lift (get : StateM Interpreter Interpreter)
  match interpreter.parked with
  | none => return ()
  | some parked =>
      match ((← get).slot parked.pause.slot).signal with
      | none => return ()
      | some release => advance (parked.resume release)

def control (programs : List CallTree) (nesting : Nat) (operation : Operation) :
    Controller Unit := do
  let index := (← get).host.own.log.size
  modify (write (.did none operation none))
  match operation with
  | .act action =>
      let value ← perform settle (scripted settle nesting) action
      modify (answer index value)
  | .run number =>
      let interpreter ← StateT.lift (get : StateM Interpreter Interpreter)
      match interpreter.parked, programs[number]? with
      | none, some program =>
          modify (answer index (.verdict (.ok ())))
          advance (program.run (hook (scripted (pure ()) nesting)))
      | _, _ => modify (answer index .refused)

def controlAll (programs : List CallTree) (nesting : Nat) :
    List Operation → Controller Unit
  | [] => return ()
  | operation :: rest => do
      control programs nesting operation
      controlAll programs nesting rest

/-- A program still under way at the end is interrupted. -/
def controlAllAndStop (programs : List CallTree) (nesting : Nat) (operations : List Operation) :
    Controller Unit := do
  controlAll programs nesting operations
  let interpreter ← StateT.lift (get : StateM Interpreter Interpreter)
  if interpreter.parked.isSome then control programs nesting (.act .interrupt)

/-- Plays a scenario on a fresh session on which the named listeners are
registered, and returns the session and the interpreter as they are left. -/
def rehearse (config : Config) (programs : List CallTree) (parts : List Part)
    (registered : List String) (operations : List Operation) : Staged × Interpreter :=
  let nesting := (parts.flatMap (·.scripts)).length
  let fresh : Staged := (new config { parts }).setListeners registered
  let (((), s), interpreter) := (controlAllAndStop programs nesting operations fresh).run {}
  (s, interpreter)

end Session
end Debugger
