import Debugger.CallTree.Hook
import Debugger.Pause.Engine
import Debugger.Session.Listener

/-! Debug sessions. A session is a pause engine whose host keeps listeners and
tells them what happens. Commands need an outstanding pause: the one that
detaches it writes the step state, and a command without a pause changes
nothing. Functions that tell listeners run in a state monad over any other, so
that the two threads that share a session can use them. -/
namespace Debugger

/-- The part of a session in front of its engine. -/
structure Front (ε ℓ : Type) where
  /-- Registrations in order; a listener may stand here more than once. -/
  listeners : List ℓ := []
  /-- Whether a top-level execution has started and not ended. -/
  active : Bool := false
  config : Config := {}
  /-- The listeners' own state. -/
  own : ε

abbrev Session (ε ℓ : Type) := Engine (Front ε ℓ)

namespace Session
variable {ε ℓ : Type} {n : Type → Type} [Monad n]

def new (config : Config) (own : ε) : Session ε ℓ :=
  { previewLength := config.previewLength, host := { config, own } }

def config (s : Session ε ℓ) : Config :=
  s.host.config

def isActive (s : Session ε ℓ) : Bool :=
  s.host.active

def listeners (s : Session ε ℓ) : List ℓ :=
  s.host.listeners

def setListeners (listeners : List ℓ) (s : Session ε ℓ) : Session ε ℓ :=
  { s with host := { s.host with listeners } }

def setActive (active : Bool) (s : Session ε ℓ) : Session ε ℓ :=
  { s with host := { s.host with active } }

def updateOwn (f : ε → ε) (s : Session ε ℓ) : Session ε ℓ :=
  { s with host := { s.host with own := f s.host.own } }

def addListener (listener : ℓ) (s : Session ε ℓ) : Session ε ℓ :=
  s.setListeners (s.listeners ++ [listener])

/-- Removes the first registration and says whether there was one. -/
def removeListener [BEq ℓ] (listener : ℓ) (s : Session ε ℓ) : Bool × Session ε ℓ :=
  (s.listeners.contains listener, s.setListeners (unregister listener s.listeners))

def snapshot (s : Session ε ℓ) : Except DebugError Snapshot :=
  match s.snapshot? with
  | some snapshot => .ok snapshot
  | none => .error .notPaused

/-- The step state a command leaves behind: every command but `continue` records
the depth of the pause. -/
def command (mode : StepMode) (depth : Nat) (steps : Steps) : Steps :=
  let recorded := if mode = .continue then steps else steps.recordDepth depth
  recorded.setMode mode

def resume (mode : StepMode) (s : Session ε ℓ) : Except DebugError Unit × Session ε ℓ :=
  let (detached, after) := s.releaseWith .resumed fun snapshot s =>
    ((), { s with steps := command mode snapshot.depth s.steps })
  if detached.released then (.ok (), after.note [.resumedWith mode])
  else (.error .notPaused, after)

/-- Abandons the outstanding pause and says whether there was one. -/
def interrupt (s : Session ε ℓ) : Bool × Session ε ℓ :=
  let (interrupted, after) := s.release .interrupted
  (interrupted, if interrupted then after.note [.pauseInterrupted] else after)

def resetSteps (s : Session ε ℓ) : Session ε ℓ :=
  { s with steps := s.steps.reset }

/-- Tells the listeners registered by now. -/
def dispatch (react : Reaction (StateT (Session ε ℓ) n) ℓ) (event : Event) :
    StateT (Session ε ℓ) n Unit := do
  let s ← get
  deliver react (fun diagnostic => modify (Engine.note [diagnostic]))
    s.config.listenerFailure event 0 s.listeners

def addBreakpoint (react : Reaction (StateT (Session ε ℓ) n) ℓ) (kind : Breakpoint.Kind) :
    StateT (Session ε ℓ) n BreakpointId := do
  let s ← get
  let (id, breakpoints) := s.breakpoints.add kind
  set ({ s with breakpoints }.note [.breakpointAdded id kind])
  dispatch react (.breakpointAdded id)
  return id

/-- Removes a breakpoint, tells the listeners if there was one, and says so. -/
def removeBreakpoint (react : Reaction (StateT (Session ε ℓ) n) ℓ) (id : BreakpointId) :
    StateT (Session ε ℓ) n Bool := do
  let s ← get
  let (removed, breakpoints) := s.breakpoints.remove id
  set ({ s with breakpoints }.note [.breakpointRemoval id removed])
  if removed then
    modify (Engine.note [.breakpointRemoved id])
    dispatch react (.breakpointRemoved id)
  return removed

def notifyError (react : Reaction (StateT (Session ε ℓ) n) ℓ) (message : String)
    (snapshot : Option Snapshot) : StateT (Session ε ℓ) n Unit := do
  modify (Engine.note [.interpreterError message])
  dispatch react (.failed message snapshot)

def start (react : Reaction (StateT (Session ε ℓ) n) ℓ) (function : Expression) :
    StateT (Session ε ℓ) n Unit := do
  modify fun s => (s.setActive true).note [.executionStarted function]
  dispatch react (.started function)

def finish (react : Reaction (StateT (Session ε ℓ) n) ℓ) (function : Expression) :
    StateT (Session ε ℓ) n Unit := do
  modify fun s => (s.setActive false).note [.executionEnded function]
  dispatch react (.ended function)

/-- The session as the host of its engine. -/
def asHost (react : Reaction (StateM (Session ε ℓ)) ℓ) : Engine.Host (Front ε ℓ) where
  notifyPaused expression reason snapshot :=
    Thread.step (dispatch react (.paused expression reason snapshot))
  notifyResumed := Thread.step (dispatch react .resumed)

/-- The session as the hook of an interpreter. -/
def hook (react : Reaction (StateM (Session ε ℓ)) ℓ) : Hook (Thread (Session ε ℓ)) where
  start function := Thread.step (start react function)
  finish function := Thread.step (finish react function)
  capture context := Thread.modify (Engine.captureContext context)
  enter expression _ depth := Engine.enter (asHost react) expression depth
  exit expression := Thread.modify (Engine.exited expression)

/-- A run with a controller that answers whenever the program is parked. Without a
controller, and where the answer does not release the pause, it stays parked. -/
def attended {α : Type} (controller : Option (Session ε ℓ → Session ε ℓ)) :
    Run (Session ε ℓ) α → Run (Session ε ℓ) α
  | .finished result s => .finished result s
  | .parked pause s resume =>
      match controller with
      | none => .parked pause s resume
      | some answer =>
          match (Engine.slot (answer s) pause.slot).signal with
          | none => .parked pause (answer s) resume
          | some r => attended (some answer) (resume r (answer s))

end Session
end Debugger
