import Debugger.Breakpoint.Basic
import Debugger.Pause.Slot
import Debugger.Stepping

/-! Diagnostics: what the debugger notes about its own doings. They have no
influence on it. -/
namespace Debugger

inductive StopReason where
  | breakpoint
  | step
deriving DecidableEq

def StopReason.render : StopReason → String
  | .breakpoint => "Breakpoint hit"
  | .step => "Step"

/-- How a listener broke off: with a text, or with something that is none. -/
inductive Panic where
  | text (message : String)
  | payload
deriving DecidableEq

def Panic.message : Panic → String
  | .text message => message
  | .payload => "<non-string panic payload>"

/-- One note, with what it is about. -/
inductive Diagnostic where
  | breakpointAdded (id : BreakpointId) (kind : Breakpoint.Kind)
  | breakpointRemoval (id : BreakpointId) (removed : Bool)
  | breakpointRemoved (id : BreakpointId)
  | breakpointHit (id : BreakpointId) (count : Nat)
  | stepIntoSatisfied
  | stepSatisfied (mode : StepMode) (depth recorded : Nat)
  | pauseReplaced
  | paused (reason : StopReason) (expression : Expression) (depth : Nat)
  | pauseReleased (release : Release)
  | releaseIgnored (release : Release)
  | resumedWith (mode : StepMode)
  | pauseInterrupted
  | executionStarted (function : Expression)
  | executionEnded (function : Expression)
  | interpreterError (message : String)
  | listenerPanicked (event : String) (listener : Nat) (panic : Panic)
deriving DecidableEq

namespace Diagnostic

inductive Level where
  | debug
  | warn

def Level.name : Level → String
  | .debug => "DEBUG"
  | .warn => "WARN"

def level : Diagnostic → Level
  | .pauseReplaced | .interpreterError _ | .listenerPanicked .. => .warn
  | _ => .debug

def message : Diagnostic → String
  | .breakpointAdded .. => "breakpoint added"
  | .breakpointRemoval id removed =>
      "remove breakpoint id=" ++ id.text ++ " removed=" ++ (if removed then "true" else "false")
  | .breakpointRemoved _ => "breakpoint removed"
  | .breakpointHit id count => "breakpoint " ++ id.text ++ " hit (count=" ++ toString count ++ ")"
  | .stepIntoSatisfied => "step into satisfied"
  | .stepSatisfied mode depth recorded =>
      "step " ++ mode.name ++ " satisfied depth=" ++ toString depth ++ " recorded=" ++
        toString recorded
  | .pauseReplaced => "pause slot replaced while another pause was outstanding"
  | .paused .. => "paused"
  | .pauseReleased release => "pause released with " ++ release.name
  | .releaseIgnored release => release.name ++ " ignored: not paused"
  | .resumedWith mode => "resumed with " ++ mode.name
  | .pauseInterrupted => "pause interrupted"
  | .executionStarted _ => "execution started"
  | .executionEnded _ => "execution ended"
  | .interpreterError _ => "interpreter error"
  | .listenerPanicked .. => "debug listener panicked"

/-- The named details besides level and message. -/
def details : Diagnostic → List (String × String)
  | .breakpointAdded id kind => [("id", id.text), ("breakpoint", kind.render)]
  | .breakpointRemoved id => [("id", id.text)]
  | .paused reason expression depth =>
      [("reason", reason.render), ("expression", expression.render), ("depth", toString depth)]
  | .executionStarted function | .executionEnded function => [("function", function.render)]
  | .interpreterError message => [("error", message)]
  | .listenerPanicked event listener panic =>
      [("event", event), ("listener", toString listener), ("panic", panic.message)]
  | _ => []

end Diagnostic
end Debugger
