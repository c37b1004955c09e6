import Debugger.Config.Basic
import Debugger.Diagnostic
import Debugger.Snapshot

/-! Events of a debug session and their delivery to listeners. An event goes to
the listeners registered when its delivery starts, in order; what a listener
changes about the registrations counts for later events. -/
namespace Debugger

/-- What listeners are told. -/
inductive Event where
  | started (function : Expression)
  | ended (function : Expression)
  | paused (expression : Expression) (reason : StopReason) (snapshot : Snapshot)
  | resumed
  | failed (message : String) (snapshot : Option Snapshot)
  | breakpointAdded (id : BreakpointId)
  | breakpointRemoved (id : BreakpointId)
deriving DecidableEq

def Event.name : Event → String
  | .started _ => "execution_started"
  | .ended _ => "execution_ended"
  | .paused .. => "paused"
  | .resumed => "resumed"
  | .failed .. => "error"
  | .breakpointAdded _ => "breakpoint_added"
  | .breakpointRemoved _ => "breakpoint_removed"

/-- What each listener does when it is told of an event, and whether it breaks
off. -/
abbrev Reaction (m : Type → Type) (ℓ : Type) := ℓ → Event → m (Option Panic)

/-- Tells each listener in turn. One that breaks off is noted under its position
in the list, and ends the delivery if the policy says so. -/
def deliver {m : Type → Type} [Monad m] {ℓ : Type} (react : Reaction m ℓ)
    (note : Diagnostic → m Unit) (policy : FailurePolicy) (event : Event) :
    Nat → List ℓ → m Unit
  | _, [] => pure ()
  | position, listener :: rest => do
      match ← react listener event with
      | none => deliver react note policy event (position + 1) rest
      | some panic =>
          note (.listenerPanicked event.name position panic)
          match policy with
          | .abort => pure ()
          | .continue => deliver react note policy event (position + 1) rest

/-- Registrations without the first one of the listener. -/
def unregister {ℓ : Type} [BEq ℓ] (listener : ℓ) (listeners : List ℓ) : List ℓ :=
  listeners.erase listener

end Debugger
