import Debugger.Failure
import Debugger.Snapshot

/-! The calls an interpreter makes around each function application. -/
namespace Debugger

/-- What an interpreter calls, and when; the effects are those of `m`. -/
structure Hook (m : Type → Type) where
  start : Expression → m Unit
  /-- Called when it has finished, well or not. -/
  finish : Expression → m Unit
  /-- Called before `enter` with the context that a pause would show. -/
  capture : Context → m Unit
  /-- Called before an application is evaluated, with the application it stands
  in and the number of applications under way, itself included. An error ends the
  evaluation. -/
  enter : Expression → Option Expression → Nat → m (Except DebugError Unit)
  exit : Expression → m Unit

namespace Hook

/-- The hook that takes no notice. -/
def quiet {m : Type → Type} [Monad m] : Hook m where
  start _ := pure ()
  finish _ := pure ()
  capture _ := pure ()
  enter _ _ _ := pure (.ok ())
  exit _ := pure ()

end Hook
end Debugger
