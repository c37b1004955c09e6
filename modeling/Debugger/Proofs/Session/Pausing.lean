import Debugger.Proofs.Pause.Release
import Debugger.Session.Basic

/-! Pauses of a session: the listeners are told of the pause, the thread waits for
the release, and only a resumed pause is reported. Commands on an outstanding pause
succeed and write the step state. -/
namespace Debugger.Session
variable {ε ℓ : Type}

/-- The session after an event was delivered. -/
def after (react : Reaction (StateM (Session ε ℓ)) ℓ) (event : Event) (s : Session ε ℓ) :
    Session ε ℓ :=
  (dispatch (n := Id) react event s).2

def tell (react : Reaction (StateM (Session ε ℓ)) ℓ) (policy : FailurePolicy) (event : Event)
    (position : Nat) (listeners : List ℓ) (s : Session ε ℓ) : Session ε ℓ :=
  (deliver (m := StateM (Session ε ℓ)) react (fun diagnostic => modify (Engine.note [diagnostic]))
    policy event position listeners s).2

theorem after_eq_tell (react : Reaction (StateM (Session ε ℓ)) ℓ) (event : Event)
    (s : Session ε ℓ) :
    after react event s = tell react s.config.listenerFailure event 0 s.listeners s :=
  rfl

/-- One listener is told, and the others unless the policy ends the delivery there. -/
theorem tell_cons (react : Reaction (StateM (Session ε ℓ)) ℓ) (policy : FailurePolicy)
    (event : Event) (position : Nat) (listener : ℓ) (rest : List ℓ) (s : Session ε ℓ) :
    tell react policy event position (listener :: rest) s =
      match react listener event s, policy with
      | (none, left), _ => tell react policy event (position + 1) rest left
      | (some panic, left), .abort =>
          Engine.note [.listenerPanicked event.name position panic] left
      | (some panic, left), .continue =>
          tell react policy event (position + 1) rest
            (Engine.note [.listenerPanicked event.name position panic] left) := by
  rcases reacted : react listener event s with ⟨_ | panic, left⟩
  · simp only [tell, deliver, bind, StateT.bind, reacted]
  · simp only [tell, deliver, bind, StateT.bind, reacted]
    cases policy <;> rfl

/-- The thread waits for a release once the listeners were told. -/
theorem pause_eq (react : Reaction (StateM (Session ε ℓ)) ℓ) (expression : Expression)
    (reason : StopReason) (depth : Nat) (s : Session ε ℓ) :
    Engine.pause (asHost react) expression reason depth s =
      Engine.await (asHost react) (s.newPause expression reason depth)
        (after react (.paused expression reason (s.view expression depth))
          (s.install expression reason depth)) :=
  Engine.pause_eq_await (asHost react) expression reason depth s

/-- A command on an outstanding pause succeeds and is written to the step state. -/
theorem resume_outstanding {pause : Pause} {s : Session ε ℓ}
    (outstanding : s.Outstanding pause) (mode : StepMode) :
    resume mode s = (.ok (), Engine.note [.resumedWith mode]
      (Engine.detach pause .resumed (s.rewatch (s.watch.command mode pause.snapshot.depth)))) := by
  simp only [resume, Engine.releaseWith_outstanding outstanding, if_true]
  cases mode <;> rfl

theorem resume_free {s : Session ε ℓ} (free : s.current = none) (mode : StepMode) :
    resume mode s = (.error .notPaused, s.note [.releaseIgnored .resumed]) := by
  simp only [resume, Engine.releaseWith_free free]
  rfl

theorem interrupt_free {s : Session ε ℓ} (free : s.current = none) :
    interrupt s = (false, s.note [.releaseIgnored .interrupted]) := by
  simp only [interrupt, Engine.release_free free]
  rfl

theorem interrupt_outstanding {pause : Pause} {s : Session ε ℓ}
    (outstanding : s.Outstanding pause) :
    interrupt s =
      (true, Engine.note [.pauseInterrupted] (Engine.detach pause .interrupted s)) := by
  simp [interrupt, Engine.release_outstanding outstanding]

theorem after_unheard (react : Reaction (StateM (Session ε ℓ)) ℓ) (event : Event)
    {s : Session ε ℓ} (unheard : s.listeners = []) : after react event s = s := by
  simp only [after, dispatch, unheard, deliver, bind, StateT.bind, get, getThe,
    MonadStateOf.get, StateT.get, pure]
  rfl

/-- Delivery to a single listener that does not break off. -/
theorem after_single (react : Reaction (StateM (Session ε ℓ)) ℓ) (event : Event)
    {listener : ℓ} {s : Session ε ℓ} (heard : s.listeners = [listener])
    (calm : (react listener event s).1 = none) :
    after react event s = (react listener event s).2 := by
  simp only [after, dispatch, heard, deliver, bind, StateT.bind, get, getThe,
    MonadStateOf.get, StateT.get, pure]
  rcases told : react listener event s with ⟨result, found⟩
  rw [told] at calm
  cases calm
  rfl

end Debugger.Session
