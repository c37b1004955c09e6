import Debugger.Proofs.Session.Pausing

/-! A program under a session, turn by turn: an entry hands over its context and
passes the watch, and where the watch says so it pauses. -/
namespace Debugger.Session
variable {ε ℓ : Type}

def started (react : Reaction (StateM (Session ε ℓ)) ℓ) (function : Expression)
    (s : Session ε ℓ) : Session ε ℓ :=
  after react (.started function) (Engine.note [.executionStarted function] (s.setActive true))

def ended (react : Reaction (StateM (Session ε ℓ)) ℓ) (function : Expression)
    (s : Session ε ℓ) : Session ε ℓ :=
  after react (.ended function) (Engine.note [.executionEnded function] (s.setActive false))

def passed (v : Visit) (noted : List Diagnostic) (s : Session ε ℓ) : Session ε ℓ :=
  Engine.note noted (Engine.rewatch (s.watch.pass v) (s.captureContext v.context))

theorem run_eq (tree : CallTree) (react : Reaction (StateM (Session ε ℓ)) ℓ) (s : Session ε ℓ) :
    tree.run (hook react) s =
      (Turn.takeAll (hook react) tree.turns (started react tree.main.expression s)).bind
        fun result s => .finished (result.map fun () => tree.main.size)
          (ended react tree.main.expression s) := by
  rw [CallTree.run_eq_takeAll]
  rfl

/-- The turns that are left are taken unless the evaluation has ended. -/
def onward (hook : Hook (Thread (Session ε ℓ))) (rest : List Turn) :
    Except DebugError Unit → Session ε ℓ → Run (Session ε ℓ) (Except DebugError Unit)
  | .error e, s => .finished (.error e) s
  | .ok (), s => Turn.takeAll hook rest s

theorem takeAll_cons (hook : Hook (Thread (Session ε ℓ))) (turn : Turn) (rest : List Turn)
    (s : Session ε ℓ) :
    Turn.takeAll hook (turn :: rest) s = (turn.take hook s).bind (onward hook rest) := by
  refine congrArg (fun next => (turn.take hook s).bind next) ?_
  funext result s
  cases result <;> rfl

theorem take_exit (react : Reaction (StateM (Session ε ℓ)) ℓ) (call : Call) (s : Session ε ℓ) :
    (Turn.exit call).take (hook react) s = .finished (.ok ()) (s.exited call.expression) :=
  rfl

/-- An entry passes the watch, and pauses where there is a reason. -/
theorem take_enter (react : Reaction (StateM (Session ε ℓ)) ℓ) (v : Visit) (s : Session ε ℓ) :
    ∃ noted, (Turn.enter v).take (hook react) s =
      match s.watch.reason v with
      | none => .finished (.ok ()) (passed v noted s)
      | some reason =>
          Engine.pause (asHost react) v.call.expression reason v.level (passed v noted s) :=
  Engine.enter_eq (asHost react) v (s.captureContext v.context)

end Debugger.Session
