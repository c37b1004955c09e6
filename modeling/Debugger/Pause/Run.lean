import Debugger.Diagnostic
import Debugger.Snapshot

/-! Runs of the interpreter's thread. A run is finished, or parked at a pause
until somebody releases it; it then goes on from the state as it is by then.
Threads are functions from a state to a run and compose as a monad. -/
namespace Debugger

/-- A pause: the slot waited at, why the program stopped, and the view it
offers. -/
structure Pause where
  slot : Nat
  reason : StopReason
  snapshot : Snapshot
deriving DecidableEq

/-- A run over the state `σ` that returns an `α` once it is finished. -/
inductive Run (σ α : Type) where
  | finished (result : α) (state : σ)
  /-- Parked at a pause. `resume` takes the release and the state it finds. -/
  | parked (pause : Pause) (state : σ) (resume : Release → σ → Run σ α)

namespace Run
variable {σ α β γ : Type}

def state : Run σ α → σ
  | .finished _ state => state
  | .parked _ state _ => state

def result? : Run σ α → Option α
  | .finished result _ => some result
  | .parked .. => none

/-- Continues a run once it is finished. -/
def bind (next : α → σ → Run σ β) : Run σ α → Run σ β
  | .finished result state => next result state
  | .parked pause state resume => .parked pause state fun r s => (resume r s).bind next

@[simp] theorem bind_finished (next : α → σ → Run σ β) (result : α) (state : σ) :
    (Run.finished result state).bind next = next result state := rfl

@[simp] theorem bind_parked (next : α → σ → Run σ β) (pause : Pause) (state : σ)
    (resume : Release → σ → Run σ α) :
    (Run.parked pause state resume).bind next =
      .parked pause state fun r s => (resume r s).bind next := rfl

@[simp] theorem bind_finished_right (run : Run σ α) : run.bind .finished = run := by
  induction run with
  | finished => rfl
  | parked pause state resume ih => simp [ih]

theorem bind_assoc (run : Run σ α) (f : α → σ → Run σ β) (g : β → σ → Run σ γ) :
    (run.bind f).bind g = run.bind fun a s => (f a s).bind g := by
  induction run with
  | finished => rfl
  | parked pause state resume ih => simp [ih]

end Run

/-- What the interpreter's thread does from a given state. -/
def Thread (σ α : Type) := σ → Run σ α

namespace Thread
variable {σ α β : Type}

instance : Monad (Thread σ) where
  pure a := fun s => .finished a s
  bind thread next := fun s => (thread s).bind next

instance : LawfulMonad (Thread σ) :=
  LawfulMonad.mk' (Thread σ)
    (fun thread => funext fun s => Run.bind_finished_right (thread s))
    (fun _ _ => rfl)
    (fun thread f g => funext fun s => Run.bind_assoc (thread s) f g)

/-- A step that cannot park. -/
def step (f : StateM σ α) : Thread σ α :=
  fun s => .finished (f s).1 (f s).2

def modify (f : σ → σ) : Thread σ Unit :=
  fun s => .finished () (f s)

def get : Thread σ σ :=
  fun s => .finished s s

end Thread
end Debugger
