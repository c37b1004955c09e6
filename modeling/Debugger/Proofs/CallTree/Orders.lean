import Debugger.Proofs.CallTree.Calls

/-! The order of the entries and exits that a program makes, and a hook that writes down
the calls it gets. Writing them down changes nothing about a run. -/
namespace Debugger

namespace HookCall

/-- The application of an entry, with the number of applications under way. -/
def entered? : HookCall → Option (Nat × Expression)
  | .enter expression _ depth => some (depth, expression)
  | _ => none

def exited? : HookCall → Option Expression
  | .exit expression => some expression
  | _ => none

end HookCall

namespace Call

mutual

/-- The calls of a tree in postorder. -/
def postorder : Call → List Call
  | .mk function lambda span bindings typeArguments children =>
      postorderAll children ++ [.mk function lambda span bindings typeArguments children]

def postorderAll : List Call → List Call
  | [] => []
  | call :: rest => postorder call ++ postorderAll rest

end

end Call

namespace Turn

theorem entered_hookCalls (turns : List Turn) :
    (turns.flatMap hookCalls).filterMap HookCall.entered? =
      (visits turns).map fun v => (v.level, v.call.expression) := by
  induction turns with
  | nil => rfl
  | cons turn rest ih =>
      rw [List.flatMap_cons, List.filterMap_append, ih]
      cases turn <;> rfl

end Turn

namespace CallTree

theorem exited_turns (call : Call) : ∀ (parent : Option Expression) (context : Context),
    ((call.turns parent context).flatMap Turn.hookCalls).filterMap HookCall.exited? =
      call.postorder.map Call.expression := by
  refine Call.rec
    (motive_1 := fun call => ∀ parent context,
      ((call.turns parent context).flatMap Turn.hookCalls).filterMap HookCall.exited? =
        call.postorder.map Call.expression)
    (motive_2 := fun calls => ∀ parent context,
      ((Call.turnsAll parent context calls).flatMap Turn.hookCalls).filterMap HookCall.exited? =
        (Call.postorderAll calls).map Call.expression) ?_ ?_ ?_ call
  · intro function lambda span bindings typeArguments children ih parent context
    simp only [Call.turns, Call.postorder, List.flatMap_cons, List.flatMap_append,
      List.filterMap_append, List.map_append, ih]
    rfl
  · intro parent context
    rfl
  · intro call rest first others parent context
    simp only [Call.turnsAll, Call.postorderAll, List.flatMap_append, List.filterMap_append,
      List.map_append, first parent context, others parent context]

/-- The calls of a program that takes these turns. -/
def hookCallsOf (tree : CallTree) (turns : List Turn) : List HookCall :=
  .start tree.main.expression ::
    (turns.flatMap Turn.hookCalls ++ [.finish tree.main.expression])

theorem hookCalls_eq_turns (tree : CallTree) : tree.hookCalls = tree.hookCallsOf tree.turns := by
  rw [hookCalls, ← tree.main.hookCalls_turns []]
  rfl

theorem entered_hookCalls (tree : CallTree) :
    tree.hookCalls.filterMap HookCall.entered? =
      (tree.main.preorder 1).map fun entry => (entry.1, entry.2.expression) := by
  rw [hookCalls_eq_turns, hookCallsOf, List.filterMap_cons_none rfl, List.filterMap_append,
    Turn.entered_hookCalls, ← visits_eq_preorder, List.map_map]
  exact List.append_nil _

theorem exited_hookCalls (tree : CallTree) :
    tree.hookCalls.filterMap HookCall.exited? = tree.main.postorder.map Call.expression := by
  rw [hookCalls_eq_turns, hookCallsOf, List.filterMap_cons_none rfl, List.filterMap_append,
    turns, exited_turns]
  exact List.append_nil _

end CallTree

/-- The hook with its calls written down, in order. -/
def Hook.recorded {m : Type → Type} [Monad m] (hook : Hook m) :
    Hook (StateT (List HookCall) m) where
  start function := do
    modify (· ++ [.start function])
    hook.start function
  finish function := do
    modify (· ++ [.finish function])
    hook.finish function
  capture context := do
    modify (· ++ [.capture context])
    hook.capture context
  enter expression parent depth := do
    modify (· ++ [.enter expression parent depth])
    hook.enter expression parent depth
  exit expression := do
    modify (· ++ [.exit expression])
    hook.exit expression

section Recorded
variable {m : Type → Type} [Monad m] [LawfulMonad m] (hook : Hook m)

theorem Turn.take_recorded (turn : Turn) (calls : List HookCall) :
    (turn.take hook.recorded).run calls =
      (fun result => (result, calls ++ turn.hookCalls)) <$> turn.take hook := by
  cases turn with
  | enter v => simp [take, Hook.recorded, hookCalls]
  | exit call => simp [take, Hook.recorded, hookCalls]

/-- What follows a turn, with its calls written down. -/
def Turn.onwardRecorded (rest : List Turn) (calls : List HookCall) :
    Except DebugError Unit → m (Except DebugError Unit × List HookCall)
  | .error e => return (.error e, calls)
  | .ok () => (takeAll hook.recorded rest).run calls

theorem Turn.takeAll_recorded_cons (turn : Turn) (rest : List Turn) (calls : List HookCall) :
    (takeAll hook.recorded (turn :: rest)).run calls =
      turn.take hook >>= onwardRecorded hook rest (calls ++ turn.hookCalls) := by
  rw [takeAll, StateT.run_bind, take_recorded, bind_map_left]
  refine bind_congr fun result => ?_
  cases result <;> rfl

theorem CallTree.run_recorded (tree : CallTree) (calls : List HookCall) :
    (tree.run hook.recorded).run calls = (do
      hook.start tree.main.expression
      let (result, made) ← (Turn.takeAll hook.recorded tree.turns).run
        (calls ++ [.start tree.main.expression])
      hook.finish tree.main.expression
      return (result.map fun () => tree.main.size, made ++ [.finish tree.main.expression])) := by
  rw [run_eq_takeAll]
  simp [Hook.recorded]

theorem Turn.fst_takeAll_recorded (turns : List Turn) (calls : List HookCall) :
    Prod.fst <$> (takeAll hook.recorded turns).run calls = takeAll hook turns := by
  induction turns generalizing calls with
  | nil => simp [takeAll]
  | cons turn rest ih =>
      rw [takeAll_recorded_cons, takeAll, map_bind]
      refine bind_congr fun result => ?_
      cases result with
      | error e => simp [onwardRecorded]
      | ok _ => exact ih _

theorem CallTree.fst_run_recorded (tree : CallTree) (calls : List HookCall) :
    Prod.fst <$> (tree.run hook.recorded).run calls = tree.run hook := by
  rw [run_recorded, run_eq_takeAll,
    ← Turn.fst_takeAll_recorded hook tree.turns (calls ++ [.start tree.main.expression])]
  simp

end Recorded
end Debugger
