import Debugger.CallTree.Recording
import Debugger.Proofs.CallTree.Stacks
import Debugger.Proofs.CallTree.Turns

/-! The calls a program makes to its hook, read off the tree: each node is described
by the path that leads to it. Main statement: under a hook that accepts every entry a
run makes these calls, in this order and no others. -/
namespace Debugger

/-- The context at the end of a path of calls, the root first. -/
def Context.along (path : List Call) : Context where
  scopes := (path.map fun call => Scope.ofBindings call.bindings).reverse
  callStack := path.map Call.expression
  typeParameters :=
    (path.filter fun call => !call.typeArguments.isEmpty).map fun call =>
      call.typeArguments.map fun argument => (argument.1, Value.opaqueText argument.2)

theorem Context.inside_along (path : List Call) (call : Call) :
    (along path).inside call = along (path ++ [call]) := by
  have arguments : (if call.typeArguments.isEmpty then []
      else [call.typeArguments.map fun argument => (argument.1, Value.opaqueText argument.2)]) =
      ([call].filter fun call => !call.typeArguments.isEmpty).map fun call =>
        call.typeArguments.map fun argument => (argument.1, Value.opaqueText argument.2) := by
    cases empty : call.typeArguments.isEmpty <;> simp [empty]
  simp only [inside, along, arguments, List.map_append, List.filter_append, List.reverse_append,
    List.map_cons, List.map_nil, List.reverse_singleton, List.singleton_append]

namespace HookCall
variable {m : Type → Type} [Monad m]

/-- Makes one call. Only entries are answered; the other calls count as accepted. -/
def make (hook : Hook m) : HookCall → m (Except DebugError Unit)
  | .start function => do
      hook.start function
      return .ok ()
  | .finish function => do
      hook.finish function
      return .ok ()
  | .capture context => do
      hook.capture context
      return .ok ()
  | .enter expression parent depth => hook.enter expression parent depth
  | .exit expression => do
      hook.exit expression
      return .ok ()

def makeAll (hook : Hook m) : List HookCall → m Unit
  | [] => return ()
  | call :: rest => do
      let _ ← call.make hook
      makeAll hook rest

/-- Makes calls in order, up to the first refusal. -/
def attempt (hook : Hook m) : List HookCall → m (Except DebugError Unit)
  | [] => return .ok ()
  | call :: rest => do
      match ← call.make hook with
      | .error e => return .error e
      | .ok () => attempt hook rest

theorem makeAll_append [LawfulMonad m] (hook : Hook m) (first second : List HookCall) :
    makeAll hook (first ++ second) = (do
      makeAll hook first
      makeAll hook second) := by
  induction first with
  | nil => simp [makeAll]
  | cons call rest ih => simp only [List.cons_append, makeAll, ih, bind_assoc]

end HookCall

namespace Turn

def hookCalls : Turn → List HookCall
  | .enter v => [.capture v.context, .enter v.call.expression v.parent v.level]
  | .exit call => [.exit call.expression]

theorem takeAll_eq_attempt {m : Type → Type} [Monad m] [LawfulMonad m] (hook : Hook m)
    (turns : List Turn) :
    takeAll hook turns = HookCall.attempt hook (turns.flatMap hookCalls) := by
  induction turns with
  | nil => rfl
  | cons turn rest ih =>
      cases turn with
      | enter v =>
          simp only [takeAll, take, List.flatMap_cons, hookCalls, List.cons_append,
            List.nil_append, HookCall.attempt, HookCall.make, bind_assoc, pure_bind]
          refine bind_congr fun _ => bind_congr fun answer => ?_
          cases answer with
          | error e => rfl
          | ok _ => exact ih
      | exit call =>
          simp only [takeAll, take, ih, List.flatMap_cons, hookCalls, List.cons_append,
            List.nil_append, HookCall.attempt, HookCall.make, bind_assoc, pure_bind]

end Turn

namespace Call

mutual

/-- The calls made for a node that stands at the end of the given path, and for all
below it. -/
def hookCalls (path : List Call) : Call → List HookCall
  | .mk function lambda span bindings typeArguments children =>
      let call := Call.mk function lambda span bindings typeArguments children
      let here := path ++ [call]
      .capture (Context.along here) ::
        .enter call.expression (path.getLast?.map Call.expression) here.length ::
          (hookCallsAll here children ++ [.exit call.expression])

def hookCallsAll (path : List Call) : List Call → List HookCall
  | [] => []
  | call :: rest => hookCalls path call ++ hookCallsAll path rest

end

theorem hookCalls_turns (call : Call) : ∀ path : List Call,
    (call.turns (path.getLast?.map expression) (Context.along path)).flatMap Turn.hookCalls =
      call.hookCalls path := by
  -- The children stand below the path that has their parent as its last call.
  refine Call.rec
    (motive_1 := fun call => ∀ path : List Call,
      (call.turns (path.getLast?.map expression) (Context.along path)).flatMap Turn.hookCalls =
        call.hookCalls path)
    (motive_2 := fun calls => ∀ path : List Call,
      (turnsAll (path.getLast?.map expression) (Context.along path) calls).flatMap
        Turn.hookCalls = hookCallsAll path calls) ?_ ?_ ?_ call
  · intro function lambda span bindings typeArguments children ih path
    have below := ih (path ++ [.mk function lambda span bindings typeArguments children])
    rw [List.getLast?_concat] at below
    simp only [turns, hookCalls, Context.inside_along, List.flatMap_cons, List.flatMap_append,
      Turn.hookCalls, Visit.level, List.cons_append, List.nil_append, List.flatMap_nil]
    rw [← below]
    simp [Context.along]
  · intro path
    rfl
  · intro call rest first others path
    rw [turnsAll, hookCallsAll, List.flatMap_append, first path, others path]

end Call

namespace CallTree
variable {m : Type → Type} [Monad m] [LawfulMonad m]

def hookCalls (tree : CallTree) : List HookCall :=
  .start tree.main.expression :: (tree.main.hookCalls [] ++ [.finish tree.main.expression])

/-- A run makes its calls up to the first refusal, and the last call in any case. -/
theorem run_eq_attempt (tree : CallTree) (hook : Hook m) :
    tree.run hook = do
      hook.start tree.main.expression
      let result ← HookCall.attempt hook (tree.main.hookCalls [])
      hook.finish tree.main.expression
      return result.map fun () => tree.main.size := by
  have calls : tree.turns.flatMap Turn.hookCalls = tree.main.hookCalls [] :=
    tree.main.hookCalls_turns []
  rw [run_eq_takeAll, Turn.takeAll_eq_attempt, calls]

/-- A run as calls that are made. -/
theorem run_eq_make (tree : CallTree) (hook : Hook m) :
    tree.run hook = do
      let _ ← HookCall.make hook (.start tree.main.expression)
      let result ← HookCall.attempt hook (tree.main.hookCalls [])
      let _ ← HookCall.make hook (.finish tree.main.expression)
      return result.map fun () => tree.main.size := by
  simp only [run_eq_attempt, HookCall.make, bind_assoc, pure_bind]

end CallTree

/-- Whatever a hook does at an entry, it accepts it. -/
def Hook.Accepts {m : Type → Type} [Monad m] (hook : Hook m) : Prop :=
  ∀ expression parent depth, hook.enter expression parent depth = do
    let _ ← hook.enter expression parent depth
    return .ok ()

namespace HookCall
variable {m : Type → Type} [Monad m] [LawfulMonad m]

theorem attempt_of_accepts {hook : Hook m} (accepts : hook.Accepts) (calls : List HookCall) :
    attempt hook calls = do
      makeAll hook calls
      return .ok () := by
  induction calls with
  | nil => simp [attempt, makeAll]
  | cons call rest ih =>
      have accepted : call.make hook = (do
          let _ ← call.make hook
          return .ok ()) := by
        cases call with
        | enter expression parent depth => exact accepts expression parent depth
        | _ => simp [make]
      rw [attempt, makeAll, accepted]
      simp only [ih, bind_assoc, pure_bind]

end HookCall

namespace CallTree
variable {m : Type → Type} [Monad m] [LawfulMonad m]

theorem run_of_accepts (tree : CallTree) {hook : Hook m} (accepts : hook.Accepts) :
    tree.run hook = do
      HookCall.makeAll hook tree.hookCalls
      return .ok tree.main.size := by
  rw [run_eq_attempt, HookCall.attempt_of_accepts accepts, hookCalls, HookCall.makeAll,
    HookCall.makeAll_append]
  simp [HookCall.make, HookCall.makeAll, Except.map]

/-- Under a hook that accepts every entry a run makes exactly the calls of its nodes,
between the start and the end, and counts the nodes. Evaluation on shared stacks is the
same run. -/
theorem accepted_run_makes_calls (tree : CallTree) {hook : Hook m} (accepts : hook.Accepts) :
    (tree.run hook = do
      HookCall.makeAll hook tree.hookCalls
      return .ok tree.main.size) ∧
      tree.runOnStacks hook = tree.run hook :=
  ⟨run_of_accepts tree accepts, runOnStacks_eq_run tree hook⟩

/-- A generic call with another one inside it comes first. Behind it the last call has
two scopes, a path of two and no type parameters again. -/
theorem accepted_run_makes_calls_behind_generic :
    let inner := Call.mk (some "inner") none none [] [] []
    let generic := Call.mk (some "generic") none none [] [("T", "Integer")] [inner]
    let last := Call.mk (some "last") none none [] [] []
    let tree : CallTree := ⟨.mk (some "main") none none [("x", .opaqueText "1")] [] [generic, last]⟩
    let hook := Recording.hook none
    hook.Accepts ∧
      (tree.run hook = do
        HookCall.makeAll hook tree.hookCalls
        return .ok 4) ∧
      tree.hookCalls[5]? = some (.capture ⟨[⟨[]⟩, ⟨[]⟩, ⟨[("x", some (.opaqueText "1"))]⟩],
        [tree.main.expression, generic.expression, inner.expression],
        [[("T", .opaqueText "Integer")]]⟩) ∧
      tree.hookCalls[9]? = some (.capture ⟨[⟨[]⟩, ⟨[("x", some (.opaqueText "1"))]⟩],
        [tree.main.expression, last.expression], []⟩) := by
  intro inner generic last tree hook
  have accepts : hook.Accepts := fun _ _ _ => rfl
  exact ⟨accepts, (accepted_run_makes_calls tree accepts).1, rfl, rfl⟩

end CallTree
end Debugger
