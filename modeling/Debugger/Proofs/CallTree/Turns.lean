import Debugger.CallTree.Walk

/-! The evaluation of a call tree as a flat list of turns: entries and exits in
depth-first order. Whatever the hook does, evaluating the tree is taking its turns
in order up to the first error. -/
namespace Debugger

/-- What is in force inside a call: its bindings before those around it, and behind the other type
parameters its own, if it has any. -/
def Context.inside (context : Context) (call : Call) : Context where
  scopes := Scope.ofBindings call.bindings :: context.scopes
  callStack := context.callStack ++ [call.expression]
  typeParameters := context.typeParameters ++
    if call.typeArguments.isEmpty then []
    else [call.typeArguments.map fun argument => (argument.1, Value.opaqueText argument.2)]

theorem CallTree.descend_eq_inside (context : Context) (call : Call) :
    descend context call = context.inside call :=
  rfl

/-- A call as the evaluation comes to it. -/
structure Visit where
  call : Call
  /-- The application the call stands in. -/
  parent : Option Expression
  /-- The context at the entry, the call itself included. -/
  context : Context

/-- The number of applications under way, the visited one included. -/
def Visit.level (v : Visit) : Nat :=
  v.context.callStack.length

inductive Turn where
  | enter (visit : Visit)
  | exit (call : Call)

namespace Turn
variable {m : Type → Type} [Monad m]

def visits : List Turn → List Visit
  | [] => []
  | .enter v :: rest => v :: visits rest
  | .exit _ :: rest => visits rest

/-- An entry hands over its context first. -/
def take (hook : Hook m) : Turn → m (Except DebugError Unit)
  | .enter v => do
      hook.capture v.context
      hook.enter v.call.expression v.parent v.level
  | .exit call => do
      hook.exit call.expression
      return .ok ()

/-- Takes turns in order, up to the first error. -/
def takeAll (hook : Hook m) : List Turn → m (Except DebugError Unit)
  | [] => return .ok ()
  | turn :: rest => do
      match ← turn.take hook with
      | .error e => return .error e
      | .ok () => takeAll hook rest

@[simp] theorem visits_append (first second : List Turn) :
    visits (first ++ second) = visits first ++ visits second := by
  induction first with
  | nil => rfl
  | cons turn rest ih => cases turn <;> simp [visits, ih]

theorem takeAll_append [LawfulMonad m] (hook : Hook m) (first second : List Turn) :
    takeAll hook (first ++ second) = (do
      match ← takeAll hook first with
      | .error e => return .error e
      | .ok () => takeAll hook second) := by
  induction first with
  | nil => simp [takeAll]
  | cons turn rest ih =>
      simp only [List.cons_append, takeAll, bind_assoc]
      refine bind_congr fun result => ?_
      cases result with
      | error e => simp
      | ok _ => exact ih

/-- The application that finishes last among turns. -/
def lastExited (last : Option Expression) : List Turn → Option Expression
  | [] => last
  | .enter _ :: rest => lastExited last rest
  | .exit call :: rest => lastExited (some call.expression) rest

theorem lastExited_append (last : Option Expression) (first second : List Turn) :
    lastExited last (first ++ second) = lastExited (lastExited last first) second := by
  induction first generalizing last with
  | nil => rfl
  | cons turn rest ih =>
      cases turn with
      | enter v => exact ih last
      | exit call => exact ih (some call.expression)

end Turn

namespace Call

mutual

/-- The turns of a call inside the given context. -/
def turns (parent : Option Expression) (context : Context) : Call → List Turn
  | .mk function lambda span bindings typeArguments children =>
      let call := Call.mk function lambda span bindings typeArguments children
      let inner := context.inside call
      .enter ⟨call, parent, inner⟩ ::
        (turnsAll (some call.expression) inner children ++ [.exit call])

def turnsAll (parent : Option Expression) (context : Context) : List Call → List Turn
  | [] => []
  | call :: rest => turns parent context call ++ turnsAll parent context rest

end

def size (call : Call) : Nat :=
  (call.preorder 1).length

end Call

theorem Turn.lastExited_turns (call : Call) (parent : Option Expression) (context : Context)
    (last : Option Expression) :
    lastExited last (call.turns parent context) = some call.expression := by
  obtain ⟨function, lambda, span, bindings, typeArguments, children⟩ := call
  rw [Call.turns, ← List.cons_append, lastExited_append]
  rfl

namespace CallTree
variable {m : Type → Type} [Monad m]

def turns (tree : CallTree) : List Turn :=
  tree.main.turns none {}

def visits (tree : CallTree) : List Visit :=
  Turn.visits tree.turns

theorem level_inside (context : Context) (call : Call) :
    (context.inside call).callStack.length = context.callStack.length + 1 := by
  simp [Context.inside]

/-- Entries come in preorder, each at its level. -/
theorem visits_turns (call : Call) : ∀ (parent : Option Expression) (context : Context),
    (Turn.visits (call.turns parent context)).map (fun v => (v.level, v.call)) =
      call.preorder (context.callStack.length + 1) := by
  refine Call.rec
    (motive_1 := fun call => ∀ parent context,
      (Turn.visits (call.turns parent context)).map (fun v => (v.level, v.call)) =
        call.preorder (context.callStack.length + 1))
    (motive_2 := fun calls => ∀ parent context,
      (Turn.visits (Call.turnsAll parent context calls)).map (fun v => (v.level, v.call)) =
        Call.preorderAll (context.callStack.length + 1) calls) ?_ ?_ ?_ call
  · intro function lambda span bindings typeArguments children ih parent context
    simp only [Call.turns, Call.preorder, Turn.visits, Turn.visits_append, Visit.level,
      List.map_cons, level_inside, List.append_nil]
    exact congrArg _ ((ih _ _).trans (by rw [level_inside]))
  · intro parent context
    rfl
  · intro call rest first others parent context
    simp only [Call.turnsAll, Call.preorderAll, Turn.visits_append, List.map_append,
      first parent context, others parent context]

theorem visits_eq_preorder (tree : CallTree) :
    tree.visits.map (fun v => (v.level, v.call)) = tree.main.preorder 1 :=
  visits_turns tree.main none {}

theorem length_visits (tree : CallTree) : tree.visits.length = tree.main.size := by
  rw [Call.size, ← visits_eq_preorder, List.length_map]

/-- Taking the turns of a call is evaluating it, and the result counts its calls. -/
theorem walk_eq_takeAll [LawfulMonad m] (hook : Hook m) (call : Call) :
    ∀ (parent : Option Expression) (context : Context), walk hook parent context call =
      Except.map (fun () => (Turn.visits (call.turns parent context)).length) <$>
        Turn.takeAll hook (call.turns parent context) := by
  refine Call.rec
    (motive_1 := fun call => ∀ parent context, walk hook parent context call =
      Except.map (fun () => (Turn.visits (call.turns parent context)).length) <$>
        Turn.takeAll hook (call.turns parent context))
    (motive_2 := fun calls => ∀ parent context, walkAll hook parent context calls =
      Except.map (fun () => (Turn.visits (Call.turnsAll parent context calls)).length) <$>
        Turn.takeAll hook (Call.turnsAll parent context calls)) ?_ ?_ ?_ call
  · intro function lambda span bindings typeArguments children ih parent context
    simp only [walk, Call.turns, Turn.takeAll, Turn.take, descend_eq_inside, bind_assoc, map_bind]
    refine bind_congr fun _ => bind_congr fun entered => ?_
    cases entered with
    | error e => simp [Except.map]
    | ok _ =>
        simp only [ih, Turn.takeAll_append, map_bind, bind_map_left]
        refine bind_congr fun result => ?_
        cases result with
        | error e => simp [Except.map]
        | ok _ => simp [Except.map, Turn.takeAll, Turn.take, Turn.visits, Nat.add_comm]
  · intro parent context
    simp [walkAll, Call.turnsAll, Turn.takeAll, Turn.visits, Except.map]
  · intro call rest first others parent context
    simp only [walkAll, Call.turnsAll, Turn.takeAll_append, map_bind, bind_map_left, first, others]
    refine bind_congr fun result => ?_
    cases result with
    | error e => simp [Except.map]
    | ok _ =>
        simp only [Except.map, map_eq_pure_bind]
        refine bind_congr fun more => ?_
        cases more <;> simp [Turn.visits_append]

/-- Running a program is taking its turns between the start and the end. -/
theorem run_eq_takeAll [LawfulMonad m] (tree : CallTree) (hook : Hook m) :
    tree.run hook = do
      hook.start tree.main.expression
      let result ← Turn.takeAll hook tree.turns
      hook.finish tree.main.expression
      return result.map fun () => tree.main.size := by
  have count : (Turn.visits (tree.main.turns none {})).length = tree.main.size := length_visits tree
  simp only [run, walk_eq_takeAll, count, bind_map_left, turns]

end CallTree
end Debugger
