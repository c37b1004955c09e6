import Debugger.CallTree.Walk

/-! Evaluation on shared stacks. One call stack and one stack of type parameters serve
all calls under way: a call is pushed on them before it is entered and taken off once
it has exited, and only a call with type arguments stands on the second one. A finished
subtree leaves both as it found them, so this is the same evaluation. -/
namespace Debugger.CallTree
variable {m : Type → Type} [Monad m]

structure Stacks where
  calls : List Expression := []
  typeParameters : List TypeParameters := []

namespace Stacks

def context (scopes : ScopeChain) (s : Stacks) : Context :=
  ⟨scopes, s.calls, s.typeParameters⟩

def push (call : Call) (s : Stacks) : Stacks where
  calls := s.calls ++ [call.expression]
  typeParameters := s.typeParameters ++ call.typeParameters

def pop (call : Call) (s : Stacks) : Stacks where
  calls := s.calls.dropLast
  typeParameters :=
    if call.typeArguments.isEmpty then s.typeParameters else s.typeParameters.dropLast

@[simp] theorem pop_push (call : Call) (s : Stacks) : (s.push call).pop call = s := by
  cases empty : call.typeArguments.isEmpty with
  | true => simp [push, pop, Call.typeParameters, empty]
  | false => simp [push, pop, Call.typeParameters, empty]

theorem descend_context (scopes : ScopeChain) (call : Call) (s : Stacks) :
    descend (s.context scopes) call = (s.push call).context (call.scope :: scopes) :=
  rfl

end Stacks

mutual

def walkOn (hook : Hook m) (parent : Option Expression) (scopes : ScopeChain) :
    Call → Stacks → m (Except DebugError (Nat × Stacks))
  | .mk function lambda span bindings typeArguments children, s => do
      let call := Call.mk function lambda span bindings typeArguments children
      let pushed := s.push call
      hook.capture (pushed.context (call.scope :: scopes))
      match ← hook.enter call.expression parent pushed.calls.length with
      | .error e => return .error e
      | .ok () =>
          match ← walkAllOn hook (some call.expression) (call.scope :: scopes) children pushed with
          | .error e => return .error e
          | .ok (count, left) =>
              hook.exit call.expression
              return .ok (1 + count, left.pop call)

def walkAllOn (hook : Hook m) (parent : Option Expression) (scopes : ScopeChain) :
    List Call → Stacks → m (Except DebugError (Nat × Stacks))
  | [], s => return .ok (0, s)
  | call :: rest, s => do
      match ← walkOn hook parent scopes call s with
      | .error e => return .error e
      | .ok (count, left) =>
          match ← walkAllOn hook parent scopes rest left with
          | .error e => return .error e
          | .ok (more, last) => return .ok (count + more, last)

end

/-- Evaluates a program on stacks that are empty at the start. -/
def runOnStacks (tree : CallTree) (hook : Hook m) : m (Except DebugError Nat) := do
  hook.start tree.main.expression
  let result ← walkOn hook none [] tree.main {}
  hook.finish tree.main.expression
  return result.map (·.1)

/-- A finished subtree has restored both stacks, whatever stands on them. -/
theorem walkOn_eq_walk [LawfulMonad m] (hook : Hook m) (call : Call) :
    ∀ (parent : Option Expression) (scopes : ScopeChain) (s : Stacks),
      walkOn hook parent scopes call s =
        Except.map (·, s) <$> walk hook parent (s.context scopes) call := by
  refine Call.rec
    (motive_1 := fun call => ∀ (parent : Option Expression) (scopes : ScopeChain)
      (s : Stacks), walkOn hook parent scopes call s =
        Except.map (·, s) <$> walk hook parent (s.context scopes) call)
    (motive_2 := fun calls => ∀ (parent : Option Expression) (scopes : ScopeChain)
      (s : Stacks), walkAllOn hook parent scopes calls s =
        Except.map (·, s) <$> walkAll hook parent (s.context scopes) calls)
    ?_ ?_ ?_ call
  · intro function lambda span bindings typeArguments children ih parent scopes s
    simp only [walkOn, walk, Stacks.descend_context, map_bind]
    refine bind_congr fun _ => bind_congr fun entered => ?_
    cases entered with
    | error e => simp [Except.map]
    | ok _ =>
        simp only [ih, map_bind, bind_map_left]
        refine bind_congr fun result => ?_
        cases result <;> simp [Except.map]
  · intro parent scopes s
    simp [walkAllOn, walkAll, Except.map]
  · intro call rest first others parent scopes s
    simp only [walkAllOn, walkAll, first, map_bind, bind_map_left]
    refine bind_congr fun result => ?_
    cases result with
    | error e => simp [Except.map]
    | ok count =>
        simp only [Except.map, others, map_bind, bind_map_left]
        refine bind_congr fun more => ?_
        cases more <;> simp [Except.map]

theorem runOnStacks_eq_run [LawfulMonad m] (tree : CallTree) (hook : Hook m) :
    tree.runOnStacks hook = tree.run hook := by
  have walked := walkOn_eq_walk hook tree.main none [] {}
  simp only [runOnStacks, run, walked, bind_map_left]
  refine bind_congr fun _ => bind_congr fun result => ?_
  cases result <;> rfl

end Debugger.CallTree
