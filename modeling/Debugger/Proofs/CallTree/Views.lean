import Debugger.Proofs.CallTree.Ancestries

/-! What a view shows of the calls under way: frames, variables and type parameters, each
read off the one call that it comes from. -/
namespace Debugger

theorem Expression.displayName_expression (call : Call) :
    call.expression.displayName = (call.function <|> call.lambda).getD "<anonymous>" := by
  rcases call with ⟨_ | function, _ | lambda, _⟩ <;> rfl

namespace Call

/-- The variables that a call's own scope has in a view. -/
def ownVariables (previewLength : Nat) (isLocal : Bool) (call : Call) : List Variable :=
  call.bindings.map fun binding =>
    ⟨binding.1, call.bindings.get? binding.1, isLocal, previewLength⟩

theorem variablesOf_scope (previewLength : Nat) (isLocal : Bool) (call : Call) :
    Snapshot.variablesOf previewLength isLocal call.scope =
      call.ownVariables previewLength isLocal := by
  have value (name : String) : call.scope.value? name = call.bindings.get? name := by
    rw [scope, Scope.ofBindings, Scope.value?, List.find?_map, OrderedMap.get?]
    change ((call.bindings.find? (·.1 = name)).map _).bind _ = _
    cases call.bindings.find? (·.1 = name) <;> rfl
  rw [Snapshot.variablesOf, Scope.names, ownVariables, List.map_map]
  simp only [value]
  rw [scope, Scope.ofBindings, List.map_map]
  rfl

theorem values_ownVariables (previewLength : Nat) (isLocal : Bool) {call : Call}
    (distinct : (call.bindings.map (·.1)).Nodup) :
    (call.ownVariables previewLength isLocal).map (fun v => (v.name, v.value)) =
      call.bindings.map fun binding => (binding.1, some binding.2) := by
  rw [ownVariables, List.map_map]
  refine List.map_congr_left fun binding member => ?_
  exact congrArg (Prod.mk binding.1) (OrderedMap.get?_of_mem distinct member)

end Call

/-- A view shows a stack of calls, the one it is taken at first and then those above it up to
the root, and nothing else. -/
structure Snapshot.Shows (s : Snapshot) (stack : List Call) : Prop where
  expression : s.expression = stack.head?.map Call.expression
  depth : s.depth = stack.length
  frames : s.frames = stack.mapIdx fun i call => ⟨i, call.expression⟩
  names : s.frames.map Frame.functionName =
    stack.map fun call => (call.function <|> call.lambda).getD "<anonymous>"
  sources : s.frames.map Frame.source = stack.map fun call => call.span.map Span.source
  inView : s.visibleVariables =
    (stack.mapIdx fun i call => call.ownVariables s.previewLength (i == 0)).flatten
  /-- In scopes that bind each name once every variable has the value bound to it. -/
  values : (∀ call ∈ stack, (call.bindings.map (·.1)).Nodup) →
    s.visibleVariables.map (fun v => (v.name, v.value)) =
      stack.flatMap fun call => call.bindings.map fun binding => (binding.1, some binding.2)
  typeParameters : s.context.typeParameters =
    (stack.reverse.filter fun call => !call.typeArguments.isEmpty).map fun call =>
      call.typeArguments.map fun argument => (argument.1, Value.opaqueText argument.2)

namespace Context

theorem callStack_along_reverse (stack : List Call) :
    (along stack.reverse).callStack.reverse = stack.map Call.expression := by
  simp only [along, List.map_reverse, List.reverse_reverse]

theorem scopes_along_reverse (stack : List Call) :
    (along stack.reverse).scopes = stack.map Call.scope := by
  simp only [along, List.map_reverse, List.reverse_reverse]
  rfl

end Context

namespace Snapshot

theorem frames_of_callStack {s : Snapshot} {stack : List Call}
    (calls : s.context.callStack.reverse = stack.map Call.expression) :
    s.frames = stack.mapIdx fun i call => ⟨i, call.expression⟩ := by
  rw [frames, calls]
  refine List.mapIdx_eq_iff.mpr fun i => ?_
  rw [List.getElem?_mapIdx, List.getElem?_map, Option.map_map]
  rfl

theorem visibleVariables_of_scopes {s : Snapshot} {stack : List Call}
    (scopes : s.context.scopes = stack.map Call.scope) :
    s.visibleVariables =
      (stack.mapIdx fun i call => call.ownVariables s.previewLength (i == 0)).flatten := by
  rw [visibleVariables, scopes]
  cases stack with
  | nil => rfl
  | cons call above =>
      have outer : (above.mapIdx fun i call => call.ownVariables s.previewLength (i + 1 == 0)) =
          (above.map Call.scope).map (variablesOf s.previewLength false) := by
        refine List.mapIdx_eq_iff.mpr fun i => ?_
        rw [List.map_map, List.getElem?_map]
        exact congrArg (above[i]?.map ·) (funext fun call => call.variablesOf_scope _ false)
      rw [List.mapIdx_cons, List.flatten_cons, outer]
      exact congrArg (· ++ _) (call.variablesOf_scope s.previewLength true)

/-- A view of the context at the end of a path shows the path backwards. -/
theorem shows_along (stack : List Call) (previewLength : Nat) :
    Shows ⟨stack.head?.map Call.expression, Context.along stack.reverse, stack.length,
      previewLength⟩ stack := by
  let s : Snapshot := ⟨stack.head?.map Call.expression, Context.along stack.reverse, stack.length,
    previewLength⟩
  have frames : s.frames = _ := frames_of_callStack (Context.callStack_along_reverse stack)
  have inView : s.visibleVariables = _ :=
    visibleVariables_of_scopes (Context.scopes_along_reverse stack)
  refine ⟨rfl, rfl, frames, ?_, ?_, inView, fun distinct => ?_, rfl⟩
  · rw [frames]
    refine List.ext_getElem? fun i => ?_
    simp [Function.comp_def, Frame.functionName, Expression.displayName_expression]
  · rw [frames]
    refine List.ext_getElem? fun i => ?_
    simp [Function.comp_def, Frame.source, Call.expression]
  · rw [inView, List.map_flatten, List.flatMap_def]
    refine congrArg List.flatten (List.ext_getElem? fun i => ?_)
    rw [List.getElem?_map, List.getElem?_mapIdx, List.getElem?_map]
    cases found : stack[i]? with
    | none => rfl
    | some call =>
        have own := distinct call (List.mem_of_getElem? found)
        exact congrArg some (Call.values_ownVariables previewLength (i == 0) own)

end Snapshot
end Debugger
