import Debugger.Snapshot

/-! Names in a chain of scopes. Main statement: looking a name up gives the first bound entry of
that name among all variables in view, so a scope that lists a name without binding it hides
nothing, and a scope that binds it hides all bindings further out. -/
namespace Debugger

namespace Scope
variable {scope : Scope} {name : String} {value : Value}

theorem mem_names_of_value? (bound : (scope.value? name).isSome) : name ∈ scope.names := by
  rw [value?] at bound
  cases found : scope.entries.find? (·.1 = name) with
  | none => simp [found] at bound
  | some entry =>
      have same : entry.1 = name := by simpa using List.find?_some found
      exact List.mem_map.mpr ⟨entry, List.mem_of_find?_eq_some found, same⟩

/-- There is a scope for any names, listed in any order and any number of times, and any
binding of some of them. -/
theorem exists_iff_listed (names : List String) (binding : String → Option Value) :
    (∃ scope : Scope, scope.names = names ∧ scope.value? = binding) ↔
      ∀ name, (binding name).isSome → name ∈ names := by
  constructor
  · rintro ⟨scope, rfl, rfl⟩ name bound
    exact mem_names_of_value? bound
  · intro listed
    refine ⟨⟨names.map fun name => (name, binding name)⟩, ?_, ?_⟩
    · simp [Scope.names, Function.comp_def]
    · funext name
      simp only [value?, List.find?_map, Function.comp_def]
      cases found : names.find? (· = name) with
      | none =>
          have unlisted : name ∉ names := fun member => by
            simpa using List.find?_eq_none.mp found name member
          have unbound : binding name = none := by simpa using mt (listed name) unlisted
          exact unbound.symm
      | some other =>
          obtain rfl : other = name := by simpa using List.find?_some found
          rfl

end Scope

namespace Variable

/-- An entry of that name with a value. -/
def binds (name : String) (v : Variable) : Bool :=
  v.name = name && v.value.isSome

end Variable

namespace Snapshot
variable {s : Snapshot} {name : String}

/-- The first bound entry of a scope shows the value that the scope gives to the name. -/
theorem find?_variablesOf (previewLength : Nat) (isLocal : Bool) (scope : Scope) (name : String) :
    (variablesOf previewLength isLocal scope).find? (·.binds name) =
      (scope.value? name).map fun value => ⟨name, some value, isLocal, previewLength⟩ := by
  simp only [variablesOf, List.find?_map, Function.comp_def, Variable.binds]
  cases found : scope.names.find? (fun n => n = name && (scope.value? n).isSome) with
  | none =>
      have unbound : scope.value? name = none := by
        rw [← Option.not_isSome_iff_eq_none]
        intro bound
        have never := List.find?_eq_none.mp found name (Scope.mem_names_of_value? bound)
        simp [bound] at never
      rw [unbound]
      rfl
  | some n =>
      have both : n = name ∧ (scope.value? n).isSome := by simpa using List.find?_some found
      obtain ⟨rfl, bound⟩ := both
      obtain ⟨value, bound⟩ := Option.isSome_iff_exists.mp bound
      rw [Option.map_some, bound]
      rfl

/-- Entries of enclosing scopes. -/
theorem find?_flatMap_variablesOf (previewLength : Nat) (isLocal : Bool) (chain : ScopeChain)
    (name : String) :
    (chain.flatMap (variablesOf previewLength isLocal)).find? (·.binds name) =
      (chain.lookup? name).map fun value => ⟨name, some value, isLocal, previewLength⟩ := by
  rw [List.find?_flatMap, ScopeChain.lookup?, List.map_findSome?]
  simp only [find?_variablesOf, Function.comp_def]

theorem find?_eq_find?_visible (s : Snapshot) (name : String) :
    s.find? name = s.visibleVariables.find? (·.binds name) := by
  obtain ⟨expression, ⟨scopes, callStack, typeParameters⟩, depth, previewLength⟩ := s
  rw [find?, visibleVariables]
  cases scopes with
  | nil => rfl
  | cons innermost outer =>
      rw [List.find?_append, find?_variablesOf, find?_flatMap_variablesOf]
      cases bound : innermost.value? name with
      | none => simp [ScopeChain.lookup?, bound]
      | some value => simp [ScopeChain.lookup?, bound]

/-- Where a look-up ends, and what stands in front of it. -/
theorem find?_eq_some_iff {v : Variable} : s.find? name = some v ↔
    ∃ inner scope outer value, s.context.scopes = inner ++ scope :: outer ∧
      (∀ other ∈ inner, Scope.value? other name = none) ∧ scope.value? name = some value ∧
      v = ⟨name, some value, inner.isEmpty, s.previewLength⟩ := by
  have isLocal {inner outer : ScopeChain} {scope : Scope}
      (split : s.context.scopes = inner ++ scope :: outer)
      (unbound : ∀ other ∈ inner, Scope.value? other name = none)
      (bound : (scope.value? name).isSome) :
      (s.context.scopes.head?.bind (·.value? name)).isSome = inner.isEmpty := by
    rw [split]
    cases inner with
    | nil => exact bound
    | cons first rest => simp [unbound first List.mem_cons_self]
  rw [find?, Option.map_eq_some_iff]
  simp only [ScopeChain.lookup?, List.findSome?_eq_some_iff]
  constructor
  · rintro ⟨value, ⟨inner, scope, outer, split, bound, unbound⟩, rfl⟩
    refine ⟨inner, scope, outer, value, split, unbound, bound, ?_⟩
    rw [isLocal split unbound (by rw [bound]; rfl)]
  · rintro ⟨inner, scope, outer, value, split, unbound, bound, rfl⟩
    refine ⟨value, ⟨inner, scope, outer, split, bound, unbound⟩, ?_⟩
    rw [isLocal split unbound (by rw [bound]; rfl)]

/-- A scope binds only names that it lists, and whatever a chain of such scopes, looking a name
up finds a variable exactly if some entry in view has that name and a value. It is then the first
such entry, with its type, its rendering and whether it is local. Scopes that list the name
without binding it are passed over, and the variable is local if the innermost scope binds it. -/
theorem find?_is_first_bound (s : Snapshot) (name : String) :
    (∀ (names : List String) (binding : String → Option Value),
      (∃ scope : Scope, scope.names = names ∧ scope.value? = binding) ↔
        ∀ name, (binding name).isSome → name ∈ names) ∧
    ((s.find? name).isSome ↔ ∃ v ∈ s.visibleVariables, v.name = name ∧ v.value.isSome) ∧
    s.find? name = s.visibleVariables.find? (fun v => v.name = name && v.value.isSome) ∧
    (∀ v, s.find? name = some v ↔ ∃ inner scope outer value,
      s.context.scopes = inner ++ scope :: outer ∧
      (∀ other ∈ inner, Scope.value? other name = none) ∧
      scope.value? name = some value ∧
      v = { name, value := some value, isLocal := inner.isEmpty
            previewLength := s.previewLength }) ∧
    ((∃ v, s.find? name = some v ∧ v.isLocal) ↔
      ∃ scope ∈ s.context.scopes.head?, (Scope.value? scope name).isSome) := by
  have first := find?_eq_find?_visible s name
  refine ⟨Scope.exists_iff_listed, ?_, first, fun _ => find?_eq_some_iff, ?_⟩
  · rw [first, List.find?_isSome]
    simp [Variable.binds]
  · constructor
    · rintro ⟨v, found, isLocal⟩
      obtain ⟨inner, scope, outer, value, split, -, bound, rfl⟩ := find?_eq_some_iff.mp found
      obtain rfl : inner = [] := List.isEmpty_iff.mp isLocal
      exact ⟨scope, by rw [split]; rfl, by rw [bound]; rfl⟩
    · rintro ⟨scope, innermost, bound⟩
      obtain ⟨outer, split⟩ := List.head?_eq_some_iff.mp innermost
      obtain ⟨value, bound⟩ := Option.isSome_iff_exists.mp bound
      exact ⟨_, find?_eq_some_iff.mpr ⟨[], scope, outer, value, split, by simp, bound, rfl⟩, rfl⟩

end Snapshot
end Debugger
