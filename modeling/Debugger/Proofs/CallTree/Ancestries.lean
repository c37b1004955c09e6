import Debugger.Proofs.CallTree.Calls
import Debugger.Proofs.CallTree.Places

/-! The calls above a place, up to the root. The evaluation comes to a place in the context
of its call and of those above it, whatever was evaluated before. -/
namespace Debugger

namespace Call

theorem turns_eq (parent : Option Expression) (context : Context) (call : Call) :
    call.turns parent context =
      .enter ⟨call, parent, context.inside call⟩ ::
        (turnsAll (some call.expression) (context.inside call) call.children ++
          [.exit call]) := by
  cases call
  rfl

theorem turnsAll_append (parent : Option Expression) (context : Context)
    (left right : List Call) :
    turnsAll parent context (left ++ right) =
      turnsAll parent context left ++ turnsAll parent context right := by
  induction left with
  | nil => rfl
  | cons call rest ih => rw [List.cons_append, turnsAll, ih, turnsAll, List.append_assoc]

theorem length_visits_turns (parent : Option Expression) (context : Context) (call : Call) :
    (Turn.visits (call.turns parent context)).length = call.size := by
  have preorder := congrArg List.length (CallTree.visits_turns call parent context)
  rwa [List.length_map, length_preorder] at preorder

theorem length_visits_turnsAll (parent : Option Expression) (context : Context)
    (calls : List Call) :
    (Turn.visits (turnsAll parent context calls)).length = sizeAll calls := by
  induction calls with
  | nil => rfl
  | cons call rest ih =>
      rw [turnsAll, Turn.visits_append, List.length_append, length_visits_turns, ih, sizeAll]

end Call

namespace Place

/-- The calls above a place, the innermost first. -/
inductive Ancestry (root : Call) : Place → List Call → Prop where
  | root : Ancestry root { call := root, level := 1, position := 0, outer := root.size } []
  | child {p : Place} {above left right : List Call} {call : Call}
      (parent : Ancestry root p above) (children : p.call.children = left ++ call :: right) :
      Ancestry root
        { call, level := p.level + 1, position := p.position + 1 + Call.sizeAll left
          outer := p.behind } (p.call :: above)

theorem Within.exists_ancestry {root : Call} {p : Place} (within : Within root p) :
    ∃ above, Ancestry root p above := by
  induction within with
  | root => exact ⟨[], .root⟩
  | child parent children ih =>
      obtain ⟨above, ancestry⟩ := ih
      exact ⟨_, .child ancestry children⟩

namespace Ancestry
variable {root : Call} {p : Place} {above : List Call}

theorem within (ancestry : Ancestry root p above) : Within root p := by
  induction ancestry with
  | root => exact .root
  | child _ children ih => exact .child ih children

theorem level_eq (ancestry : Ancestry root p above) : p.level = (p.call :: above).length := by
  induction ancestry with
  | root => rfl
  | child _ _ ih => exact congrArg (· + 1) ih

/-- The visits of a subtree stand together, in the context of the calls above it. -/
theorem visits_eq (ancestry : Ancestry root p above) : ∃ before after,
    Turn.visits (root.turns none {}) = before ++
      (Turn.visits (p.call.turns (above.head?.map Call.expression)
        (Context.along above.reverse)) ++ after) ∧
    before.length = p.position := by
  induction ancestry with
  | root => exact ⟨[], [], (List.append_nil _).symm, rfl⟩
  | @child p above left right call _ children ih =>
      obtain ⟨before, after, whole, length⟩ := ih
      let inner := Context.along (p.call :: above).reverse
      have context : (Context.along above.reverse).inside p.call = inner := by
        rw [Context.inside_along, ← List.reverse_cons]
      let around (calls : List Call) : List Visit :=
        Turn.visits (Call.turnsAll (some p.call.expression) inner calls)
      let here : Visit := ⟨p.call, above.head?.map Call.expression, inner⟩
      -- The parent is visited first, then the trees of the elder siblings.
      refine ⟨before ++ here :: around left, around right ++ after, ?_, ?_⟩
      · rw [whole, Call.turns_eq, context, children, Call.turnsAll_append, Call.turnsAll]
        simp only [Turn.visits, Turn.visits_append, List.append_assoc, List.cons_append,
          List.append_nil]
        rfl
      · rw [List.length_append, List.length_cons, Call.length_visits_turnsAll, length,
          Nat.add_right_comm]
        rfl

/-- What the evaluation finds when it comes to a place. -/
theorem visit_eq (ancestry : Ancestry root p above) :
    (Turn.visits (root.turns none {}))[p.position]? =
      some ⟨p.call, above.head?.map Call.expression,
        Context.along (p.call :: above).reverse⟩ := by
  obtain ⟨before, after, whole, length⟩ := ancestry.visits_eq
  rw [whole, Call.turns_eq, Turn.visits, Context.inside_along, ← List.reverse_cons, ← length,
    List.cons_append, List.getElem?_append_right (Nat.le_refl _), Nat.sub_self]
  rfl

theorem preorder_eq (ancestry : Ancestry root p above) :
    (root.preorder 1)[p.position]? = some (p.level, p.call) := by
  obtain ⟨before, siblings, after, whole, length, -, -⟩ := ancestry.within.split
  rw [whole, Call.preorder_eq, ← length]
  simp

end Ancestry
end Place
end Debugger
