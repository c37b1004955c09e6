import Debugger.Proofs.CallTree.Turns

/-! Places in a call tree. The calls of a subtree stand together in preorder, the
calls below a call are deeper than it, and the first call behind a subtree is not. -/
namespace Debugger

namespace Call

def sizeAll : List Call → Nat
  | [] => 0
  | call :: rest => call.size + sizeAll rest

theorem preorder_eq (level : Nat) (call : Call) :
    call.preorder level = (level, call) :: preorderAll (level + 1) call.children := by
  cases call
  rfl

theorem preorderAll_append (level : Nat) (left right : List Call) :
    preorderAll level (left ++ right) = preorderAll level left ++ preorderAll level right := by
  induction left with
  | nil => rfl
  | cons call rest ih => rw [List.cons_append, preorderAll, ih, preorderAll, List.append_assoc]

theorem length_preorder_eq (call : Call) : ∀ level other : Nat,
    (call.preorder level).length = (call.preorder other).length := by
  refine Call.rec
    (motive_1 := fun call => ∀ level other : Nat,
      (call.preorder level).length = (call.preorder other).length)
    (motive_2 := fun calls => ∀ level other : Nat,
      (preorderAll level calls).length = (preorderAll other calls).length) ?_ ?_ ?_ call
  · intro function lambda span bindings typeArguments children ih level other
    exact congrArg (· + 1) (ih (level + 1) (other + 1))
  · intro level other
    rfl
  · intro call rest first others level other
    rw [preorderAll, preorderAll, List.length_append, List.length_append, first level other,
      others level other]

theorem length_preorder (level : Nat) (call : Call) : (call.preorder level).length = call.size :=
  length_preorder_eq call level 1

theorem length_preorderAll (level : Nat) (calls : List Call) :
    (preorderAll level calls).length = sizeAll calls := by
  induction calls with
  | nil => rfl
  | cons call rest ih =>
      rw [preorderAll, List.length_append, length_preorder, ih, sizeAll]

theorem size_eq (call : Call) : call.size = 1 + sizeAll call.children := by
  rw [size, preorder_eq, List.length_cons, length_preorderAll, Nat.add_comm]

theorem sizeAll_append (left right : List Call) :
    sizeAll (left ++ right) = sizeAll left + sizeAll right := by
  induction left with
  | nil => exact (Nat.zero_add _).symm
  | cons call rest ih => rw [List.cons_append, sizeAll, ih, sizeAll, Nat.add_assoc]

/-- No call of a tree is above its root. -/
theorem le_of_mem_preorder (call : Call) : ∀ (level : Nat) (entry : Nat × Call),
    entry ∈ call.preorder level → level ≤ entry.1 := by
  refine Call.rec
    (motive_1 := fun call => ∀ (level : Nat) (entry : Nat × Call),
      entry ∈ call.preorder level → level ≤ entry.1)
    (motive_2 := fun calls => ∀ (level : Nat) (entry : Nat × Call),
      entry ∈ preorderAll level calls → level ≤ entry.1) ?_ ?_ ?_ call
  · intro function lambda span bindings typeArguments children ih level entry member
    obtain rfl | below := List.mem_cons.mp member
    · exact Nat.le_refl level
    · exact Nat.le_of_succ_le (ih (level + 1) entry below)
  · intro level entry member
    exact absurd member List.not_mem_nil
  · intro call rest first others level entry member
    obtain here | there := List.mem_append.mp member
    · exact first level entry here
    · exact others level entry there

theorem le_of_mem_preorderAll {level : Nat} {calls : List Call} {entry : Nat × Call}
    (member : entry ∈ preorderAll level calls) : level ≤ entry.1 := by
  induction calls with
  | nil => exact absurd member List.not_mem_nil
  | cons call rest ih =>
      obtain here | there := List.mem_append.mp member
      · exact le_of_mem_preorder call level entry here
      · exact ih there

end Call

/-- A call at its place in a tree. -/
structure Place where
  call : Call
  level : Nat
  /-- The number of calls before it in preorder. -/
  position : Nat
  /-- The position behind the whole tree of its parent; the entry call has none, and
  nothing stands behind the program. -/
  outer : Nat

namespace Place

/-- The position behind the whole tree of the call. -/
def behind (p : Place) : Nat :=
  p.position + p.call.size

/-- The places of a tree. -/
inductive Within (root : Call) : Place → Prop where
  | root : Within root { call := root, level := 1, position := 0, outer := root.size }
  | child {p : Place} {left right : List Call} {call : Call} (parent : Within root p)
      (children : p.call.children = left ++ call :: right) :
      Within root
        { call, level := p.level + 1, position := p.position + 1 + Call.sizeAll left
          outer := p.behind }

namespace Within
variable {root : Call} {p : Place}

/-- Where a call and its younger siblings stand in preorder, and what follows. -/
theorem split (within : Within root p) : ∃ before siblings after,
    root.preorder 1 = before ++ (p.call.preorder p.level ++
      (Call.preorderAll p.level siblings ++ after)) ∧
    before.length = p.position ∧
    p.outer = p.behind + Call.sizeAll siblings ∧
    ∀ entry ∈ after.head?, entry.1 < p.level := by
  induction within with
  | root => exact ⟨[], [], [], by simp [Call.preorderAll], rfl, by simp [behind, Call.sizeAll],
      by simp⟩
  | @child p left right call parent children ih =>
      obtain ⟨before, siblings, after, whole, length, _, above⟩ := ih
      refine ⟨before ++ (p.level, p.call) :: Call.preorderAll (p.level + 1) left, right,
        Call.preorderAll p.level siblings ++ after, ?_, ?_, ?_, ?_⟩
      · rw [whole, Call.preorder_eq, children, Call.preorderAll_append, Call.preorderAll]
        simp only [List.append_assoc, List.cons_append]
      · simp only [List.length_append, List.length_cons, Call.length_preorderAll, length]
        omega
      · simp only [behind]
        rw [Call.size_eq p.call, children, Call.sizeAll_append, Call.sizeAll]
        omega
      · intro entry first
        cases siblings with
        | nil => exact Nat.lt_succ_of_lt (above entry first)
        | cons sibling rest =>
            rw [Call.preorderAll, Call.preorder_eq] at first
            obtain rfl := Option.some.inj first
            exact Nat.lt_succ_self p.level

/-- The subtree of a call is a segment of the preorder. -/
theorem subtree (within : Within root p) :
    ((root.preorder 1).drop p.position).take p.call.size = p.call.preorder p.level := by
  obtain ⟨before, siblings, after, whole, length, _, _⟩ := within.split
  rw [whole, ← length, List.drop_left, ← Call.length_preorder p.level, List.take_left]

/-- Below a place there are places for the whole subtree. -/
theorem exists_below (within : Within root p) (k : Nat) (inside : k < p.call.size) :
    ∃ q, Within root q ∧ q.position = p.position + k := by
  suffices below : ∀ call, ∀ p : Place, p.call = call → Within root p → ∀ k < call.size,
      ∃ q, Within root q ∧ q.position = p.position + k from
    below p.call p rfl within k inside
  intro call
  refine Call.rec
    (motive_1 := fun call => ∀ p : Place, p.call = call → Within root p → ∀ k < call.size,
      ∃ q, Within root q ∧ q.position = p.position + k)
    (motive_2 := fun calls => ∀ (p : Place) (left : List Call), Within root p →
      p.call.children = left ++ calls → ∀ k < Call.sizeAll calls,
      ∃ q, Within root q ∧ q.position = p.position + 1 + Call.sizeAll left + k) ?_ ?_ ?_ call
  · intro function lambda span bindings typeArguments children ih p here within k inside
    cases k with
    | zero => exact ⟨p, within, rfl⟩
    | succ k =>
        rw [Call.size_eq] at inside
        obtain ⟨q, found, position⟩ := ih p [] within (by rw [here]; rfl) k
          (by simp only [Call.children] at inside; omega)
        refine ⟨q, found, ?_⟩
        rw [position, Call.sizeAll]
        omega
  · intro p left within children k inside
    exact absurd inside (Nat.not_lt_zero k)
  · intro call rest first others p left within children k inside
    rw [Call.sizeAll] at inside
    by_cases here : k < call.size
    · exact first _ rfl (.child within children) k here
    · obtain ⟨q, found, position⟩ := others p (left ++ [call]) within (by simp [children])
        (k - call.size) (by omega)
      refine ⟨q, found, ?_⟩
      rw [position, Call.sizeAll_append, Call.sizeAll, Call.sizeAll]
      omega

end Within
end Place
end Debugger
