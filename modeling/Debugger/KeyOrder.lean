/-! Lists put in the order of a text that each element has. The result is a
permutation, and elements with the same text keep their order. -/
namespace Debugger.KeyOrder
variable {α : Type}

/-- Puts an element before the first one whose text is not below its own. -/
def insert (key : α → String) (a : α) : List α → List α
  | [] => [a]
  | b :: rest => if key a ≤ key b then a :: b :: rest else b :: insert key a rest

def sort (key : α → String) (elements : List α) : List α :=
  elements.foldr (insert key) []

theorem insert_perm (key : α → String) (a : α) (elements : List α) :
    (insert key a elements).Perm (a :: elements) := by
  induction elements with
  | nil => exact .refl _
  | cons b rest ih =>
      simp only [insert]
      split
      · exact .refl _
      · exact (ih.cons b).trans (.swap a b rest)

theorem sort_perm (key : α → String) (elements : List α) :
    (sort key elements).Perm elements := by
  induction elements with
  | nil => exact .refl _
  | cons a rest ih => exact (insert_perm key a _).trans (ih.cons a)

theorem pairwise_insert (key : α → String) (a : α) {elements : List α}
    (ordered : elements.Pairwise (key · ≤ key ·)) :
    (insert key a elements).Pairwise (key · ≤ key ·) := by
  induction elements with
  | nil => exact List.pairwise_singleton _ _
  | cons b rest ih =>
      obtain ⟨below, tail⟩ := List.pairwise_cons.mp ordered
      simp only [insert]
      split
      case isTrue first =>
        refine List.pairwise_cons.mpr ⟨fun c member => ?_, ordered⟩
        rcases List.mem_cons.mp member with rfl | member
        · exact first
        · exact String.le_trans first (below c member)
      case isFalse later =>
        refine List.pairwise_cons.mpr ⟨fun c member => ?_, ih tail⟩
        rcases List.mem_cons.mp ((insert_perm key a rest).mem_iff.mp member) with rfl | member
        · exact (String.le_total (key b) (key c)).resolve_right later
        · exact below c member

theorem pairwise_sort (key : α → String) (elements : List α) :
    (sort key elements).Pairwise (key · ≤ key ·) := by
  induction elements with
  | nil => exact .nil
  | cons a rest ih => exact pairwise_insert key a ih

end Debugger.KeyOrder
