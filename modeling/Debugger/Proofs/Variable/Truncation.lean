import Debugger.Variable

/-! Main statement: a text that is longer than its budget is cut to fill the budget exactly. It
ends with the ellipsis or with as much of it as fits, and cutting twice is cutting once to the
smaller budget. -/
namespace Debugger.Preview
variable {budget kept : Nat} {text : List Char}

theorem truncate_of_le (fits : text.length ≤ budget) : truncate budget text = text :=
  if_pos fits

theorem truncate_of_small (long : budget < text.length) (small : budget < 3) :
    truncate budget text = List.replicate budget '.' := by
  have cut : truncate budget text = ellipsis.take budget :=
    (if_neg (Nat.not_le_of_lt long)).trans (if_pos small)
  rw [cut, show ellipsis = List.replicate 3 '.' from rfl, List.take_replicate,
    Nat.min_eq_left (Nat.le_of_lt small)]

/-- With room for the ellipsis, what is kept of the text stands before it. -/
theorem truncate_of_room (long : kept + 3 < text.length) :
    truncate (kept + 3) text = text.take kept ++ ellipsis :=
  (if_neg (Nat.not_le_of_lt long)).trans (if_neg (Nat.not_lt_of_le (Nat.le_add_left 3 kept)))

/-- A text fits into the budget, or the budget is below the ellipsis, or has room for it. -/
theorem budget_cases (budget : Nat) (text : List Char) :
    text.length ≤ budget ∨ budget < text.length ∧ budget < 3 ∨
      ∃ kept, budget = kept + 3 ∧ kept + 3 < text.length := by
  rcases Nat.lt_or_ge budget text.length with long | fits
  · rcases Nat.lt_or_ge budget 3 with small | room
    · exact .inr (.inl ⟨long, small⟩)
    · exact .inr (.inr ⟨budget - 3, by omega, by omega⟩)
  · exact .inl fits

theorem length_truncate (budget : Nat) (text : List Char) :
    (truncate budget text).length = min text.length budget := by
  obtain fits | ⟨long, small⟩ | ⟨kept, rfl, long⟩ := budget_cases budget text
  · rw [truncate_of_le fits, Nat.min_eq_left fits]
  · rw [truncate_of_small long small, List.length_replicate, Nat.min_eq_right (Nat.le_of_lt long)]
  · have shorter : kept ≤ text.length := by omega
    rw [truncate_of_room long, List.length_append, List.length_take, Nat.min_eq_left shorter,
      Nat.min_eq_right (Nat.le_of_lt long)]
    rfl

theorem truncate_eq_self_iff : truncate budget text = text ↔ text.length ≤ budget := by
  refine ⟨fun whole => ?_, truncate_of_le⟩
  have length := length_truncate budget text
  rw [whole] at length
  exact length ▸ Nat.min_le_right _ _

/-- Of two cuts the first leaves what the second, with the smaller budget, keeps. -/
theorem truncate_of_cut {less : Nat} (narrow : less < budget) (long : budget < text.length) :
    truncate less (truncate budget text) = truncate less text := by
  have cut : less < (truncate budget text).length := by
    rwa [length_truncate, Nat.min_eq_right (Nat.le_of_lt long)]
  have longer : less < text.length := Nat.lt_trans narrow long
  obtain fits | ⟨-, small⟩ | ⟨first, rfl, -⟩ := budget_cases less text
  · exact absurd longer (Nat.not_lt_of_le fits)
  · rw [truncate_of_small cut small, truncate_of_small longer small]
  · obtain ⟨kept, rfl⟩ : ∃ kept, budget = kept + 3 := ⟨budget - 3, by omega⟩
    have within : first ≤ (text.take kept).length := by
      rw [List.length_take]
      omega
    rw [truncate_of_room cut, truncate_of_room longer, truncate_of_room long,
      List.take_append_of_le_length within, List.take_take, Nat.min_eq_left (by omega)]

theorem truncate_truncate (m n : Nat) (text : List Char) :
    truncate m (truncate n text) = truncate (min m n) text := by
  rcases Nat.lt_or_ge m n with narrow | wide
  · rw [Nat.min_eq_left (Nat.le_of_lt narrow)]
    rcases Nat.lt_or_ge n text.length with long | fits
    · exact truncate_of_cut narrow long
    · rw [truncate_of_le fits]
  · have fits : (truncate n text).length ≤ m := by
      rw [length_truncate]
      exact Nat.le_trans (Nat.min_le_right _ _) wide
    rw [truncate_of_le fits, Nat.min_eq_right wide]

/-! ### Cutting in steps that may fail -/

/-- The first characters of a text, if it has so many. -/
def slice? (count : Nat) (text : List Char) : Option (List Char) :=
  if count ≤ text.length then some (text.take count) else none

/-- What is left of a budget, if it covers the amount. -/
def spend? (amount budget : Nat) : Option Nat :=
  if amount ≤ budget then some (budget - amount) else none

/-- Cuts a text by a slice of the ellipsis, or by what the ellipsis leaves of the budget. -/
def truncate? (budget : Nat) (text : List Char) : Option (List Char) :=
  if text.length ≤ budget then some text
  else if budget < ellipsis.length then slice? budget ellipsis
  else do
    let kept ← spend? ellipsis.length budget
    return text.take kept ++ ellipsis

/-- No step fails: the guards keep the slice and the difference in range. -/
theorem truncate?_eq_some (budget : Nat) (text : List Char) :
    truncate? budget text = some (truncate budget text) := by
  rw [truncate?, truncate]
  split
  · rfl
  · rename_i long
    split
    · rename_i small
      exact if_pos (Nat.le_of_lt small)
    · rename_i room
      rw [spend?, if_pos (Nat.le_of_not_lt room)]
      rfl

/-- Cutting never fails and fills the budget. It cuts only what is longer, to the beginning and
the ellipsis or to dots alone, and the order of two budgets does not matter. A variable is shown
with its printed value cut like this. -/
theorem truncate_fills_budget (text : List Char) (m n : Nat) :
    truncate? n text = some (truncate n text) ∧
    (truncate n text).length = min text.length n ∧
    (truncate n text = text ↔ text.length ≤ n) ∧
    (n < text.length → truncate n text =
      if n < 3 then List.replicate n '.' else text.take (n - 3) ++ ['.', '.', '.']) ∧
    truncate m (truncate n text) = truncate (min m n) text ∧
    ∀ (v : Variable) (value : Value), v.value = some value → value.print = String.ofList text →
      v.preview n = String.ofList (truncate n text) := by
  refine ⟨truncate?_eq_some n text, length_truncate n text, truncate_eq_self_iff,
    fun long => ?_, truncate_truncate m n text, fun v value bound prints => ?_⟩
  · split
    case isTrue small => exact truncate_of_small long small
    case isFalse room =>
      obtain ⟨kept, rfl⟩ := Nat.exists_eq_add_of_le' (Nat.le_of_not_lt room)
      exact truncate_of_room long
  · rw [Variable.preview, bound]
    dsimp only
    rw [prints, String.toList_ofList]

/-- A printed text of six characters in five, and of these in four. -/
theorem truncate_fills_budget_of_five :
    5 < "'abcd'".toList.length ∧ truncate 5 "'abcd'".toList = "'a...".toList ∧
      truncate 4 (truncate 5 "'abcd'".toList) = "'...".toList ∧
      (⟨"x", some (.string "abcd"), true, 50⟩ : Variable).preview 5 = "'a..." := by
  have long : 5 < "'abcd'".toList.length := by decide
  obtain ⟨-, -, -, cut, twice, shown⟩ := truncate_fills_budget "'abcd'".toList 4 5
  refine ⟨long, cut long, twice.trans (by decide), ?_⟩
  exact (shown _ _ rfl (by decide)).trans (congrArg String.ofList (cut long))

end Debugger.Preview
