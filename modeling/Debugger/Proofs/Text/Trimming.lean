import Debugger.Text.Blank
import Mathlib.Data.List.TakeWhile

/-! Texts without a blank at either end. Trimming gives such a text, leaves one as it is, and does
not see blanks at the end. -/
namespace Debugger.Text
variable {text blanks : List Char} {c : Char}

/-- No blank stands at either end. -/
structure Trimmed (text : List Char) : Prop where
  first : ∀ c ∈ text.head?, isBlank c = false
  last : ∀ c ∈ text.getLast?, isBlank c = false

theorem first_trimLeft (text : List Char) : ∀ c ∈ (trimLeft text).head?, isBlank c = false := by
  intro c here
  have first := List.head?_dropWhile_not isBlank text
  rw [show (text.dropWhile isBlank).head? = some c from here] at first
  exact first

theorem trimLeft_of_first (first : ∀ c ∈ text.head?, isBlank c = false) :
    trimLeft text = text := by
  cases text with
  | nil => rfl
  | cons c rest =>
      have kept : ¬ isBlank c := by simpa using first c rfl
      exact List.dropWhile_cons_of_neg kept

theorem trimRight_eq (text : List Char) : trimRight text = (trimLeft text.reverse).reverse := rfl

theorem trimRight_isPrefix (text : List Char) : trimRight text <+: text := by
  rw [trimRight_eq, ← List.reverse_suffix, List.reverse_reverse]
  exact List.dropWhile_suffix isBlank

theorem trimmed_trim (text : List Char) : Trimmed (trim text) where
  first c here := by
    obtain ⟨rest, whole⟩ := trimRight_isPrefix (trimLeft text)
    refine first_trimLeft text c ?_
    rw [← whole, List.head?_append, show (trimRight (trimLeft text)).head? = some c from here]
    rfl
  last c here := by
    rw [trim, trimRight_eq, List.getLast?_reverse] at here
    exact first_trimLeft _ c here

theorem trim_of_trimmed (trimmed : Trimmed text) : trim text = text := by
  rw [trim, trimLeft_of_first trimmed.first, trimRight_eq, trimLeft_of_first, List.reverse_reverse]
  intro c here
  rw [List.head?_reverse] at here
  exact trimmed.last c here

@[simp] theorem trim_trim (text : List Char) : trim (trim text) = trim text :=
  trim_of_trimmed (trimmed_trim text)

theorem mem_of_mem_trim (member : c ∈ trim text) : c ∈ text :=
  (List.dropWhile_suffix isBlank).mem ((trimRight_isPrefix _).mem member)

theorem trim_append_blanks (blank : ∀ c ∈ blanks, isBlank c = true) :
    trim (text ++ blanks) = trim text := by
  have right (text : List Char) : trimRight (text ++ blanks) = trimRight text := by
    rw [trimRight_eq, List.reverse_append, trimLeft, List.dropWhile_append_of_pos (by simpa)]
    rfl
  rw [trim, trimLeft, List.dropWhile_append]
  split
  · rename_i none
    have gone : blanks.dropWhile isBlank = [] := List.dropWhile_eq_nil_iff.mpr blank
    rw [gone, trim, trimLeft, List.isEmpty_iff.mp none]
  · exact right _

theorem trim_ne_nil (member : c ∈ text) (filled : isBlank c = false) : trim text ≠ [] := by
  intro none
  rw [trim, trimRight_eq, List.reverse_eq_nil_iff, trimLeft, List.dropWhile_eq_nil_iff] at none
  -- The rest would be blank, its first character too.
  have rest : trimLeft text = [] := by
    cases start : trimLeft text with
    | nil => rfl
    | cons d more =>
        have first := first_trimLeft text d (by rw [start]; rfl)
        rw [none d (by simp [start])] at first
        exact absurd first (by decide)
  rw [trimLeft, List.dropWhile_eq_nil_iff] at rest
  rw [rest c member] at filled
  exact absurd filled (by decide)

/-- What stands before the first blank and behind it. -/
theorem splitAtBlank_append {word rest : List Char} (filled : ∀ c ∈ word, isBlank c = false)
    (blank : isBlank c = true) : splitAtBlank (word ++ c :: rest) = (word, rest) := by
  induction word with
  | nil => rw [List.nil_append, splitAtBlank, if_pos blank]
  | cons d word ih =>
      obtain ⟨first, others⟩ := List.forall_mem_cons.mp filled
      rw [List.cons_append, splitAtBlank, if_neg (by simp [first]), ih others]

theorem mem_of_mem_splitAtBlank (member : c ∈ (splitAtBlank text).2) : c ∈ text := by
  fun_induction splitAtBlank text with
  | case1 => exact member
  | case2 d rest blank => exact List.mem_cons_of_mem d member
  | case3 d rest blank ih => exact List.mem_cons_of_mem d (ih member)

end Debugger.Text
