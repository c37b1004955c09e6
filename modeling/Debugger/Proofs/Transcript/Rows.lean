import Debugger.Proofs.Transcript.Sinks

/-! The rows of a text, as a reader of it counts them: cut at its line feeds and nowhere
else. Texts that end with a line feed keep their rows when they are joined. -/
namespace Debugger

namespace Text

/-- The lines of a text, cut at line feeds only. -/
def rows : List Char → List (List Char)
  | [] => []
  | c :: rest =>
      if c = '\n' then [] :: rows rest
      else match rows rest with
        | [] => [[c]]
        | row :: more => (c :: row) :: more

/-- The rows of a text behind its first line feed. -/
def laterRows (text : List Char) : List (List Char) :=
  (rows (text ++ ['\n'])).tail

theorem rows_ne_nil {text : List Char} (filled : text ≠ []) : rows text ≠ [] := by
  cases text with
  | nil => exact absurd rfl filled
  | cons c rest =>
      rw [rows]
      split
      · exact List.cons_ne_nil _ _
      · split <;> exact List.cons_ne_nil _ _

theorem rows_append {first : List Char} (lined : Lined first) (second : List Char) :
    rows (first ++ second) = rows first ++ rows second := by
  induction first with
  | nil => rfl
  | cons c rest ih =>
      obtain ⟨others, ends⟩ := lined.of_cons
      rw [List.cons_append, rows, rows, ih others]
      split
      · rfl
      case isFalse other =>
        -- What is left ends with a line feed too, so there is a row to put the character before.
        have more : 0 < rest.count '\n' := ends.resolve_left other
        have filled : rows rest ≠ [] := rows_ne_nil fun empty => by simp [empty] at more
        obtain ⟨row, rows, split⟩ := List.exists_cons_of_ne_nil filled
        rw [split]
        rfl

theorem rows_flatten {pieces : List (List Char)} (lined : ∀ piece ∈ pieces, Lined piece) :
    rows pieces.flatten = pieces.flatMap rows := by
  induction pieces with
  | nil => rfl
  | cons piece rest ih =>
      obtain ⟨first, others⟩ := List.forall_mem_cons.mp lined
      rw [List.flatten_cons, rows_append first, ih others, List.flatMap_cons]

/-- The first row of an ended line is its text up to the first line feed. -/
theorem rows_ended (text : List Char) :
    rows (text ++ ['\n']) = text.takeWhile (· != '\n') :: laterRows text := by
  induction text with
  | nil => rfl
  | cons c rest ih =>
      rw [laterRows, List.cons_append, rows, ih]
      by_cases feed : c = '\n'
      · simp [feed]
      · simp [feed]

theorem laterRows_append {mark : List Char} (unbroken : '\n' ∉ mark) (text : List Char) :
    laterRows (mark ++ text) = laterRows text := by
  induction mark with
  | nil => rfl
  | cons c rest ih =>
      obtain ⟨other, unbroken⟩ := not_or.mp (mt List.mem_cons.mpr unbroken)
      rw [← ih unbroken, List.cons_append, laterRows, List.cons_append, rows, rows_ended,
        if_neg (Ne.symm other)]
      rfl

theorem laterRows_of_unbroken {text : List Char} (unbroken : '\n' ∉ text) :
    laterRows text = [] := by
  have none := laterRows_append unbroken []
  rwa [List.append_nil] at none

/-- A text has further rows only by its line feeds. -/
theorem laterRows_eq_nil {text : List Char} : laterRows text = [] ↔ '\n' ∉ text := by
  refine ⟨fun none feed => ?_, laterRows_of_unbroken⟩
  induction text with
  | nil => exact absurd feed List.not_mem_nil
  | cons c rest ih =>
      by_cases same : c = '\n'
      · rw [same, laterRows, List.cons_append, rows, if_pos rfl] at none
        exact rows_ne_nil (by simp) none
      · have unbroken : '\n' ∉ [c] := fun member => same (List.mem_singleton.mp member).symm
        refine ih ?_ ((List.mem_cons.mp feed).resolve_left (Ne.symm same))
        rwa [← laterRows_append unbroken rest]

theorem not_mem_lines {text : List Char} : ∀ line ∈ lines text, '\n' ∉ line := by
  fun_induction lines text with
  | case1 => simp
  | case2 rest ih => simpa using ih
  | case3 rest ih => simpa using ih
  | case4 c rest feed pair none ih =>
      have other : '\n' ≠ c := fun same => feed same.symm
      simpa using other
  | case5 c rest feed pair line more some ih =>
      rw [some, List.forall_mem_cons] at ih
      have other : '\n' ≠ c := fun same => feed same.symm
      exact List.forall_mem_cons.mpr ⟨by simp [other, ih.1], ih.2⟩

end Text

end Debugger
