import Debugger.Text.Lines

/-! The lines of a text, read off the pieces between its line feeds. -/
namespace Debugger.Text
variable {row rest : List Char}

/-- A piece of text without the carriage return at its end, if there is one. -/
def dropReturn (row : List Char) : List Char :=
  if row.getLast? = some '\r' then row.dropLast else row

theorem ite_dropLast_cons {last c : Char} (filled : row ≠ []) :
    (if (c :: row).getLast? = some last then (c :: row).dropLast else c :: row) =
      c :: if row.getLast? = some last then row.dropLast else row := by
  obtain ⟨d, more, rfl⟩ := List.exists_cons_of_ne_nil filled
  rw [List.getLast?_cons_cons]
  split <;> rfl

theorem dropReturn_cons {c : Char} (filled : row ≠ []) :
    dropReturn (c :: row) = c :: dropReturn row :=
  ite_dropLast_cons filled

theorem eq_or_eq_append_dropReturn (row : List Char) :
    row = dropReturn row ∨ row = dropReturn row ++ ['\r'] := by
  rw [dropReturn]
  split
  · rename_i last
    obtain ⟨before, rfl⟩ := List.getLast?_eq_some_iff.mp last
    exact .inr (by rw [List.dropLast_concat])
  · exact .inl rfl

/-- A line feed ends the line before it, with the carriage return that belongs to it. -/
theorem lines_append_cons (unbroken : '\n' ∉ row) :
    lines (row ++ '\n' :: rest) = dropReturn row :: lines rest := by
  induction row with
  | nil => rfl
  | cons c row ih =>
      obtain ⟨other, unbroken⟩ := not_or.mp (mt List.mem_cons.mpr unbroken)
      cases row with
      | nil =>
          by_cases same : c = '\r'
          · subst same
            rfl
          · rw [List.cons_append, List.nil_append, lines]
            · simp [lines, dropReturn, same]
            · exact fun feed => other feed.symm
            · exact fun _ returns => absurd returns same
      | cons d row =>
          have next : d ≠ '\n' := fun same => unbroken (same ▸ List.mem_cons_self)
          rw [List.cons_append, lines, ih unbroken, dropReturn_cons (List.cons_ne_nil d row)]
          · exact fun feed => other feed.symm
          · exact fun _ _ feed => next (List.cons.inj feed).1

theorem lines_of_unbroken (unbroken : '\n' ∉ row) : lines row = if row = [] then [] else [row] := by
  induction row with
  | nil => rfl
  | cons c row ih =>
      obtain ⟨other, unbroken⟩ := not_or.mp (mt List.mem_cons.mpr unbroken)
      rw [lines, ih unbroken]
      · cases row <;> rfl
      · exact fun feed => other feed.symm
      · rintro rest - rfl
        exact unbroken List.mem_cons_self

/-! ### The pieces between line feeds -/

theorem not_mem_splitOn (text : List Char) : ∀ row ∈ text.splitOn '\n', '\n' ∉ row := by
  induction text with
  | nil => simp
  | cons c rest ih =>
      rw [List.splitOn_cons_eq_if_modifyHead]
      split
      case isTrue => exact List.forall_mem_cons.mpr ⟨List.not_mem_nil, ih⟩
      case isFalse other =>
        obtain ⟨row, more, split⟩ := List.exists_cons_of_ne_nil (List.splitOn_ne_nil '\n' rest)
        rw [split] at ih ⊢
        obtain ⟨first, others⟩ := List.forall_mem_cons.mp ih
        refine List.forall_mem_cons.mpr ⟨fun feed => ?_, others⟩
        obtain same | feed := List.mem_cons.mp feed
        · exact other (beq_iff_eq.mpr same.symm)
        · exact first feed

theorem length_splitOn (text : List Char) :
    (text.splitOn '\n').length = text.count '\n' + 1 := by
  induction text with
  | nil => rfl
  | cons c rest ih =>
      rw [List.splitOn_cons_eq_if_modifyHead, List.count_cons]
      split
      · rw [List.length_cons, ih]
      · rw [List.length_modifyHead, ih, Nat.add_zero]

end Debugger.Text
