import Debugger.Proofs.Text.Lines
import Debugger.Proofs.Transcript.Framing

/-! Indented blocks. Main statement: a block is read back from its lines by taking the indentation
away and joining them. Only its line endings are lost: which of them had a carriage return, and
whether the last line had one at all. -/
namespace Debugger

namespace Text
variable {text : List Char}

/-- The text with a line feed alone for each pair of a carriage return and a line feed. -/
def unpaired : List Char → List Char
  | [] => []
  | '\r' :: '\n' :: rest => '\n' :: unpaired rest
  | c :: rest => c :: unpaired rest

/-- The text without the line feed at its end, if there is one. -/
def dropFeed (text : List Char) : List Char :=
  if text.getLast? = some '\n' then text.dropLast else text

theorem dropFeed_cons {c : Char} (filled : text ≠ []) : dropFeed (c :: text) = c :: dropFeed text :=
  ite_dropLast_cons filled

theorem dropFeed_eq_self_iff : dropFeed text = text ↔ text.getLast? ≠ some '\n' := by
  rw [dropFeed]
  split
  case isTrue last =>
    obtain ⟨before, rfl⟩ := List.getLast?_eq_some_iff.mp last
    simp
  case isFalse other => exact iff_of_true rfl other

theorem dropFeed_isPrefix (text : List Char) : dropFeed text <+: text := by
  rw [dropFeed]
  split
  · exact List.dropLast_prefix text
  · exact List.prefix_refl text

theorem unpaired_eq_nil_iff : unpaired text = [] ↔ text = [] := by
  fun_cases unpaired text <;> simp

theorem length_unpaired_le (text : List Char) : (unpaired text).length ≤ text.length := by
  fun_induction unpaired text with
  | case1 => exact Nat.le_refl 0
  | case2 rest ih =>
      simp only [List.length_cons]
      omega
  | case3 c rest _ ih => exact Nat.succ_le_succ ih

/-- A pair makes the text shorter for good, so that only a text without pairs is kept. -/
theorem unpaired_eq_self_iff : unpaired text = text ↔ ¬ ['\r', '\n'] <:+: text := by
  fun_induction unpaired text with
  | case1 => simp
  | case2 rest ih =>
      have shorter := length_unpaired_le rest
      refine iff_of_false (fun same => ?_) (not_not_intro ⟨[], rest, rfl⟩)
      have length := congrArg List.length same
      simp only [List.length_cons] at length
      omega
  | case3 c rest other ih =>
      have unpaired : ¬ ['\r', '\n'] <+: c :: rest := by
        rintro ⟨more, pair⟩
        obtain ⟨rfl, rfl⟩ := List.cons.inj pair
        exact other more rfl rfl
      rw [List.cons_inj_right, ih, List.infix_cons_iff, or_iff_right unpaired]

/-- Neither loss makes up for the other: both make the text shorter. -/
theorem dropFeed_unpaired_eq_self_iff :
    dropFeed (unpaired text) = text ↔
      ¬ ['\r', '\n'] <:+: text ∧ text.getLast? ≠ some '\n' := by
  rw [← unpaired_eq_self_iff]
  constructor
  · intro kept
    have long : (unpaired text).length ≤ (dropFeed (unpaired text)).length := by
      rw [kept]
      exact length_unpaired_le text
    have ended : dropFeed (unpaired text) = unpaired text :=
      (dropFeed_isPrefix (unpaired text)).eq_of_length_le long
    have whole : unpaired text = text := ended.symm.trans kept
    exact ⟨whole, dropFeed_eq_self_iff.mp (by rwa [whole] at ended)⟩
  · rintro ⟨whole, last⟩
    rw [whole, dropFeed_eq_self_iff.mpr last]

theorem lines_eq_nil_iff : lines text = [] ↔ text = [] := by
  fun_cases lines text <;> simp

/-- Joined again, the lines of a text are the text but for its endings. -/
theorem intercalate_lines (text : List Char) :
    ['\n'].intercalate (lines text) = dropFeed (unpaired text) := by
  -- A line feed in front of a text is kept, unless nothing follows it.
  have feed (rest : List Char) (ih : ['\n'].intercalate (lines rest) = dropFeed (unpaired rest)) :
      ['\n'].intercalate ([] :: lines rest) = dropFeed ('\n' :: unpaired rest) := by
    by_cases last : rest = []
    · rw [last]
      rfl
    · obtain ⟨line, more, split⟩ := List.exists_cons_of_ne_nil (mt lines_eq_nil_iff.mp last)
      rw [dropFeed_cons (mt unpaired_eq_nil_iff.mp last), ← ih, split,
        List.intercalate_cons_cons]
      rfl
  fun_induction lines text with
  | case1 => rfl
  | case2 rest ih => exact feed rest ih
  | case3 rest ih => exact feed rest ih
  | case4 c rest other unended last ih =>
      obtain rfl := lines_eq_nil_iff.mp last
      have kept : dropFeed [c] = [c] := dropFeed_eq_self_iff.mpr fun same =>
        other (Option.some.inj same)
      rw [List.intercalate_singleton, unpaired, unpaired, kept]
      exact fun _ _ ended => List.cons_ne_nil _ _ ended.symm
  | case5 c rest other unended line more split ih =>
      have filled : rest ≠ [] := fun empty =>
        List.cons_ne_nil line more (split.symm.trans (lines_eq_nil_iff.mpr empty))
      have kept : unpaired (c :: rest) = c :: unpaired rest := by
        rw [unpaired]
        exact unended
      rw [kept, dropFeed_cons (mt unpaired_eq_nil_iff.mp filled), ← ih, split]
      cases more <;> rfl

end Text

namespace Transcript

theorem lined_block (text empty : String) : ∀ piece ∈ block text empty, Lined piece := by
  intro piece member
  rw [block] at member
  split at member
  · obtain rfl := List.mem_singleton.mp member
    exact Lined.line _
  · obtain ⟨content, -, rfl⟩ := List.mem_map.mp member
    exact .inr List.getLast?_concat

/-- What is shown behind the indentation of a text, with its lines joined again. -/
def unindent (written : List Char) : List Char :=
  ['\n'].intercalate ((Text.rows written).map (List.drop Mark.indent.chars.length))

/-- A reader of a block sees its lines, each behind the indentation. -/
theorem rows_block (text empty : String) (filled : text ≠ "") :
    Text.rows (block text empty).flatten =
      (Text.lines text.toList).map (Mark.indent.chars ++ ·) := by
  have whole : ∀ line ∈ Text.lines text.toList,
      (Strip.mk .indent line).first :: (Strip.mk .indent line).strays =
        [Mark.indent.chars ++ line] := by
    intro line member
    have whole : (Strip.mk .indent line).strays = [] :=
      Text.laterRows_of_unbroken (Text.not_mem_lines line member)
    rw [Strip.first_of_no_strays whole, whole]
    rfl
  rw [block_of_filled filled, Strip.rows_strips, List.flatMap_map, List.map_eq_flatMap,
    List.flatMap_def, List.flatMap_def, List.map_congr_left whole]

theorem unindent_block (text empty : String) (filled : text ≠ "") :
    unindent (block text empty).flatten = Text.dropFeed (Text.unpaired text.toList) := by
  rw [unindent, rows_block text empty filled, List.map_map, ← Text.intercalate_lines]
  congr 1
  exact List.map_id _

/-- A block has at least one line, and each is indented. Joined again behind the indentation, its
lines are the text up to the endings that the lines do not keep, and hence the text itself exactly
if it has no such ending. A block without content has the word for that as its one line. -/
theorem block_is_read_back (text empty : String) :
    let written := (block text empty).flatten
    (text ≠ "" →
      Text.rows written ≠ [] ∧ Lined written ∧
      (∀ row ∈ Text.rows written, Mark.indent.marks row = true) ∧
      unindent written = Text.dropFeed (Text.unpaired text.toList) ∧
      (unindent written = text.toList ↔
        ¬ ['\r', '\n'] <:+: text.toList ∧ text.toList.getLast? ≠ some '\n')) ∧
    (text = "" → written = Mark.indent.chars ++ empty.toList ++ ['\n']) := by
  intro written
  refine ⟨fun filled => ?_, fun none => ?_⟩
  · have shown : unindent written = Text.dropFeed (Text.unpaired text.toList) :=
      unindent_block text empty filled
    have reached : Text.rows written = (Text.lines text.toList).map (Mark.indent.chars ++ ·) :=
      rows_block text empty filled
    have lined : Text.lines text.toList ≠ [] :=
      mt Text.lines_eq_nil_iff.mp (mt String.toList_eq_nil_iff.mp filled)
    refine ⟨?_, ?_, ?_, shown, ?_⟩
    · rw [reached]
      exact mt List.map_eq_nil_iff.mp lined
    · exact Lined.flatten (lined_block text empty)
    · rw [reached]
      intro row member
      obtain ⟨line, -, rfl⟩ := List.mem_map.mp member
      exact Mark.marks_append .indent .indent line
    · rw [shown]
      exact Text.dropFeed_unpaired_eq_self_iff
  · show (block text empty).flatten = _
    rw [none, block_of_empty]
    simp [Strip.write, Strip.chars]

/-- Of these endings the first loses one of its two carriage returns and the last is lost. A blank
line and a carriage return alone are kept. -/
theorem block_is_read_back_of_mixed_endings :
    let mixed := "a\r\r\n\nb\r\n"
    let kept := "a\n\nb\r"
    mixed ≠ "" ∧ kept ≠ "" ∧
      unindent (block mixed "(none)").flatten = "a\r\n\nb".toList ∧
      unindent (block kept "(none)").flatten = kept.toList := by
  intro mixed kept
  have filled : mixed ≠ "" := by decide
  have other : kept ≠ "" := by decide
  obtain ⟨-, -, -, joined, -⟩ := (block_is_read_back mixed "(none)").1 filled
  obtain ⟨-, -, -, -, recovered⟩ := (block_is_read_back kept "(none)").1 other
  exact ⟨filled, other, joined.trans (by decide), recovered.mpr (by decide)⟩

end Transcript
end Debugger
