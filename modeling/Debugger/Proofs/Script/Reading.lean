import Debugger.Launch
import Debugger.Proofs.Text.Lines
import Debugger.Proofs.Text.Trimming

/-! Main statement: a script is read row by row. Scripts with a line feed between them are read one
after the other, and the first row that is no command is the one that is named. -/
namespace Debugger

/-- The same fault so many lines further down. -/
def ScriptFault.later (lines : Nat) (f : ScriptFault) : ScriptFault :=
  { f with line := f.line + lines }

namespace Script
variable {number : Nat} {row : List Char} {rows first second : List (List Char)}
variable {fault : ScriptFault} {commands : List Command}

/-- What a row says: a command, or nothing if it is blank but for a comment. -/
def readRow (row : List Char) : Except CommandFault (Option Command) :=
  if (content row).isEmpty then .ok none else (Command.ofChars (content row)).map some

theorem ofLines_cons (number : Nat) (row : List Char) (rest : List (List Char)) :
    ofLines number (row :: rest) =
      match readRow row with
      | .error cause => .error ⟨number, cause⟩
      | .ok said => (ofLines (number + 1) rest).map (said.toList ++ ·) := by
  rw [ofLines, readRow]
  split
  · cases ofLines (number + 1) rest <;> rfl
  · cases Command.ofChars (content row) <;> rfl

theorem ofLines_append (number : Nat) (first second : List (List Char)) :
    ofLines number (first ++ second) =
      match ofLines number first with
      | .error fault => .error fault
      | .ok commands => (ofLines (number + first.length) second).map (commands ++ ·) := by
  induction first generalizing number with
  | nil =>
      rw [List.nil_append, ofLines, List.length_nil, Nat.add_zero]
      cases ofLines number second <;> rfl
  | cons row rest ih =>
      rw [List.cons_append, ofLines_cons, ofLines_cons, ih, List.length_cons,
        Nat.add_comm rest.length, ← Nat.add_assoc]
      cases readRow row with
      | error cause => rfl
      | ok said =>
          cases ofLines (number + 1) rest with
          | error fault => rfl
          | ok commands =>
              cases ofLines (number + 1 + rest.length) second with
              | error fault => rfl
              | ok more => exact congrArg Except.ok (List.append_assoc ..).symm

/-- Only the numbers of the lines depend on where reading begins. -/
theorem ofLines_later (number count : Nat) (rows : List (List Char)) :
    ofLines (number + count) rows = (ofLines number rows).mapError (.later count) := by
  induction rows generalizing number with
  | nil => rfl
  | cons row rest ih =>
      rw [ofLines_cons, ofLines_cons, Nat.add_right_comm, ih]
      cases readRow row with
      | error cause => rfl
      | ok said => cases ofLines (number + 1) rest <;> rfl

theorem ofLines_of_said (said : ∀ row ∈ rows, ∃ said, readRow row = .ok said) (number : Nat) :
    ∃ commands, ofLines number rows = .ok commands := by
  induction rows generalizing number with
  | nil => exact ⟨[], rfl⟩
  | cons row rest ih =>
      obtain ⟨⟨first, gives⟩, others⟩ := List.forall_mem_cons.mp said
      obtain ⟨commands, read⟩ := ih others (number + 1)
      exact ⟨first.toList ++ commands, by rw [ofLines_cons, gives, read]; rfl⟩

theorem ofLines_of_offender {before after : List (List Char)} {cause : CommandFault}
    (offends : readRow row = .error cause)
    (others : ∀ earlier ∈ before, ∃ said, readRow earlier = .ok said) (number : Nat) :
    ofLines number (before ++ row :: after) = .error ⟨number + before.length, cause⟩ := by
  obtain ⟨commands, read⟩ := ofLines_of_said others number
  rw [ofLines_append, read, ofLines_cons, offends]
  rfl

theorem exists_offender (failed : ofLines number rows = .error fault) :
    ∃ before row after, rows = before ++ row :: after ∧ fault.line = number + before.length ∧
      readRow row = .error fault.cause ∧
      ∀ earlier ∈ before, ∃ said, readRow earlier = .ok said := by
  induction rows generalizing number with
  | nil => exact nomatch failed
  | cons row rest ih =>
      rw [ofLines_cons] at failed
      cases gives : readRow row with
      | error cause =>
          rw [gives] at failed
          obtain rfl := Except.error.inj failed
          exact ⟨[], row, rest, rfl, rfl, gives, by simp⟩
      | ok said =>
          have later : ofLines (number + 1) rest = .error fault := by
            rw [gives] at failed
            cases read : ofLines (number + 1) rest with
            | error other => simpa [read, Except.map] using failed
            | ok commands => simp [read, Except.map] at failed
          obtain ⟨before, offender, after, rfl, line, offends, others⟩ := ih later
          refine ⟨row :: before, offender, after, rfl, ?_, offends, ?_⟩
          · rw [line, List.length_cons]
            omega
          · exact List.forall_mem_cons.mpr ⟨⟨said, gives⟩, others⟩

/-- Reading fails at the first row that is no command, and only there. -/
theorem ofLines_eq_error_iff : ofLines number rows = .error fault ↔
    ∃ before row after, rows = before ++ row :: after ∧ fault.line = number + before.length ∧
      readRow row = .error fault.cause ∧
      ∀ earlier ∈ before, ∃ said, readRow earlier = .ok said := by
  refine ⟨exists_offender, ?_⟩
  rintro ⟨before, row, after, rfl, line, offends, others⟩
  rw [ofLines_of_offender offends others, ← line]

/-! ### Rows and lines -/

theorem content_append_return (row : List Char) : content (row ++ ['\r']) = content row := by
  rw [content, content, List.takeWhile_append]
  split
  case isTrue whole =>
    have start := List.takeWhile_prefix (· != '#') (l := row)
    rw [start.eq_of_length whole]
    exact Text.trim_append_blanks (List.forall_mem_singleton.mpr (by decide))
  case isFalse => rfl

theorem readRow_dropReturn (row : List Char) : readRow (Text.dropReturn row) = readRow row := by
  rcases Text.eq_or_eq_append_dropReturn row with same | ends
  · rw [← same]
  · rw [ends, readRow, readRow, content_append_return, ← ends]

theorem ofLines_lines_intercalate (unbroken : ∀ row ∈ rows, '\n' ∉ row) (filled : rows ≠ [])
    (number : Nat) :
    ofLines number (Text.lines (['\n'].intercalate rows)) = ofLines number rows := by
  induction rows generalizing number with
  | nil => exact absurd rfl filled
  | cons row rest ih =>
      obtain ⟨first, others⟩ := List.forall_mem_cons.mp unbroken
      cases rest with
      | nil =>
          rw [List.intercalate_singleton, Text.lines_of_unbroken first]
          split
          · rename_i empty
            rw [empty]
            rfl
          · rfl
      | cons next rest =>
          rw [List.intercalate_cons_cons, List.append_assoc, List.singleton_append,
            Text.lines_append_cons first, ofLines_cons, ofLines_cons, readRow_dropReturn,
            ih others (List.cons_ne_nil next rest)]

/-- Reading does not tell the lines of a text from the rows between its line feeds. -/
theorem ofText_eq_ofLines (text : String) :
    ofText text = ofLines 1 (text.toList.splitOn '\n') := by
  have rows := ofLines_lines_intercalate (Text.not_mem_splitOn text.toList)
    (List.splitOn_ne_nil _ _) 1
  rwa [List.intercalate_splitOn] at rows

/-- Two scripts with a line feed between them. -/
theorem ofText_append (a b : String) : ofText (a ++ "\n" ++ b) =
    match ofText a, ofText b with
    | .error fault, _ => .error fault
    | .ok first, .ok second => .ok (first ++ second)
    | .ok _, .error fault => .error (fault.later (a.toList.count '\n' + 1)) := by
  have rows : (a ++ "\n" ++ b).toList.splitOn '\n' =
      a.toList.splitOn '\n' ++ b.toList.splitOn '\n' := by
    rw [String.toList_append, String.toList_append, List.append_assoc]
    exact List.splitOn_append_cons_self ..
  rw [ofText_eq_ofLines, ofText_eq_ofLines a, ofText_eq_ofLines b, rows, ofLines_append,
    ofLines_later, Text.length_splitOn]
  cases ofLines 1 (a.toList.splitOn '\n') with
  | error fault => rfl
  | ok first => cases ofLines 1 (b.toList.splitOn '\n') <;> rfl

/-! ### Commands as texts of their own -/

/-- A text that is one row of a script as it stands, and not a blank one. -/
structure OneRow (text : String) : Prop where
  unbroken : '\n' ∉ text.toList
  uncommented : '#' ∉ text.toList
  filled : ∃ c ∈ text.toList, Text.isBlank c = false

theorem ofChars_trim (s : List Char) : Command.ofChars (Text.trim s) = Command.ofChars s := by
  rw [Command.ofChars, Command.ofChars, Text.trim_trim]

theorem content_of_uncommented (uncommented : '#' ∉ row) : content row = Text.trim row := by
  have whole : row.takeWhile (· != '#') = row :=
    List.takeWhile_eq_self_iff.mpr fun c member =>
      bne_iff_ne.mpr fun same => uncommented (same ▸ member)
  rw [content, whole]

theorem OneRow.readRow {text : String} (one : OneRow text) :
    readRow text.toList = (Command.ofText text).map some := by
  obtain ⟨c, member, filled⟩ := one.filled
  rw [Script.readRow, content_of_uncommented one.uncommented, if_neg, ofChars_trim,
    Command.ofText]
  exact fun empty => Text.trim_ne_nil member filled (List.isEmpty_iff.mp empty)

theorem toOption_ofLines {texts : List String} (rows : ∀ text ∈ texts, OneRow text)
    (number : Nat) : (ofLines number (texts.map String.toList)).toOption =
      (Launch.readCommands texts).toOption := by
  induction texts generalizing number with
  | nil => rfl
  | cons text rest ih =>
      obtain ⟨first, others⟩ := List.forall_mem_cons.mp rows
      rw [List.map_cons, ofLines_cons, first.readRow, Launch.readCommands]
      cases Command.ofText text with
      | error cause => rfl
      | ok command =>
          have same := congrArg (Option.map (command :: ·)) (ih others (number + 1))
          cases left : ofLines (number + 1) (rest.map String.toList) <;>
            cases right : Launch.readCommands rest <;>
            simp_all [Except.map, Except.toOption]

theorem ofText_joinLines {texts : List String} (rows : ∀ text ∈ texts, OneRow text) :
    (ofText (Text.joinLines texts)).toOption = (Launch.readCommands texts).toOption := by
  cases texts with
  | nil => rfl
  | cons text rest =>
      have unbroken : ∀ row ∈ (text :: rest).map String.toList, '\n' ∉ row := by
        intro row member
        obtain ⟨text, among, rfl⟩ := List.mem_map.mp member
        exact (rows text among).unbroken
      rw [ofText, Text.joinLines, Text.joinWith, String.toList_intercalate]
      exact (congrArg Except.toOption (ofLines_lines_intercalate unbroken (by simp) 1)).trans
        (toOption_ofLines rows 1)

/-- Scripts with a line feed between them are read one after the other. A fault names, counted
from one, the row of the text that is the first to be no command. Commands given one by one are
read like a script of them. -/
theorem scripts_are_read_by_rows (a b : String) :
    (ofText (a ++ "\n" ++ b) =
      match ofText a, ofText b with
      | .error fault, _ => .error fault
      | .ok first, .ok second => .ok (first ++ second)
      | .ok _, .error fault => .error (fault.later (a.toList.count '\n' + 1))) ∧
    (∀ (text : String) (fault : ScriptFault), ofText text = .error fault ↔
      ∃ before row after, text.toList.splitOn '\n' = before ++ row :: after ∧
        fault.line = before.length + 1 ∧ readRow row = .error fault.cause ∧
        ∀ earlier ∈ before, ∃ said, readRow earlier = .ok said) ∧
    ∀ (texts : List String) (files : FileReader) (request : Request) (path : String),
      (∀ text ∈ texts, OneRow text) → files path = .ok (Text.joinLines texts) →
      (Launch.loadScript files { request with script := some path }).toOption =
        (Launch.loadScript files { request with script := none, commands := texts }).toOption := by
  refine ⟨ofText_append a b, fun text fault => ?_, fun texts files request path rows file => ?_⟩
  · rw [ofText_eq_ofLines, ofLines_eq_error_iff]
    simp only [Nat.add_comm 1]
  · have same := ofText_joinLines rows
    rw [Launch.loadScript, Launch.loadScript]
    simp only [file]
    cases left : ofText (Text.joinLines texts) <;> cases right : Launch.readCommands texts <;>
      simp_all [Except.toOption]

/-- A script of two rows, with blanks around the commands and one inside. -/
theorem scripts_are_read_by_rows_of_file :
    let texts := ["step", "\tprint  x y\r"]
    let files : FileReader := fun _ => .ok (Text.joinLines texts)
    (∀ text ∈ texts, OneRow text) ∧
    (Launch.loadScript files { program := "main", script := some "commands" }).toOption =
      some [.resume .into, .inspect (.print "x y")] := by
  intro texts files
  have rows : ∀ text ∈ texts, OneRow text :=
    List.forall_mem_cons.mpr ⟨⟨by decide, by decide, 's', by decide, by decide⟩,
      List.forall_mem_cons.mpr ⟨⟨by decide, by decide, 'x', by decide, by decide⟩, by simp⟩⟩
  obtain ⟨-, -, alike⟩ := scripts_are_read_by_rows "" ""
  exact ⟨rows,
    (alike texts files { program := "main" } "commands" rows rfl).trans (by decide +kernel)⟩

end Script
end Debugger
