import Debugger.Proofs.Script.Reading

/-! Main statement: a command that was read is read back from its echo. Of all commands only a
`print` without a name, or with a name that has a blank at an end, is not; and the echoes of a
script are a script of the same commands. -/
namespace Debugger

namespace Command
variable {s : List Char} {d : Char} {c : Command} {name text : String}

/-- A name to print is filled and has no blank at either end. -/
def Named (c : Command) : Prop :=
  ∀ name, c = .inspect (.print name) → name ≠ "" ∧ Text.Trimmed name.toList

/-- A verb stands for a command of its own, or takes what follows as a name. -/
theorem ofChars_cases (read : ofChars s = .ok c) :
    (∃ verb, (verb, .plain c) ∈ verbs) ∨
      ∃ rest, Text.trim rest ≠ [] ∧ (∀ d ∈ rest, d ∈ s) ∧
        c = .inspect (.print (String.ofList (Text.trim rest))) := by
  rw [ofChars] at read
  dsimp only at read
  rw [ofParts] at read
  split at read
  · split at read
    · cases read
    · rename_i filled
      obtain rfl := Except.ok.inj read
      refine .inr ⟨(Text.splitAtBlank (Text.trim s)).2, ?_, fun d member => ?_, rfl⟩
      · simpa using filled
      · exact Text.mem_of_mem_trim (Text.mem_of_mem_splitAtBlank member)
  · rename_i command found
    split at read
    · obtain rfl := Except.ok.inj read
      obtain ⟨before, after, split, -⟩ := List.lookup_eq_some_iff.mp found
      exact .inl ⟨_, split ▸ List.mem_append_right _ List.mem_cons_self⟩
    · cases read
  · cases read

theorem not_plain_print (verb name : String) :
    (verb, .plain (.inspect (.print name))) ∉ verbs := by
  simp [verbs]

/-- What is read has a name with no blank around it, all of it from the text. -/
theorem named_of_ofChars (read : ofChars s = .ok c) : c.Named := by
  rintro name rfl
  obtain ⟨verb, listed⟩ | ⟨rest, filled, -, same⟩ := ofChars_cases read
  · exact absurd listed (not_plain_print verb name)
  · cases same
    refine ⟨fun empty => filled ?_, ?_⟩
    · simpa using congrArg String.toList empty
    · rw [String.toList_ofList]
      exact Text.trimmed_trim rest

theorem ofText_resume (mode : StepMode) :
    ofText (describe (.resume mode)) = .ok (.resume mode) := by
  cases mode <;> decide +kernel

theorem ofText_print (filled : name ≠ "") (trimmed : Text.Trimmed name.toList) :
    ofText ("print " ++ name) = .ok (.inspect (.print name)) := by
  have present : name.toList ≠ [] := by simpa using filled
  have whole : Text.Trimmed ("print " ++ name).toList := by
    rw [String.toList_append]
    constructor
    · intro c first
      obtain rfl : 'p' = c := Option.some.inj first
      decide
    · intro c last
      rw [List.getLast?_append, List.getLast?_eq_some_getLast present, Option.some_or] at last
      exact trimmed.last c (List.getLast?_eq_some_getLast present ▸ last)
  have parts : Text.splitAtBlank ("print " ++ name).toList = ("print".toList, name.toList) := by
    rw [String.toList_append]
    change Text.splitAtBlank ("print".toList ++ ' ' :: name.toList) = _
    have filled : "print".toList.all (fun c => !Text.isBlank c) = true := by decide
    refine Text.splitAtBlank_append (fun c member => ?_) (by decide)
    simpa using List.all_eq_true.mp filled c member
  have verb : verbs.lookup (String.ofList (Text.lowerAscii "print".toList)) = some .print := by
    decide +kernel
  rw [ofText, ofChars, Text.trim_of_trimmed whole, parts]
  dsimp only
  rw [Text.trim_of_trimmed trimmed, ofParts, verb]
  dsimp only
  rw [if_neg (by simpa using present), String.ofList_toList]

/-- Exactly the named commands are read back from their echoes. -/
theorem ofText_describe_iff : ofText c.describe = .ok c ↔ c.Named := by
  refine ⟨named_of_ofChars, fun named => ?_⟩
  match c with
  | .resume mode => exact ofText_resume mode
  | .inspect .stack | .inspect .vars => decide +kernel
  | .inspect (.print name) => exact ofText_print (named name rfl).1 (named name rfl).2

theorem exists_filled_describe (c : Command) :
    ∃ d ∈ c.describe.toList, Text.isBlank d = false := by
  match c with
  | .resume .continue => exact ⟨'c', by decide, by decide⟩
  | .resume .into => exact ⟨'i', by decide, by decide⟩
  | .resume .over | .resume .out => exact ⟨'o', by decide, by decide⟩
  | .inspect .stack => exact ⟨'s', by decide, by decide⟩
  | .inspect .vars => exact ⟨'v', by decide, by decide⟩
  | .inspect (.print name) =>
      refine ⟨'p', ?_, by decide⟩
      rw [describe, String.toList_append]
      exact List.mem_append_left _ (by decide)

/-- What ends a row or starts a comment comes into an echo by the text only. -/
theorem not_mem_describe (read : ofChars s = .ok c) (mark : d = '\n' ∨ d = '#')
    (absent : d ∉ s) : d ∉ c.describe.toList := by
  match c with
  | .resume .continue | .resume .into | .resume .over | .resume .out | .inspect .stack
  | .inspect .vars => obtain rfl | rfl := mark <;> decide
  | .inspect (.print name) =>
      obtain ⟨verb, listed⟩ | ⟨rest, -, within, same⟩ := ofChars_cases read
      · exact absurd listed (not_plain_print verb name)
      · cases same
        rw [describe, String.toList_append]
        intro member
        obtain verb | inside := List.mem_append.mp member
        · obtain rfl | rfl := mark <;> exact absurd verb (by decide)
        · rw [String.toList_ofList] at inside
          exact absent (within d (Text.mem_of_mem_trim inside))

end Command

namespace Launch
variable {commands : List Command}

theorem readCommands_describe (named : ∀ c ∈ commands, c.Named) :
    readCommands (commands.map Command.describe) = .ok commands := by
  induction commands with
  | nil => rfl
  | cons c rest ih =>
      obtain ⟨first, others⟩ := List.forall_mem_cons.mp named
      rw [List.map_cons, readCommands, Command.ofText_describe_iff.mpr first, ih others]
      rfl

end Launch

namespace Script
variable {rows : List (List Char)} {number : Nat} {c : Command} {commands : List Command}

/-- Each command of a script is what one of its rows says. -/
theorem exists_row_of_mem (read : ofLines number rows = .ok commands) (member : c ∈ commands) :
    ∃ row ∈ rows, Command.ofChars (content row) = .ok c := by
  induction rows generalizing number commands with
  | nil =>
      obtain rfl := Except.ok.inj read
      exact absurd member List.not_mem_nil
  | cons row rest ih =>
      rw [ofLines] at read
      split at read
      · obtain ⟨row, among, spoken⟩ := ih read member
        exact ⟨row, List.mem_cons_of_mem _ among, spoken⟩
      · split at read
        · cases read
        · rename_i command spoken
          cases others : ofLines (number + 1) rest with
          | error fault =>
              rw [others] at read
              cases read
          | ok more =>
              rw [others] at read
              obtain rfl := Except.ok.inj read
              obtain rfl | later := List.mem_cons.mp member
              · exact ⟨row, List.mem_cons_self, spoken⟩
              · obtain ⟨row, among, spoken⟩ := ih others later
                exact ⟨row, List.mem_cons_of_mem _ among, spoken⟩

theorem not_mem_content (row : List Char) : '#' ∉ content row := by
  intro member
  have kept := List.mem_takeWhile_imp (Text.mem_of_mem_trim member)
  exact absurd kept (by decide)

theorem mem_of_mem_content {row : List Char} {d : Char} (member : d ∈ content row) : d ∈ row := by
  have start := List.takeWhile_prefix (· != '#') (l := row)
  exact start.mem (Text.mem_of_mem_trim member)

theorem oneRow_describe {row : List Char} (unbroken : '\n' ∉ row)
    (read : Command.ofChars (content row) = .ok c) : OneRow c.describe where
  unbroken := Command.not_mem_describe read (.inl rfl) fun member =>
    unbroken (mem_of_mem_content member)
  uncommented := Command.not_mem_describe read (.inr rfl) (not_mem_content row)
  filled := c.exists_filled_describe

theorem ofText_echoes {text : String} (read : ofText text = .ok commands) :
    ofText (Text.joinLines (commands.map Command.describe)) = .ok commands := by
  rw [ofText_eq_ofLines] at read
  have named : ∀ c ∈ commands, c.Named := by
    intro c member
    obtain ⟨row, -, spoken⟩ := exists_row_of_mem read member
    exact Command.named_of_ofChars spoken
  have rows : ∀ echo ∈ commands.map Command.describe, OneRow echo := by
    intro echo member
    obtain ⟨c, among, rfl⟩ := List.mem_map.mp member
    obtain ⟨row, inside, spoken⟩ := exists_row_of_mem read among
    exact oneRow_describe (Text.not_mem_splitOn _ row inside) spoken
  have same := ofText_joinLines rows
  rw [Launch.readCommands_describe named] at same
  cases echoed : ofText (Text.joinLines (commands.map Command.describe)) with
  | error fault =>
      rw [echoed] at same
      exact nomatch same
  | ok again =>
      rw [echoed] at same
      exact congrArg Except.ok (Option.some.inj same)

/-- Whatever is read is read back from its echo, alone and in a script. -/
theorem echoes_are_read_back :
    (∀ (text : String) (c : Command), Command.ofText text = .ok c →
      Command.ofText c.describe = .ok c) ∧
    (∀ c : Command, Command.ofText c.describe = .ok c ↔
      ∀ name, c = .inspect (.print name) → name ≠ "" ∧ Text.Trimmed name.toList) ∧
    ∀ (text : String) (commands : List Command), ofText text = .ok commands →
      ofText (Text.joinLines (commands.map Command.describe)) = .ok commands :=
  ⟨fun _ _ read => Command.ofText_describe_iff.mpr (Command.named_of_ofChars read),
    fun _ => Command.ofText_describe_iff, fun _ _ => ofText_echoes⟩

/-- A name with a blank, a tab and a carriage return inside it, behind a short verb. -/
theorem echoes_are_read_back_of_alias :
    let print := Command.inspect (.print "a b\t\rc")
    let commands := [.resume .over, print]
    Command.ofText " P  a b\t\rc " = .ok print ∧
    Command.ofText print.describe = .ok print ∧
    ofText "n # next\n\nP  a b\t\rc\r\n" = .ok commands ∧
    ofText (Text.joinLines (commands.map Command.describe)) = .ok commands := by
  intro print commands
  have alone : Command.ofText " P  a b\t\rc " = .ok print := by decide +kernel
  have script : ofText "n # next\n\nP  a b\t\rc\r\n" = .ok commands := by decide +kernel
  obtain ⟨echo, -, echoes⟩ := echoes_are_read_back
  exact ⟨alone, echo _ _ alone, script, echoes _ _ script⟩

end Script
end Debugger
