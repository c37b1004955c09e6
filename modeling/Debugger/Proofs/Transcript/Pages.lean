import Debugger.Proofs.Snapshot.Listings
import Debugger.Proofs.Stepping.Watch
import Debugger.Transcript

/-! A transcript as a sequence of pages, one for each stop of the program. The script
is cut at its resuming commands, and each stop uses up one piece of it. A page is spelled
out line by line, from what the stop shows and from the commands that are used up there. -/
namespace Debugger

namespace Script

def modes (script : List Command) : List StepMode :=
  script.filterMap fun
    | .resume mode => some mode
    | .inspect _ => none

/-- The commands up to the first resuming one, with a `continue` where there is
none. -/
def used (script : List Command) : List Command :=
  script.takeWhile (!·.resumes) ++
    [(script.dropWhile (!·.resumes)).headD (.resume .continue)]

/-- The commands behind the first resuming one. -/
def unused (script : List Command) : List Command :=
  (script.dropWhile (!·.resumes)).tail

/-- Only a script that is used up altogether gets a `continue` of its own. -/
theorem used_append_unused (script : List Command) :
    used script ++ unused script = script ∨
      used script = script ++ [.resume .continue] ∧ unused script = [] := by
  induction script with
  | nil => exact .inr ⟨rfl, rfl⟩
  | cons command rest ih =>
      cases command with
      | resume mode => exact .inl rfl
      | inspect inspection =>
          refine ih.imp (fun parts => ?_) fun all => ⟨?_, all.2⟩
          · exact congrArg (Command.inspect inspection :: ·) parts
          · exact congrArg (Command.inspect inspection :: ·) all.1

end Script

namespace Transcript

/-- How a line begins. -/
inductive Mark where
  | header
  | echo
  | indent
deriving DecidableEq

def Mark.chars : Mark → List Char
  | .header => ['=', '=', ' ']
  | .echo => ['>', ' ']
  | .indent => [' ', ' ']

/-- What is written behind a mark. -/
structure Strip where
  mark : Mark
  text : List Char

namespace Strip

def chars (s : Strip) : List Char :=
  s.mark.chars ++ s.text

def write (s : Strip) : List Char :=
  s.chars ++ ['\n']

end Strip

structure Page where
  reason : StopReason
  snapshot : Snapshot
  commands : List Command

namespace Page

def cause : StopReason → String
  | .breakpoint => "Breakpoint hit"
  | .step => "Step"

/-- The call, and where it stands in the program. -/
def place (f : Frame) : String :=
  f.expression.displayName ++
    match f.expression.source with
    | some source => " at " ++ source.id ++ ":" ++ toString source.line
    | none => " (unknown location)"

def binding (v : Variable) : String :=
  v.name ++ ": " ++ v.typeName ++ " = " ++ v.preview v.previewLength

/-- What the echo of a command says. -/
def said : Command → String
  | .resume .continue => "continue"
  | .resume .into => "into"
  | .resume .over => "over"
  | .resume .out => "out"
  | .inspect .stack => "stack"
  | .inspect .vars => "vars"
  | .inspect (.print name) => "print " ++ name

/-- The lines of some rows, indented; without any row, a remark. -/
def listing (rows : List String) (remark : String) : List Strip :=
  if rows = [] then [⟨.indent, remark.toList⟩]
  else (Text.lines ("\n".intercalate rows).toList).map (Strip.mk .indent)

def stackStrips (s : Snapshot) : List Strip :=
  listing (s.frames.map fun f => "#" ++ toString f.index ++ " " ++ place f) "(empty stack)"

def variablesStrips (s : Snapshot) : List Strip :=
  listing (s.visibleVariables.map binding) "(no variables)"

/-- What `print` shows. -/
def printed (s : Snapshot) (name : String) : String :=
  match s.find? name with
  | some found => binding found
  | none => name ++ ": not found"

/-- Where the innermost call stands. -/
def spot (p : Page) : String :=
  match p.snapshot.frames with
  | [] => "<unknown>"
  | innermost :: _ => place innermost

def headerStrip (p : Page) : Strip :=
  ⟨.header, (cause p.reason ++ ": " ++ p.spot).toList⟩

def echoStrip (command : Command) : Strip :=
  ⟨.echo, (said command).toList⟩

def shownStrips (s : Snapshot) : Command → List Strip
  | .resume _ => []
  | .inspect .stack => stackStrips s
  | .inspect .vars => variablesStrips s
  | .inspect (.print name) => [⟨.indent, (printed s name).toList⟩]

/-- A header, the stack and the variables, and then each command with what it shows. -/
def strips (p : Page) : List Strip :=
  p.headerStrip :: (stackStrips p.snapshot ++ variablesStrips p.snapshot ++
    p.commands.flatMap fun command => echoStrip command :: shownStrips p.snapshot command)

def text (p : Page) : List (List Char) :=
  p.strips.map Strip.write

end Page

def pages (previewLength : Nat) : List Command → List Stop → List Page
  | _, [] => []
  | script, stop :: rest =>
      ⟨stop.reason, stop.snapshot previewLength, Script.used script⟩ ::
        pages previewLength (Script.unused script) rest

theorem reply_eq_used (script : List Command) :
    (reply script).inspections.map .inspect ++ [.resume (reply script).mode] =
      Script.used script := by
  induction script with
  | nil => rfl
  | cons command rest ih =>
      cases command with
      | resume mode => rfl
      | inspect inspection => exact congrArg (Command.inspect inspection :: ·) ih

theorem reply_rest (script : List Command) : (reply script).rest = Script.unused script := by
  induction script with
  | nil => rfl
  | cons command rest ih =>
      cases command with
      | resume mode => rfl
      | inspect inspection => exact ih

theorem reply_mode (script : List Command) :
    (reply script).mode = (Script.modes script).headD .continue := by
  induction script with
  | nil => rfl
  | cons command rest ih =>
      cases command with
      | resume mode => rfl
      | inspect inspection => exact ih

/-- Using up a piece of a script uses up one of its modes. -/
theorem modes_unused (script : List Command) :
    Script.modes (Script.unused script) = (Script.modes script).tail := by
  induction script with
  | nil => rfl
  | cons command rest ih =>
      cases command with
      | resume mode => rfl
      | inspect inspection => exact ih

/-- A mark and a text behind it are a line. -/
theorem line_eq_write (mark : String) {m : Mark} (chars : mark.toList = m.chars) (text : String) :
    line (mark ++ text) = Strip.write ⟨m, text.toList⟩ := by
  rw [line, String.toList_append, chars]
  rfl

theorem block_of_filled {text : String} (filled : text ≠ "") (remark : String) :
    block text remark = ((Text.lines text.toList).map (Strip.mk .indent)).map Strip.write := by
  rw [block, if_neg (mt String.isEmpty_iff.mp filled), List.map_map]
  rfl

theorem block_of_empty (remark : String) :
    block "" remark = [Strip.write ⟨.indent, remark.toList⟩] := by
  rw [block, if_pos (by decide), ← line_eq_write "  " rfl]

namespace Page

theorem place_eq_location (f : Frame) : f.location = place f := by
  rw [Frame.location, place, Frame.source, Frame.functionName]
  cases f.expression.source with
  | none => rfl
  | some source => simp only [Source.render, String.append_assoc]

theorem block_eq_listing {rows : List String} (filled : ∀ row ∈ rows, row ≠ "")
    (remark : String) :
    block (Text.joinLines rows) remark = (listing rows remark).map Strip.write := by
  rw [listing]
  split
  case isTrue none =>
    rw [none]
    exact block_of_empty remark
  case isFalse some => exact block_of_filled (Text.joinLines_ne filled some) remark

theorem stackBlock_eq (s : Snapshot) : stackBlock s = (stackStrips s).map Strip.write := by
  have rows : (fun f : Frame => "#" ++ toString f.index ++ " " ++ place f) = Frame.render :=
    funext fun f => by rw [Frame.render, place_eq_location]
  rw [stackStrips, rows]
  exact block_eq_listing (List.forall_mem_map.mpr fun f _ => f.render_ne) _

theorem variablesBlock_eq (s : Snapshot) :
    variablesBlock s = (variablesStrips s).map Strip.write :=
  block_eq_listing (List.forall_mem_map.mpr fun v _ => v.render_ne) _

theorem echo_eq (command : Command) : echo command = (echoStrip command).write := by
  have words : command.describe = said command := by
    fun_cases said command <;> rfl
  rw [echo, words]
  exact line_eq_write _ rfl _

theorem header_eq (pause : Pause) (commands : List Command) :
    header pause = (headerStrip ⟨pause.reason, pause.snapshot, commands⟩).write := by
  have cause : pause.reason.render = cause pause.reason := by
    cases pause.reason <;> rfl
  have spot : location pause.snapshot = spot ⟨pause.reason, pause.snapshot, commands⟩ := by
    rw [location, Page.spot]
    cases pause.snapshot.frames with
    | nil => rfl
    | cons innermost _ => exact place_eq_location innermost
  have whole (reason spot : String) :
      "== " ++ reason ++ ": " ++ spot = "== " ++ (reason ++ ": " ++ spot) := by
    simp only [String.append_assoc]
  rw [header, cause, spot, whole]
  exact line_eq_write _ rfl _

theorem inspected_eq (s : Snapshot) (inspection : Inspection) :
    inspected s inspection = (echoStrip (.inspect inspection) ::
      shownStrips s (.inspect inspection)).map Strip.write := by
  refine List.cons_eq_cons.mpr ⟨echo_eq _, ?_⟩
  cases inspection with
  | stack => exact stackBlock_eq s
  | vars => exact variablesBlock_eq s
  | print name =>
      rw [inspect, shownStrips, printed]
      cases s.find? name with
      | none => exact congrArg (· :: []) (by rw [String.append_assoc]; exact line_eq_write _ rfl _)
      | some found => exact congrArg (· :: []) (line_eq_write _ rfl _)

end Page

theorem pauseText_eq (pause : Pause) (script : List Command) :
    pauseText pause (reply script) =
      Page.text ⟨pause.reason, pause.snapshot, Script.used script⟩ := by
  have last : echo (.resume (reply script).mode) :: [] =
      (Page.echoStrip (.resume (reply script).mode) ::
        Page.shownStrips pause.snapshot (.resume (reply script).mode)).map Strip.write :=
    congrArg (· :: []) (Page.echo_eq _)
  rw [pauseText, Page.header_eq pause (Script.used script), Page.stackBlock_eq,
    Page.variablesBlock_eq, funext (Page.inspected_eq pause.snapshot), last, Page.text, Page.strips,
    ← reply_eq_used]
  simp only [List.flatMap_append, List.flatMap_map, List.map_cons, List.map_append,
    List.map_flatMap, List.append_assoc, List.cons_append, List.flatMap_singleton]

/-- The commands on the pages are the script's, in order, and a `continue` where the
script is used up. -/
theorem commands_pages (previewLength : Nat) (script : List Command) (stops : List Stop) :
    ∃ extra, (pages previewLength script stops).flatMap Page.commands <+:
      script ++ List.replicate extra (.resume .continue) := by
  induction stops generalizing script with
  | nil => exact ⟨0, List.nil_prefix⟩
  | cons stop rest ih =>
      obtain ⟨extra, others⟩ := ih (Script.unused script)
      rw [pages, List.flatMap_cons]
      obtain parts | ⟨all, nothing⟩ := Script.used_append_unused script
      · refine ⟨extra, ?_⟩
        have whole : script ++ List.replicate extra (.resume .continue) = Script.used script ++
            (Script.unused script ++ List.replicate extra (.resume .continue)) := by
          rw [← List.append_assoc, parts]
        rw [whole]
        exact (List.prefix_append_right_inj _).mpr others
      · refine ⟨extra + 1, ?_⟩
        rw [nothing, List.nil_append] at others
        rw [all, List.append_assoc, nothing, List.replicate_succ]
        exact (List.prefix_append_right_inj _).mpr
          ((List.prefix_append_right_inj [Command.resume .continue]).mpr others)

end Transcript
end Debugger
