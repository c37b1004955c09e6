import Debugger.CallTree.Walk
import Debugger.Script
import Debugger.Session.Basic

/-! Transcripts: a program runs under a session while a script answers its
pauses, and what is seen is written to a sink. At each pause stand a header, the
call stack and the variables, then each command used up with what it shows. -/
namespace Debugger

/-- A sink for text. With a limit it takes that many whole lines and refuses
every character after them. -/
structure Sink where
  written : List Char := []
  limit : Option Nat := none

namespace Sink

/-- The part of a text that room for so many lines takes. -/
def accepted : Nat → List Char → List Char
  | 0, _ => []
  | _, [] => []
  | room + 1, c :: rest => c :: accepted (if c = '\n' then room else room + 1) rest

/-- Writes a text, or as much of it as the sink takes, and says whether that was
all. -/
def write (text : List Char) (s : Sink) : Bool × Sink :=
  match s.limit with
  | none => (true, { s with written := s.written ++ text })
  | some room =>
      let part := accepted room text
      (part.length = text.length,
        { written := s.written ++ part, limit := some (room - part.count '\n') })

end Sink

namespace Transcript

def line (text : String) : List Char :=
  text.toList ++ ['\n']

/-- Lines indented by two spaces; `empty` stands for a text without content. -/
def block (text empty : String) : List (List Char) :=
  if text.isEmpty then [line ("  " ++ empty)]
  else (Text.lines text.toList).map fun content => ' ' :: ' ' :: content ++ ['\n']

def stackBlock (s : Snapshot) : List (List Char) :=
  block s.stackText "(empty stack)"

def variablesBlock (s : Snapshot) : List (List Char) :=
  block s.variablesText "(no variables)"

def inspect (s : Snapshot) : Inspection → List (List Char)
  | .stack => stackBlock s
  | .vars => variablesBlock s
  | .print name =>
      match s.find? name with
      | some found => [line ("  " ++ found.render)]
      | none => [line ("  " ++ name ++ ": not found")]

def location (s : Snapshot) : String :=
  match s.frames with
  | [] => "<unknown>"
  | frame :: _ => frame.location

def header (pause : Pause) : List Char :=
  line ("== " ++ pause.reason.render ++ ": " ++ location pause.snapshot)

def echo (command : Command) : List Char :=
  line ("> " ++ command.describe)

/-- How a script answers one pause. -/
structure Reply where
  /-- The inspections before the pause ends. -/
  inspections : List Inspection
  /-- The mode in which the program goes on. -/
  mode : StepMode
  rest : List Command

/-- Uses up a script to its first resuming command. A script without one goes on
with `continue`. -/
def reply : List Command → Reply
  | [] => ⟨[], .continue, []⟩
  | .resume mode :: rest => ⟨[], mode, rest⟩
  | .inspect inspection :: rest =>
      { reply rest with inspections := inspection :: (reply rest).inspections }

def inspected (s : Snapshot) (inspection : Inspection) : List (List Char) :=
  echo (.inspect inspection) :: inspect s inspection

def pauseText (pause : Pause) (r : Reply) : List (List Char) :=
  header pause :: stackBlock pause.snapshot ++ variablesBlock pause.snapshot ++
    r.inspections.flatMap (inspected pause.snapshot) ++ [echo (.resume r.mode)]

def finishedText (count : Nat) : List Char :=
  line ("== finished (" ++ toString count ++ " calls)")

/-- Why a transcript broke off. -/
inductive Fault where
  | sinkClosed
  | command (error : DebugError)
  | program (error : DebugError)
  /-- The program is still parked at its pause, and nothing more is going to happen. -/
  | stillPaused
deriving DecidableEq

def Fault.message : Fault → String
  | .sinkClosed => "sink closed"
  | .command error => error.message
  | .program error => "program execution failed: " ++ error.message
  | .stillPaused => "program is still paused"

/-- How a transcript ended, with the session and the sink as they are left. -/
structure Outcome (σ : Type) where
  result : Except Fault Unit
  session : σ
  sink : Sink

variable {ε ℓ : Type}

/-- Interrupts every pause until the program is over, or one is not released by that. -/
def stop (run : Run (Session ε ℓ) (Except DebugError Nat)) : Session ε ℓ :=
  (Session.attended (some fun s => (Session.interrupt s).2) run).state

/-- Makes the program run out: without breakpoints and steps it does not pause
again once this pause is given up. -/
def giveUp (s : Session ε ℓ) : Session ε ℓ :=
  Session.resetSteps { s with breakpoints := s.breakpoints.clear }

/-- Answers the pauses of a run from a script. The program goes on with the release that
its command has left in the pause's slot. When a pause cannot be written or answered, the
program is stopped. -/
def drive : List Command → Sink → Run (Session ε ℓ) (Except DebugError Nat) →
    Outcome (Session ε ℓ)
  | _, sink, .finished (.error e) s => ⟨.error (.program e), s, sink⟩
  | _, sink, .finished (.ok count) s =>
      match sink.write (finishedText count) with
      | (true, sink) => ⟨.ok (), s, sink⟩
      | (false, sink) => ⟨.error .sinkClosed, s, sink⟩
  | script, sink, .parked pause s resume =>
      match sink.write (pauseText pause (reply script)).flatten with
      | (false, sink) =>
          ⟨.error .sinkClosed, stop (.parked pause (giveUp s) resume), sink⟩
      | (true, sink) =>
          match Session.resume (reply script).mode s with
          | (.error e, s) =>
              ⟨.error (.command e), stop (.parked pause (giveUp s) resume), sink⟩
          | (.ok (), s) =>
              match (Engine.slot s pause.slot).signal with
              | some r => drive (reply script).rest sink (resume r s)
              | none => ⟨.error .stillPaused, s, sink⟩

def debug (react : Reaction (StateM (Session ε ℓ)) ℓ) (tree : CallTree) (script : List Command)
    (sink : Sink) (s : Session ε ℓ) : Outcome (Session ε ℓ) :=
  drive script sink (tree.run (Session.hook react) s)

end Transcript
end Debugger
