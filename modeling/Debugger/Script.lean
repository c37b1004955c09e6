import Debugger.Stepping
import Debugger.Text.Blank
import Debugger.Text.Lines

/-! Debugger commands and scripts of them. A script has one command a line; a
number sign starts a comment, and blank lines do not count. -/
namespace Debugger

inductive Inspection where
  | stack
  | vars
  | print (name : String)
deriving DecidableEq

inductive Command where
  /-- Ends the pause in the given mode. -/
  | resume (mode : StepMode)
  | inspect (inspection : Inspection)
deriving DecidableEq

inductive CommandFault where
  | needsName
  | takesNoArguments (verb : String)
  | unknown (text : String)
deriving DecidableEq

def CommandFault.message : CommandFault → String
  | .needsName => "print needs a variable name"
  | .takesNoArguments verb => "'" ++ verb ++ "' takes no arguments"
  | .unknown text => "unknown debugger command '" ++ text ++ "'"

namespace Command

def resumes : Command → Bool
  | .resume _ => true
  | .inspect _ => false

/-- The command written out in full. -/
def describe : Command → String
  | .resume .continue => "continue"
  | .resume .into => "into"
  | .resume .over => "over"
  | .resume .out => "out"
  | .inspect .stack => "stack"
  | .inspect .vars => "vars"
  | .inspect (.print name) => "print " ++ name

/-- What a verb in lower case stands for. -/
inductive Verb where
  | plain (command : Command)
  | print
deriving DecidableEq

def verbs : List (String × Verb) :=
  [("continue", .plain (.resume .continue)), ("c", .plain (.resume .continue)),
   ("into", .plain (.resume .into)), ("step", .plain (.resume .into)),
   ("s", .plain (.resume .into)),
   ("over", .plain (.resume .over)), ("next", .plain (.resume .over)),
   ("n", .plain (.resume .over)),
   ("out", .plain (.resume .out)), ("finish", .plain (.resume .out)),
   ("stack", .plain (.inspect .stack)), ("bt", .plain (.inspect .stack)),
   ("vars", .plain (.inspect .vars)),
   ("print", .print), ("p", .print)]

/-- Reads a verb and what follows it, both without blanks around them. -/
def ofParts (text verb rest : List Char) : Except CommandFault Command :=
  match verbs.lookup (String.ofList (Text.lowerAscii verb)) with
  | some .print =>
      if rest.isEmpty then .error .needsName
      else .ok (.inspect (.print (String.ofList rest)))
  | some (.plain command) =>
      if rest.isEmpty then .ok command
      else .error (.takesNoArguments (String.ofList verb))
  | none => .error (.unknown (String.ofList text))

/-- Reads a command; blanks around it and the verb's letter case do not count. -/
def ofChars (s : List Char) : Except CommandFault Command :=
  let text := Text.trim s
  let (verb, rest) := Text.splitAtBlank text
  ofParts text verb (Text.trim rest)

def ofText (text : String) : Except CommandFault Command :=
  ofChars text.toList

end Command

/-- The first line of a script that is no command. -/
structure ScriptFault where
  /-- The line, counted from one. -/
  line : Nat
  cause : CommandFault
deriving DecidableEq

namespace ScriptFault

def context (f : ScriptFault) : String :=
  "script line " ++ toString f.line

def message (f : ScriptFault) : String :=
  f.context ++ ": " ++ f.cause.message

end ScriptFault

namespace Script

/-- A line without its comment and the blanks around it. -/
def content (line : List Char) : List Char :=
  Text.trim (line.takeWhile (· != '#'))

/-- Reads lines from the given number on. -/
def ofLines (number : Nat) : List (List Char) → Except ScriptFault (List Command)
  | [] => .ok []
  | line :: rest =>
      if (content line).isEmpty then ofLines (number + 1) rest
      else
        match Command.ofChars (content line) with
        | .error cause => .error ⟨number, cause⟩
        | .ok command => (ofLines (number + 1) rest).map (command :: ·)

def ofText (text : String) : Except ScriptFault (List Command) :=
  ofLines 1 (Text.lines text.toList)

end Script
end Debugger
