import Debugger.CallTree.Document
import Debugger.Config.Document
import Debugger.Files
import Debugger.Transcript

/-! Launching a program under the debugger: its files are read and checked in a
fixed order, and only when all is well does the program start. -/
namespace Debugger

namespace LineSpec

/-- Why a text does not name a line. -/
inductive Fault where
  | noColon
  | number (fault : Text.NumeralFault)
  | noSource
deriving DecidableEq

def splitLast : List Char → Option (List Char × List Char)
  | [] => none
  | c :: rest =>
      match splitLast rest with
      | some (before, after) => some (c :: before, after)
      | none => if c = ':' then some ([], rest) else none

/-- A source and a line with a colon between them. Of two faults the line's is
reported. -/
def ofChars (s : List Char) : Except Fault (List Char × Nat) :=
  match splitLast s with
  | none => .error .noColon
  | some (source, number) =>
      match Text.readBounded lineLimit (Text.trim number) with
      | .error fault => .error (.number fault)
      | .ok line => if source.isEmpty then .error .noSource else .ok (source, line)

/-- The wording, for the text that was given. -/
def Fault.message (spec : String) : Fault → String
  | .noColon => "invalid breakpoint '" ++ spec ++ "', expected SOURCE:LINE"
  | .number fault => "invalid line in breakpoint '" ++ spec ++ "': " ++ fault.message
  | .noSource => "invalid breakpoint '" ++ spec ++ "', missing source"

end LineSpec

structure Request where
  program : String
  config : Option String := none
  lineBreaks : List String := []
  functionBreaks : List String := []
  partialBreaks : List String := []
  script : Option String := none
  commands : List String := []

namespace Launch

/-- The first thing that went wrong. -/
inductive Fault where
  | program (path : String) (error : DebugError)
  | config (path : String) (error : DebugError)
  | unreadableScript (path : String) (failure : ReadFailure)
  | script (fault : ScriptFault)
  | command (fault : CommandFault)
  | lineBreak (spec : String) (fault : LineSpec.Fault)
  | transcript (fault : Transcript.Fault)
deriving DecidableEq

def Fault.message : Fault → String
  | .program path error => "failed to load program " ++ path ++ ": " ++ error.message
  | .config path error => "failed to load config " ++ path ++ ": " ++ error.message
  | .unreadableScript path failure =>
      "failed to read script " ++ path ++ ": " ++ failure.message
  | .script fault => fault.message
  | .command fault => fault.message
  | .lineBreak spec fault => fault.message spec
  | .transcript fault => fault.message

/-- Reads a file and then its text. A file that cannot be read is a fault of the
configuration. -/
def load {α : Type} (files : FileReader) (read : String → Except DebugError α) (path : String) :
    Except DebugError α :=
  match files path with
  | .error failure => .error (.invalidConfig (.unreadable path failure))
  | .ok text => read text

def loadProgram (files : FileReader) (r : Request) : Except Fault CallTree :=
  match load files CallTree.ofText r.program with
  | .ok tree => .ok tree
  | .error e => .error (.program r.program e)

def loadConfig (files : FileReader) (r : Request) : Except Fault Config :=
  match r.config with
  | none => .ok {}
  | some path =>
      match load files Config.ofText path with
      | .ok config => .ok config
      | .error e => .error (.config path e)

def readCommands : List String → Except CommandFault (List Command)
  | [] => .ok []
  | text :: rest =>
      match Command.ofText text with
      | .error fault => .error fault
      | .ok command => (readCommands rest).map (command :: ·)

def loadScript (files : FileReader) (r : Request) : Except Fault (List Command) :=
  match r.script with
  | none =>
      match readCommands r.commands with
      | .ok commands => .ok commands
      | .error fault => .error (.command fault)
  | some path =>
      match files path with
      | .error failure => .error (.unreadableScript path failure)
      | .ok text =>
          match Script.ofText text with
          | .ok commands => .ok commands
          | .error fault => .error (.script fault)

def readLineBreaks : List String → Except Fault (List Breakpoint.Kind)
  | [] => .ok []
  | spec :: rest =>
      match LineSpec.ofChars spec.toList with
      | .error fault => .error (.lineBreak spec fault)
      | .ok (source, line) =>
          (readLineBreaks rest).map (.line (String.ofList source) line :: ·)

/-- A launch with everything read. -/
structure Plan where
  tree : CallTree
  config : Config
  script : List Command
  breakpoints : List Breakpoint.Kind

/-- Reads everything: the program, the configuration, the script, and the
breakpoints last. -/
def plan (files : FileReader) (r : Request) : Except Fault Plan := do
  let tree ← loadProgram files r
  let config ← loadConfig files r
  let script ← loadScript files r
  let lines ← readLineBreaks r.lineBreaks
  let functions := r.functionBreaks.map fun name => Breakpoint.Kind.function name false
  let partials := r.partialBreaks.map fun name => Breakpoint.Kind.function name true
  return { tree, config, script, breakpoints := lines ++ functions ++ partials }

abbrev Quiet := Session Unit Empty

def Quiet.react : Reaction (StateM Quiet) Empty :=
  fun listener => nomatch listener

def Plan.session (p : Plan) : Quiet :=
  p.breakpoints.foldl (fun s kind => (Session.addBreakpoint Quiet.react kind s).2)
    (Session.new p.config ())

def Plan.run (p : Plan) : Transcript.Outcome Quiet :=
  Transcript.debug Quiet.react p.tree p.script {} p.session

/-- What is written, and how the launch ended. -/
def run (files : FileReader) (r : Request) : List Char × Except Fault Unit :=
  match plan files r with
  | .error fault => ([], .error fault)
  | .ok p => (p.run.sink.written, p.run.result.mapError .transcript)

end Launch
end Debugger
