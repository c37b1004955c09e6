import Debugger.Launch

/-! The command line. Arguments are read from the left, and the first that is
wrong decides; only then are the options checked against each other, and last
whether the program is named. An option's value is taken up when the next
argument comes, or at the end. -/
namespace Debugger.CommandLine

/-- Why a command line starts no program. -/
inductive Fault where
  | help
  | version
  | helpOnMissing
  | unknownArgument
  | invalidSubcommand
  | missingRequired
  | invalidValue
  | conflict
  | tooManyValues
deriving DecidableEq

def Fault.name : Fault → String
  | .help => "DisplayHelp"
  | .version => "DisplayVersion"
  | .helpOnMissing => "DisplayHelpOnMissingArgumentOrSubcommand"
  | .unknownArgument => "UnknownArgument"
  | .invalidSubcommand => "InvalidSubcommand"
  | .missingRequired => "MissingRequiredArgument"
  | .invalidValue => "InvalidValue"
  | .conflict => "ArgumentConflict"
  | .tooManyValues => "TooManyValues"

/-- Asking for help or the version is no failure. -/
def Fault.exitCode : Fault → Nat
  | .help | .version => 0
  | _ => 2

/-- Options of a run; each takes one value. -/
inductive Setting where
  | config
  | lineBreak
  | functionBreak
  | partialBreak
  | script
  | command
deriving DecidableEq

def Setting.ofName? : String → Option Setting
  | "config" => some .config
  | "break" => some .lineBreak
  | "break-fn" => some .functionBreak
  | "break-fn-partial" => some .partialBreak
  | "script" => some .script
  | "command" => some .command
  | _ => none

/-- A value that has been read and is not taken up yet. -/
inductive Pending where
  | option (option : Setting) (value : Option String)
  | program (path : String)

/-- What has been read of a run's arguments. -/
structure Progress where
  program : Option String := none
  config : Option String := none
  lineBreaks : List String := []
  functionBreaks : List String := []
  partialBreaks : List String := []
  script : Option String := none
  commands : List String := []
  pending : Option Pending := none
  /-- Whether the next plain argument is the pending option's value. -/
  awaiting : Bool := false
  /-- Whether the program has been named. -/
  named : Bool := false
  /-- Whether only plain arguments follow. -/
  plainOnly : Bool := false

/-- A path that is given for the first time and is not empty. -/
def onePath (given : Option String) (path : String) : Except Fault (Option String) :=
  if given.isSome then .error .conflict
  else if path.isEmpty then .error .invalidValue
  else .ok (some path)

def Progress.store (p : Progress) (option : Setting) (value : String) : Except Fault Progress :=
  match option with
  | .config => (onePath p.config value).map fun config => { p with config }
  | .script => (onePath p.script value).map fun script => { p with script }
  | .lineBreak => .ok { p with lineBreaks := p.lineBreaks ++ [value] }
  | .functionBreak => .ok { p with functionBreaks := p.functionBreaks ++ [value] }
  | .partialBreak => .ok { p with partialBreaks := p.partialBreaks ++ [value] }
  | .command => .ok { p with commands := p.commands ++ [value] }

def Progress.settle (p : Progress) : Except Fault Progress :=
  let rest := { p with pending := none, awaiting := false }
  match p.pending with
  | none => .ok rest
  | some (.option _ none) => .error .invalidValue
  | some (.option option (some value)) => rest.store option value
  | some (.program path) =>
      if path.isEmpty then .error .invalidValue else .ok { rest with program := some path }

inductive Form where
  /-- Two dashes alone. -/
  | separator
  /-- Two dashes and a name, perhaps with a value after an equals sign. -/
  | long (name : String) (value : Option String)
  /-- A dash and letters. -/
  | short (first : Char)
  | plain

/-- A name and what follows the first equals sign. -/
def splitValue (s : List Char) : String × Option String :=
  let name := String.ofList (s.takeWhile (· != '='))
  match s.dropWhile (· != '=') with
  | [] => (name, none)
  | _ :: value => (name, some (String.ofList value))

def Form.of (argument : String) : Form :=
  match argument.toList with
  | ['-', '-'] => .separator
  | '-' :: '-' :: rest => .long (splitValue rest).1 (splitValue rest).2
  | '-' :: first :: _ => .short first
  | _ => .plain

/-- A flag that shows something and ends the reading. -/
def ask (fault : Fault) (value : Option String) (p : Progress) : Except Fault Progress :=
  match value, p.settle with
  | some _, _ => .error .tooManyValues
  | none, .error e => .error e
  | none, .ok _ => .error fault

/-- An argument that is no option: the pending option's value, or the program. -/
def Progress.takePlain (p : Progress) (argument : String) : Except Fault Progress :=
  match p.pending, p.awaiting && !p.plainOnly with
  | some (.option option none), true =>
      .ok { p with pending := some (.option option (some argument)), awaiting := false }
  | _, _ =>
      if p.named then .error .unknownArgument
      else p.settle.map fun p => { p with pending := some (.program argument), named := true }

def Progress.step (p : Progress) (argument : String) : Except Fault Progress :=
  if p.plainOnly then p.takePlain argument
  else
    match Form.of argument with
    | .separator => .ok { p with plainOnly := true }
    | .short first => if first = 'h' then ask .help none p else .error .unknownArgument
    | .long name value =>
        if name = "help" then ask .help value p
        else
          match Setting.ofName? name, value with
          | none, _ => .error .unknownArgument
          | some option, some value => p.settle >>= fun p => p.store option value
          | some option, none =>
              p.settle.map fun p =>
                { p with pending := some (.option option none), awaiting := true }
    | .plain => p.takePlain argument

/-- Checks the options against each other and then for the program. -/
def Progress.request (p : Progress) : Except Fault Request :=
  if p.script.isSome && !p.commands.isEmpty then .error .conflict
  else
    match p.program with
    | none => .error .missingRequired
    | some program =>
        .ok {
          program
          config := p.config
          lineBreaks := p.lineBreaks
          functionBreaks := p.functionBreaks
          partialBreaks := p.partialBreaks
          script := p.script
          commands := p.commands }

def readRun (arguments : List String) : Except Fault Request := do
  let p ← arguments.foldlM Progress.step {}
  let p ← p.settle
  p.request

/-- The arguments after `help`: at most one subcommand. -/
def readHelp : List String → Fault
  | [] | ["run"] | ["help"] => .help
  | _ => .invalidSubcommand

/-- The whole command line without the program's own name. -/
def read : List String → Except Fault Request
  | [] => .error .helpOnMissing
  | "run" :: rest => readRun rest
  | "help" :: rest => .error (readHelp rest)
  | argument :: rest =>
      match Form.of argument with
      | .separator =>
          match rest with
          | [] => .error .helpOnMissing
          | "run" :: _ | "help" :: _ => .error .unknownArgument
          | _ => .error .invalidSubcommand
      | .long "help" none => .error .help
      | .long "version" none => .error .version
      | .long "help" (some _) | .long "version" (some _) => .error .tooManyValues
      | .long .. => .error .unknownArgument
      | .short 'h' => .error .help
      | .short 'V' => .error .version
      | .short _ => .error .unknownArgument
      | .plain => .error .invalidSubcommand

end Debugger.CommandLine
