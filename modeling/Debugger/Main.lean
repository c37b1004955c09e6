import Debugger.CommandLine

/-! The program: reads the command line, launches, and writes the transcript. -/
namespace Debugger

def readFile (path : String) : IO (Except ReadFailure String) := do
  if let some failure := pathFault? path then return .error failure
  try
    return textOf (← IO.FS.readBinFile path)
  catch
    | .noFileOrDirectory .. => return .error .notFound
    | .inappropriateType .. => return .error .isDirectory
    | e => return .error (.other (toString e))

def Request.paths (r : Request) : List String :=
  r.program :: r.config.toList ++ r.script.toList

def gather (r : Request) : IO FileReader := do
  let found ← r.paths.mapM fun path => do return (path, ← readFile path)
  return fun path => (found.lookup path).getD (.error .notFound)

def usage : String :=
  "Usage: debugger run PROGRAM [--config FILE] [--break SOURCE:LINE] [--break-fn NAME]\n" ++
    "    [--break-fn-partial NAME] [--script FILE | --command CMD]"

end Debugger

open Debugger in
def main (arguments : List String) : IO UInt32 := do
  match CommandLine.read arguments with
  | .error .version =>
      IO.println "debugger 0.1.0"
      return 0
  | .error .help =>
      IO.println usage
      return 0
  | .error fault =>
      IO.eprintln ("error: " ++ fault.name ++ "\n" ++ usage)
      return fault.exitCode.toUInt32
  | .ok request =>
      let (written, result) := Launch.run (← gather request) request
      IO.print (String.ofList written)
      match result with
      | .ok () => return 0
      | .error fault =>
          IO.eprintln ("Error: " ++ fault.message)
          return 1
