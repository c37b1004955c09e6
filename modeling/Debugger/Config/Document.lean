import Debugger.Config.Basic
import Debugger.Text.Blank
import Debugger.Toml.Reader
import Debugger.Toml.Shape

/-! Settings read from documents. They stand in the table `debug`, which takes
known keys only; other top-level keys are ignored. -/
namespace Debugger

/-- The policy a text names, blanks around it and letter case apart. -/
def FailurePolicy.ofText? (text : String) : Option FailurePolicy :=
  match String.ofList (Text.lowerAscii (Text.trim text.toList)) with
  | "continue" => some .continue
  | "abort" => some .abort
  | _ => none

namespace Config

structure Section where
  previewLength : Option Nat := none
  listenerFailure : Option String := none
  trace : Option Bool := none

/-- Lengths have 64 bits. -/
def lengthLimit : Nat := UInt64.size - 1

def Section.add (s : Section) (key : String) (value : Toml.Value) :
    Except DocumentFault Section :=
  match key with
  | "preview_length" =>
      (value.asNumber lengthLimit).map fun length => { s with previewLength := some length }
  | "listener_failure" => value.asText.map fun text => { s with listenerFailure := some text }
  | "trace" => value.asSwitch.map fun trace => { s with trace := some trace }
  | key => .error (.unknownKey key)

/-- The keys of the settings, in the order of an array. -/
def Section.keys : List String := ["preview_length", "listener_failure", "trace"]

def Section.ofValue : Toml.Value → Except DocumentFault Section
  | .table entries => entries.foldlM (fun s entry => s.add entry.1 entry.2) {}
  | .array items =>
      if items.length < keys.length then .error (.wrongShape "three items")
      else (keys.zip items).foldlM (fun s entry => s.add entry.1 entry.2) {}
  | _ => .error (.wrongShape "a table of settings")

/-- The settings of a document's top-level entries. -/
def Section.ofEntries : List (String × Toml.Value) → Except DocumentFault (Option Section)
  | [] => .ok none
  | (key, value) :: rest => do
      if key = "debug" then
        let s ← Section.ofValue value
        let _ ← Section.ofEntries rest
        return some s
      else
        value.asIgnored
        Section.ofEntries rest

/-- Checks the settings; the preview budget comes first. -/
def ofSection (s : Section) : Except ConfigFault Config :=
  let defaults : Config := {}
  let previewLength := s.previewLength.getD defaults.previewLength
  if previewLength < minPreviewLength then .error .previewLength
  else
    let trace := s.trace.getD defaults.trace
    match s.listenerFailure with
    | none => .ok { previewLength, listenerFailure := defaults.listenerFailure, trace }
    | some text =>
        match FailurePolicy.ofText? text with
        | none => .error (.listenerFailure text)
        | some listenerFailure => .ok { previewLength, listenerFailure, trace }

/-- Reads settings from the text of a document. Without the table `debug` the
defaults hold. -/
def ofDocument (read : Toml.DocumentReader) (text : String) : Except DebugError Config :=
  match read text >>= Section.ofEntries with
  | .error fault => .error (.invalidConfig (.settings fault))
  | .ok none => .ok {}
  | .ok (some s) =>
      match ofSection s with
      | .error fault => .error (.invalidConfig fault)
      | .ok config => .ok config

def ofText : String → Except DebugError Config :=
  ofDocument Toml.read

end Config
end Debugger
