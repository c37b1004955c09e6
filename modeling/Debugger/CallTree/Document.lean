import Debugger.CallTree.Basic
import Debugger.Toml.Reader
import Debugger.Toml.Shape

/-! Call trees read from documents. The top level has the one key `main`, which
holds the entry call. A call or a span is a table with known keys only, or an
array of their values in a fixed order. -/
namespace Debugger

/-- The literal a local is bound to. An integer beyond 63 bits that fits into 64
becomes the nearest floating point number. -/
def Toml.Value.asLiteral : Toml.Value → Except DocumentFault Debugger.Value
  | .boolean value => .ok (.boolean value)
  | .integer n =>
      if -0x8000000000000000 ≤ n ∧ n < 0x8000000000000000 then .ok (.integer n)
      else if 0 ≤ n ∧ n < 0x10000000000000000 then .ok (.float (Binary64.ofNat n.toNat))
      else .error (.wrongShape "an integer of 64 bits")
  | .float value => .ok (.float value)
  | .string text => .ok (.string text)
  | _ => .error (.wrongShape "a boolean, a number or a string")

def readEntries {α : Type} (read : Toml.Value → Except DocumentFault α)
    (entries : List (String × Toml.Value)) : Except DocumentFault (OrderedMap α) :=
  entries.mapM fun entry => (read entry.2).map fun value => (entry.1, value)

namespace Span

/-- The keys of a span, in the order of an array. -/
def keys : List String := ["file", "line", "start_line", "end_line"]

/-- A span while its keys are read. -/
structure Partial where
  file : Option String := none
  line : Option Nat := none
  first : Option Nat := none
  last : Option Nat := none

def Partial.add (s : Partial) (key : String) (value : Toml.Value) :
    Except DocumentFault Partial :=
  match key with
  | "file" => value.asText.map fun file => { s with file := some file }
  | "line" => (value.asNumber lineLimit).map fun line => { s with line := some line }
  | "start_line" => (value.asNumber lineLimit).map fun line => { s with first := some line }
  | "end_line" => (value.asNumber lineLimit).map fun line => { s with last := some line }
  | key => .error (.unknownKey key)

def Partial.finish (s : Partial) : Except DocumentFault Span :=
  match s.file, s.line with
  | some file, some line => .ok ⟨file, line, s.first, s.last⟩
  | none, _ => .error (.missingKey "file")
  | _, none => .error (.missingKey "line")

def ofValue : Toml.Value → Except DocumentFault Span
  | .table entries => do
      (← entries.foldlM (fun s entry => Partial.add s entry.1 entry.2) {}).finish
  | .array items =>
      if items.length < keys.length then .error (.wrongShape "four items")
      else do
        (← (keys.zip items).foldlM (fun s entry => Partial.add s entry.1 entry.2) {}).finish
  | _ => .error (.wrongShape "a span")

end Span

namespace Call

/-- A call while its keys are read; every key may be missing. -/
structure Partial where
  function : Option String := none
  lambda : Option String := none
  span : Option Span := none
  bindings : OrderedMap Value := []
  typeArguments : OrderedMap String := []
  children : List Call := []

def Partial.finish (c : Partial) : Call :=
  .mk c.function c.lambda c.span c.bindings c.typeArguments c.children

/-- Reads a key other than `children`. -/
def Partial.add (c : Partial) (key : String) (value : Toml.Value) :
    Except DocumentFault Partial :=
  match key with
  | "function" => value.asText.map fun name => { c with function := some name }
  | "lambda" => value.asText.map fun name => { c with lambda := some name }
  | "source" => (Span.ofValue value).map fun span => { c with span := some span }
  | "locals" => do
      return { c with bindings := ← readEntries Toml.Value.asLiteral (← value.asEntries) }
  | "type_arguments" => do
      return { c with typeArguments := ← readEntries Toml.Value.asText (← value.asEntries) }
  | key => .error (.unknownKey key)

/-- The keys of a call, in the order of an array. -/
def keys : List String :=
  ["function", "lambda", "source", "locals", "type_arguments", "children"]

mutual

def ofValue : Toml.Value → Except DocumentFault Call
  | .table entries => (ofEntries {} entries).map Partial.finish
  | .array items => (ofItems {} keys items).map Partial.finish
  | _ => .error (.wrongShape "a call")

def ofEntries (c : Partial) : List (String × Toml.Value) → Except DocumentFault Partial
  | [] => .ok c
  | (key, value) :: rest =>
      if key = "children" then
        match childrenOf value with
        | .ok children => ofEntries { c with children } rest
        | .error e => .error e
      else
        match c.add key value with
        | .ok c => ofEntries c rest
        | .error e => .error e

/-- Items take the keys from the left; what is left over is not read. -/
def ofItems (c : Partial) : List String → List Toml.Value → Except DocumentFault Partial
  | key :: keys, value :: rest =>
      if key = "children" then
        match childrenOf value with
        | .ok children => ofItems { c with children } keys rest
        | .error e => .error e
      else
        match c.add key value with
        | .ok c => ofItems c keys rest
        | .error e => .error e
  | _, _ => .ok c

def childrenOf : Toml.Value → Except DocumentFault (List Call)
  | .array items => ofValues items
  | _ => .error (.wrongShape "an array of calls")

def ofValues : List Toml.Value → Except DocumentFault (List Call)
  | [] => .ok []
  | value :: rest =>
      match ofValue value, ofValues rest with
      | .ok call, .ok calls => .ok (call :: calls)
      | .error e, _ => .error e
      | _, .error e => .error e

end

end Call

namespace CallTree

/-- The program of a document's top-level entries. -/
def ofEntries : List (String × Toml.Value) → Except DocumentFault CallTree
  | [] => .error (.missingKey "main")
  | [("main", value)] => (Call.ofValue value).map CallTree.mk
  | entries =>
      match entries.find? (·.1 ≠ "main") with
      | some (key, _) => .error (.unknownKey key)
      | none => .error (.redefined "main")

/-- Reads a program from the text of a document. -/
def ofDocument (read : Toml.DocumentReader) (text : String) : Except DebugError CallTree :=
  match read text with
  | .error fault => .error (.invalidConfig (.program fault))
  | .ok entries =>
      match ofEntries entries with
      | .error fault => .error (.invalidConfig (.program fault))
      | .ok tree => .ok tree

def ofText : String → Except DebugError CallTree :=
  ofDocument Toml.read

end CallTree
end Debugger
