import Debugger.KeyOrder
import Debugger.Toml.Value

/-! Tables while a document is read. What may still be added to a table depends
on how it came into being: a value that was written out is closed, and a table made
by the way can be opened once by a header of its own, unless a dotted key leads
through it first. -/
namespace Debugger.Toml

/-- How a table came into being. -/
inductive Origin where
  /-- By a header with its name. -/
  | header
  /-- On the way to a table that a header names. -/
  | passed
  /-- On the way to a value that a dotted key names, if only in the end. -/
  | dotted
deriving DecidableEq

/-- A value or a table that may still grow. -/
inductive Draft where
  | closed (value : Value)
  | table (origin : Origin) (entries : List (String × Draft))
  /-- An array of tables, the newest first. -/
  | tables (elements : List (List (String × Draft)))

abbrev Entries := List (String × Draft)

namespace Draft

def find? (key : String) (entries : Entries) : Option Draft :=
  (entries.find? (·.1 = key)).map (·.2)

/-- Puts a draft under a key, in place of what stood there. -/
def put (key : String) (draft : Draft) (entries : Entries) : Entries :=
  if entries.any (·.1 = key) then
    entries.map fun entry => if entry.1 = key then (key, draft) else entry
  else entries ++ [(key, draft)]

/-- Opens the table that a header names. -/
def openTable : List String → Entries → Except DocumentFault Entries
  | [], entries => .ok entries
  | [key], entries =>
      match find? key entries with
      | none => .ok (put key (.table .header []) entries)
      | some (.table .passed inner) => .ok (put key (.table .header inner) entries)
      | some _ => .error (.redefined key)
  | key :: rest, entries =>
      match find? key entries with
      | none => do return put key (.table .passed (← openTable rest [])) entries
      | some (.table origin inner) => do
          return put key (.table origin (← openTable rest inner)) entries
      | some (.tables (last :: earlier)) => do
          return put key (.tables ((← openTable rest last) :: earlier)) entries
      | some _ => .error (.redefined key)

/-- Adds an empty table to the array that a header names. -/
def appendTable : List String → Entries → Except DocumentFault Entries
  | [], entries => .ok entries
  | [key], entries =>
      match find? key entries with
      | none => .ok (put key (.tables [[]]) entries)
      | some (.tables elements) => .ok (put key (.tables ([] :: elements)) entries)
      | some _ => .error (.redefined key)
  | key :: rest, entries =>
      match find? key entries with
      | none => do return put key (.table .passed (← appendTable rest [])) entries
      | some (.table origin inner) => do
          return put key (.table origin (← appendTable rest inner)) entries
      | some (.tables (last :: earlier)) => do
          return put key (.tables ((← appendTable rest last) :: earlier)) entries
      | some _ => .error (.redefined key)

/-- Writes a value under a dotted key. The tables on the way count as made by it.
`takesValue` says whether the value may go right here: a dotted key may lead through
the last element of an array of tables, but not end in it. -/
def define (value : Value) (takesValue : Bool) :
    List String → Entries → Except DocumentFault Entries
  | [], entries => .ok entries
  | [key], entries =>
      if takesValue && (find? key entries).isNone then .ok (put key (.closed value) entries)
      else .error (.redefined key)
  | key :: rest, entries =>
      match find? key entries with
      | none => do return put key (.table .dotted (← define value true rest [])) entries
      | some (.table .header _) => .error (.redefined key)
      | some (.table _ inner) => do
          return put key (.table .dotted (← define value true rest inner)) entries
      | some (.tables (last :: earlier)) => do
          return put key (.tables ((← define value false rest last) :: earlier)) entries
      | some _ => .error (.redefined key)

/-- Changes the table that a header opened before. -/
def within (change : Entries → Except DocumentFault Entries) :
    List String → Entries → Except DocumentFault Entries
  | [], entries => change entries
  | key :: rest, entries =>
      match find? key entries with
      | some (.table origin inner) => do
          return put key (.table origin (← within change rest inner)) entries
      | some (.tables (last :: earlier)) => do
          return put key (.tables ((← within change rest last) :: earlier)) entries
      | _ => .error (.missingKey key)

/-- Entries in the byte order of their keys. -/
def sorted {α : Type} (entries : List (String × α)) : List (String × α) :=
  KeyOrder.sort (·.1) entries

mutual

def close : Draft → Value
  | .closed value => value
  | .table _ entries => .table (sorted (closeEntries entries))
  | .tables elements => .array (closeTables elements).reverse

def closeEntries : List (String × Draft) → List (String × Value)
  | [] => []
  | (key, draft) :: rest => (key, draft.close) :: closeEntries rest

def closeTables : List (List (String × Draft)) → List Value
  | [] => []
  | entries :: rest => .table (sorted (closeEntries entries)) :: closeTables rest

end

end Draft
end Debugger.Toml
