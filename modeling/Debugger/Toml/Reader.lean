import Debugger.Toml.Draft
import Debugger.Toml.Scalar

/-! Reading TOML documents, version 1.1 of the language. Arrays and inline
tables nest up to a limit. -/
namespace Debugger.Toml

/-- How deep arrays and inline tables may nest. -/
def nestingLimit : Nat := 80

mutual

/-- Reads a value; `depth` more levels may be opened. -/
def value (depth : Nat) : Nat → List Char → Reading Value
  | 0, s => malformed s
  | fuel + 1, s =>
      match string? s with
      | some found => found.map fun (text, rest) => (.string (String.ofList text), rest)
      | none =>
          match s, depth with
          | '[' :: rest, depth + 1 =>
              (items depth fuel rest).map fun (items, rest) => (.array items, rest)
          | '\x7b' :: rest, depth + 1 =>
              (pairs depth fuel [] rest).map fun (entries, rest) =>
                (Draft.close (.table .header entries), rest)
          | _, _ => scalar s

/-- Reads the items of an array and its closing bracket. -/
def items (depth : Nat) : Nat → List Char → Except DocumentFault (List Value × List Char)
  | 0, s => malformed s
  | fuel + 1, s => do
      let ((), start) ← skipFiller false s
      match start with
      | ']' :: rest => return ([], rest)
      | start =>
          let (item, rest) ← value depth fuel start
          let ((), rest) ← skipFiller false rest
          match rest with
          | ',' :: rest =>
              let (more, rest) ← items depth fuel rest
              return (item :: more, rest)
          | ']' :: rest => return ([item], rest)
          | rest => malformed rest

/-- Reads the pairs of an inline table and its closing brace. Lines may end and
comments stand between all parts of a pair, but not within its key. -/
def pairs (depth : Nat) : Nat → Entries → List Char → Except DocumentFault (Entries × List Char)
  | 0, _, s => malformed s
  | fuel + 1, entries, s => do
      let ((), start) ← skipFiller false s
      match start with
      | '\x7d' :: rest => return (entries, rest)
      | start =>
          let (keys, rest) ← dottedKey keyLimit start
          let ((), rest) ← skipFiller false rest
          match rest with
          | '=' :: rest =>
              let ((), rest) ← skipFiller false rest
              let (item, rest) ← value depth fuel rest
              let entries ← Draft.define item true keys entries
              let ((), rest) ← skipFiller false rest
              match rest with
              | ',' :: rest => pairs depth fuel entries rest
              | '\x7d' :: rest => return (entries, rest)
              | rest => malformed rest
          | rest => malformed rest

end

/-- A table header up to its closing bracket. -/
def header (s : List Char) : Reading (List String) :=
  dottedKey keyLimit (skipSpaces s)

/-- Reads statements from the left. `path` names the table that pairs go into. -/
def statements : Nat → List String → Entries → List Char → Except DocumentFault Entries
  | 0, _, _, s => malformed s
  | fuel + 1, path, root, s => do
      let ((), start) ← skipFiller false s
      match start with
      | [] => return root
      | '[' :: '[' :: rest =>
          let (keys, rest) ← header rest
          match rest with
          | ']' :: ']' :: rest =>
              let rest ← endOfStatement rest
              statements fuel keys (← Draft.appendTable keys root) rest
          | rest => malformed rest
      | '[' :: rest =>
          let (keys, rest) ← header rest
          match rest with
          | ']' :: rest =>
              let rest ← endOfStatement rest
              statements fuel keys (← Draft.openTable keys root) rest
          | rest => malformed rest
      | start =>
          let (keys, rest) ← dottedKey keyLimit start
          match rest with
          | '=' :: rest =>
              let (item, rest) ← value nestingLimit (rest.length + 1) (skipSpaces rest)
              let rest ← endOfStatement rest
              let root ← Draft.within (Draft.define item true keys) path root
              statements fuel path root rest
          | rest => malformed rest

/-- A byte order mark at the front is not part of the document. -/
def dropMark : List Char → List Char
  | '\ufeff' :: rest => rest
  | s => s

/-- The top-level entries of a document, in the byte order of their keys. -/
def read : DocumentReader := fun text =>
  let s := dropMark text.toList
  (statements (s.length + 1) [] [] s).map fun entries =>
    Draft.sorted (Draft.closeEntries entries)

end Debugger.Toml
