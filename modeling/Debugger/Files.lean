import Debugger.Failure

/-! Files by path, and a directory kept in memory. -/
namespace Debugger

/-- How a program gets at the text of a file. -/
abbrev FileReader := String → Except ReadFailure String

/-- The longest path, in bytes. -/
def pathLimit : Nat := 4095

/-- What is wrong with a path as a whole, before its parts are looked up. -/
def pathFault? (path : String) : Option ReadFailure :=
  if path.toList.contains '\x00' then some .zeroByte
  else if pathLimit < path.utf8ByteSize then some .nameTooLong
  else if path.isEmpty then some .notFound
  else none

/-- What stands between the slashes of a path. -/
def pathParts : List Char → List (List Char)
  | [] => [[]]
  | c :: rest =>
      match c == '/', pathParts rest with
      | false, part :: more => (c :: part) :: more
      | _, more => [] :: more

/-- The text that the bytes of a file spell. -/
def textOf (bytes : ByteArray) : Except ReadFailure String :=
  match String.fromUTF8? bytes with
  | some text => .ok text
  | none => .error .invalidText

/-- Plain files with their bytes in one directory. -/
structure Directory where
  files : List (String × ByteArray)

namespace Directory

/-- The longest name of a file, in bytes. -/
def nameLimit : Nat := 255

/-- The directories above, in which no file is known. -/
def outside : Directory := ⟨[]⟩

/-- Follows the parts of a path from a directory. -/
def find (d : Directory) : List String → Except ReadFailure ByteArray
  | [] => .error .isDirectory
  | part :: rest =>
      if part = "" ∨ part = "." then find d rest
      else if part = ".." then find outside rest
      else if nameLimit < part.utf8ByteSize then .error .nameTooLong
      else
        match d.files.lookup part, rest with
        | some bytes, [] => .ok bytes
        | some _, _ => .error .notADirectory
        | none, _ => .error .notFound

/-- The text of the file at a path, which is relative to the directory unless it
starts with a slash: then its first part is empty. -/
def read (d : Directory) : FileReader := fun path =>
  match pathFault? path, (pathParts path.toList).map String.ofList with
  | some failure, _ => .error failure
  | none, "" :: parts => outside.find parts >>= textOf
  | none, parts => d.find parts >>= textOf

end Directory
end Debugger
