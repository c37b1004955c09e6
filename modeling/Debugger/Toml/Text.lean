import Debugger.Text.Numeral
import Debugger.Toml.Value

/-! Characters, filler and strings of TOML documents. -/
namespace Debugger.Toml

/-- Characters that comments and strings may hold as they are. -/
def isPlain (c : Char) : Bool :=
  c == '\t' || (0x20 ≤ c.toNat && c.toNat != 0x7F)

def isSpace (c : Char) : Bool :=
  c == ' ' || c == '\t'

def skipSpaces (s : List Char) : List Char :=
  s.dropWhile isSpace

/-- What follows a line ending, if the text starts with one. -/
def afterLineEnd? : List Char → Option (List Char)
  | '\n' :: rest => some rest
  | '\r' :: '\n' :: rest => some rest
  | _ => none

def skipFiller (inComment : Bool) : List Char → Reading Unit
  | [] => .ok ((), [])
  | '\n' :: rest => skipFiller false rest
  | '\r' :: '\n' :: rest => skipFiller false rest
  | c :: rest =>
      if inComment then
        if isPlain c then skipFiller true rest else malformed (c :: rest)
      else if c == '#' then skipFiller true rest
      else if isSpace c then skipFiller false rest
      else .ok ((), c :: rest)

def skipBlankLines : List Char → List Char
  | '\n' :: rest => skipBlankLines rest
  | '\r' :: '\n' :: rest => skipBlankLines rest
  | c :: rest => if isSpace c then skipBlankLines rest else c :: rest
  | [] => []

/-- The end of a statement: spaces, perhaps a comment, and the end of the line or
of the text. -/
def endOfStatement (s : List Char) : Except DocumentFault (List Char) :=
  let comment := skipSpaces s
  let after :=
    match comment with
    | '#' :: rest => rest.dropWhile isPlain
    | rest => rest
  match after, afterLineEnd? after with
  | [], _ => .ok []
  | _, some rest => .ok rest
  | rest, none => malformed rest

def hexDigit? (c : Char) : Option Nat :=
  if c.isDigit then some (c.toNat - '0'.toNat)
  else if 'a' ≤ c ∧ c ≤ 'f' then some (c.toNat - 'a'.toNat + 10)
  else if 'A' ≤ c ∧ c ≤ 'F' then some (c.toNat - 'A'.toNat + 10)
  else none

/-- The character with the code point that so many hexadecimal digits name. -/
def codePoint (width : Nat) (s : List Char) : Reading Char :=
  match (s.take width).mapM hexDigit? with
  | none => malformed s
  | some digits =>
      let code := digits.foldl (fun n digit => n * 16 + digit) 0
      if digits.length = width ∧ code.isValidChar then .ok (Char.ofNat code, s.drop width)
      else malformed s

/-- The character an escape stands for; the backslash is read already. -/
def escape : List Char → Reading Char
  | 'b' :: rest => .ok ('\x08', rest)
  | 't' :: rest => .ok ('\t', rest)
  | 'n' :: rest => .ok ('\n', rest)
  | 'f' :: rest => .ok ('\x0c', rest)
  | 'r' :: rest => .ok ('\r', rest)
  | 'e' :: rest => .ok ('\x1b', rest)
  | '"' :: rest => .ok ('"', rest)
  | '\\' :: rest => .ok ('\\', rest)
  | 'x' :: rest => codePoint 2 rest
  | 'u' :: rest => codePoint 4 rest
  | 'U' :: rest => codePoint 8 rest
  | s => malformed s

/-- Puts text in front of what a reader found. -/
def prepend (text : List Char) (found : Reading (List Char)) : Reading (List Char) :=
  found.map fun (more, rest) => (text ++ more, rest)

/-- A string with escapes, up to its closing quote. -/
def basicText : Nat → List Char → Reading (List Char)
  | fuel + 1, c :: rest =>
      if c == '"' then .ok ([], rest)
      else if c == '\\' then
        match escape rest with
        | .ok (c, rest) => prepend [c] (basicText fuel rest)
        | .error e => .error e
      else if isPlain c then prepend [c] (basicText fuel rest)
      else malformed (c :: rest)
  | _, s => malformed s

def literalText : List Char → Reading (List Char)
  | [] => malformed []
  | c :: rest =>
      if c == '\'' then .ok ([], rest)
      else if isPlain c then prepend [c] (literalText rest)
      else malformed (c :: rest)

/-- The end of a string of several lines: three quotes, with up to two more in
front that belong to the text. -/
def closing? (quote : Char) (s : List Char) : Option (List Char × List Char) :=
  let quotes := s.takeWhile (· == quote)
  if quotes.length < 3 then none
  else
    let inner := min (quotes.length - 3) 2
    some (quotes.take inner, s.drop (inner + 3))

/-- A string of several lines with escapes. A backslash before a line ending
takes all blanks and line endings after it away. -/
def basicLines : Nat → List Char → Reading (List Char)
  | fuel + 1, c :: rest =>
      match closing? '"' (c :: rest), afterLineEnd? (c :: rest) with
      | some found, _ => .ok found
      | none, some after => prepend ((c :: rest).take (rest.length + 1 - after.length))
          (basicLines fuel after)
      | none, none =>
          if c == '\\' then
            match afterLineEnd? (skipSpaces rest) with
            | some after => basicLines fuel (skipBlankLines after)
            | none =>
                match escape rest with
                | .ok (c, rest) => prepend [c] (basicLines fuel rest)
                | .error e => .error e
          else if isPlain c then prepend [c] (basicLines fuel rest)
          else malformed (c :: rest)
  | _, s => malformed s

/-- A string of several lines without escapes. -/
def literalLines : Nat → List Char → Reading (List Char)
  | fuel + 1, c :: rest =>
      match closing? '\'' (c :: rest), afterLineEnd? (c :: rest) with
      | some found, _ => .ok found
      | none, some after => prepend ((c :: rest).take (rest.length + 1 - after.length))
          (literalLines fuel after)
      | none, none =>
          if isPlain c then prepend [c] (literalLines fuel rest) else malformed (c :: rest)
  | _, s => malformed s

/-- A line ending right after the opening quotes is not part of the text. -/
def dropLineEnd (s : List Char) : List Char :=
  (afterLineEnd? s).getD s

/-- A string of any of the four forms, if the text starts with a quote. -/
def string? : List Char → Option (Reading (List Char))
  | '"' :: '"' :: '"' :: rest => some (basicLines (rest.length + 1) (dropLineEnd rest))
  | '\'' :: '\'' :: '\'' :: rest => some (literalLines (rest.length + 1) (dropLineEnd rest))
  | '"' :: rest => some (basicText (rest.length + 1) rest)
  | '\'' :: rest => some (literalText rest)
  | _ => none

def isBareKey (c : Char) : Bool :=
  c.isAlphanum || c == '_' || c == '-'

/-- A key: a bare word or a string of one line. -/
def simpleKey (s : List Char) : Reading String :=
  match s with
  | '"' :: rest =>
      (basicText (rest.length + 1) rest).map fun (text, rest) => (String.ofList text, rest)
  | '\'' :: rest => (literalText rest).map fun (text, rest) => (String.ofList text, rest)
  | _ =>
      match s.takeWhile isBareKey with
      | [] => malformed s
      | word => .ok (String.ofList word, s.dropWhile isBareKey)

/-- How many parts a dotted key may have. -/
def keyLimit : Nat := 80

/-- Keys with points between them; so many at most. -/
def dottedKey : Nat → List Char → Except DocumentFault (List String × List Char)
  | 0, s => malformed s
  | fuel + 1, s => do
      let (key, rest) ← simpleKey s
      match skipSpaces rest with
      | '.' :: rest =>
          let (keys, rest) ← dottedKey fuel (skipSpaces rest)
          return (key :: keys, rest)
      | rest => return ([key], rest)

end Debugger.Toml
