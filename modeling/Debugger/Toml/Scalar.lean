import Debugger.Toml.Text

/-! Words of TOML documents that are no strings: booleans, numbers and moments. -/
namespace Debugger.Toml

/-- Digits without the underscores between them; each underscore stands between
two digits. -/
def digitsOf (isDigit : Char → Bool) (afterDigit : Bool) : List Char → Option (List Char)
  | [] => if afterDigit then some [] else none
  | c :: rest =>
      if isDigit c then (c :: ·) <$> digitsOf isDigit true rest
      else if c == '_' && afterDigit then
        if rest.isEmpty then none else digitsOf isDigit false rest
      else none

def valueOf (base : Nat) (digits : List Char) : Nat :=
  digits.foldl (fun n c => n * base + (hexDigit? c).getD 0) 0

/-- A digit of a base up to sixteen. -/
def isDigitIn (base : Nat) (c : Char) : Bool :=
  match hexDigit? c with
  | some digit => digit < base
  | none => false

def numberIn? (base : Nat) (s : List Char) : Option Nat :=
  valueOf base <$> digitsOf (isDigitIn base) false s

/-- A sign, if there is one, and the rest. -/
def signOf : List Char → Option Bool × List Char
  | '-' :: rest => (some true, rest)
  | '+' :: rest => (some false, rest)
  | s => (none, s)

/-- Decimal digits without a leading zero, unless the zero stands alone. -/
def wholeDigits? (s : List Char) : Option (List Char) :=
  match digitsOf Char.isDigit false s with
  | some ('0' :: _ :: _) => none
  | found => found

def integer? (s : List Char) : Option Int :=
  match s with
  | '0' :: 'x' :: rest => Int.ofNat <$> numberIn? 16 rest
  | '0' :: 'o' :: rest => Int.ofNat <$> numberIn? 8 rest
  | '0' :: 'b' :: rest => Int.ofNat <$> numberIn? 2 rest
  | _ =>
      let (sign, body) := signOf s
      (wholeDigits? body).map fun digits =>
        let n := valueOf 10 digits
        if sign = some true then -(n : Int) else n

/-- The exponent of a floating point number; an absent one is zero. -/
def exponent? (s : List Char) : Option Int :=
  match s with
  | [] => some 0
  | _ :: rest =>
      let (sign, body) := signOf rest
      (digitsOf Char.isDigit false body).map fun digits =>
        let n := valueOf 10 digits
        if sign = some true then -(n : Int) else n

/-- The digits after the point; without a point there are none. -/
def fraction? : List Char → Option (List Char)
  | [] => some []
  | _ :: rest => digitsOf Char.isDigit false rest

def isExponentMark (c : Char) : Bool :=
  c == 'e' || c == 'E'

/-- A floating point number: the outer option says whether the word is one, the
inner whether it is in range. -/
def float? (s : List Char) : Option (Option Binary64) :=
  let (sign, body) := signOf s
  let negative := sign = some true
  if body = ['i', 'n', 'f'] then some (some (Binary64.infinity negative))
  else if body = ['n', 'a', 'n'] then some (some (Binary64.quietNaN negative))
  else
    let mantissa := body.takeWhile (!isExponentMark ·)
    let tail := body.dropWhile (!isExponentMark ·)
    let whole := mantissa.takeWhile (· != '.')
    let point := mantissa.dropWhile (· != '.')
    if tail.isEmpty && point.isEmpty then none
    else
      match wholeDigits? whole, fraction? point, exponent? tail with
      | some whole, some fraction, some exponent =>
          some (Binary64.ofDecimal? negative (valueOf 10 (whole ++ fraction))
            (exponent - fraction.length))
      | _, _, _ => none

/-- Whether each underscore stands between two digits of base sixteen. -/
def partsDigits (afterDigit : Bool) : List Char → Bool
  | [] => true
  | ['_'] => false
  | '_' :: c :: rest => afterDigit && isDigitIn 16 c && partsDigits true rest
  | c :: rest => partsDigits (isDigitIn 16 c) rest

/-- Whether a word has the form of an integer, though it need not spell one: a base
with no digits after it, or digits up to an underscore with anything after it but a
point or an exponent. -/
def isLikeInteger (s : List Char) : Bool :=
  match s, (signOf s).2 with
  | ['0', 'x'], _ | ['0', 'o'], _ | ['0', 'b'], _ => true
  | _, '0' :: _ => false
  | _, body =>
      (body.dropWhile Char.isDigit).head? == some '_' && partsDigits false body &&
        !body.any fun c => c == '.' || isExponentMark c

/-! ### Moments -/

/-- So many digits, their value, and the rest. -/
def fixed? (width : Nat) (s : List Char) : Option (Nat × List Char) :=
  let digits := s.take width
  if digits.length = width ∧ digits.all Char.isDigit then
    some (valueOf 10 digits, s.drop width)
  else none

def isLeapYear (year : Nat) : Bool :=
  year % 4 == 0 && (year % 100 != 0 || year % 400 == 0)

def daysIn (year month : Nat) : Nat :=
  match month with
  | 2 => if isLeapYear year then 29 else 28
  | 4 | 6 | 9 | 11 => 30
  | _ => 31

/-- What follows the given character. -/
def after? (mark : Char) : List Char → Option (List Char)
  | c :: rest => if c == mark then some rest else none
  | [] => none

/-- A date at the front of the text; its spelling is its normal one. -/
def date? (s : List Char) : Option (List Char × List Char) := do
  let (year, rest) ← fixed? 4 s
  let rest ← after? '-' rest
  let (month, rest) ← fixed? 2 rest
  let rest ← after? '-' rest
  let (day, rest) ← fixed? 2 rest
  if 1 ≤ month ∧ month ≤ 12 ∧ 1 ≤ day ∧ day ≤ daysIn year month then
    some (s.take 10, rest)
  else none

/-- Nine places of a fraction without zeros at the end, but at least one place. -/
def normalFraction (digits : List Char) : List Char :=
  match ((digits.take 9).reverse.dropWhile (· == '0')).reverse with
  | [] => ['0']
  | places => places

/-- Seconds and their fraction, both optional. -/
def seconds? (s : List Char) : Option (List Char × List Char) :=
  match after? ':' s with
  | none => some ([], s)
  | some rest => do
      let (second, after) ← fixed? 2 rest
      if 60 < second then none
      else
        match after? '.' after with
        | none => some (':' :: rest.take 2, after)
        | some rest' =>
            match rest'.takeWhile Char.isDigit with
            | [] => none
            | digits =>
                some (':' :: rest.take 2 ++ '.' :: normalFraction digits,
                  rest'.dropWhile Char.isDigit)

/-- A time of day at the front of the text, in its normal spelling. -/
def time? (s : List Char) : Option (List Char × List Char) := do
  let (hour, rest) ← fixed? 2 s
  let rest ← after? ':' rest
  let (minute, rest) ← fixed? 2 rest
  let (seconds, rest) ← seconds? rest
  if hour ≤ 23 ∧ minute ≤ 59 then some (s.take 5 ++ seconds, rest) else none

/-- The distance from universal time, to the end of the text; it may be absent. -/
def offset? : List Char → Option (List Char)
  | [] => some []
  | ['Z'] | ['z'] => some ['Z']
  | sign :: rest => do
      let (hours, after) ← fixed? 2 rest
      let after ← after? ':' after
      let (minutes, after) ← fixed? 2 after
      if (sign == '+' || sign == '-') ∧ hours ≤ 23 ∧ minutes ≤ 59 ∧ after = [] then
        some ((if hours = 0 ∧ minutes = 0 then '+' else sign) :: rest)
      else none

def isDelimiter (c : Char) : Bool :=
  c == 'T' || c == 't' || c == ' '

/-- A whole word that is a moment, in its normal spelling. -/
def moment? (s : List Char) : Option (List Char) :=
  match date? s with
  | some (date, []) => some date
  | some (date, c :: rest) => do
      if isDelimiter c then
        let (time, rest) ← time? rest
        let offset ← offset? rest
        some (date ++ 'T' :: time ++ offset)
      else none
  | none =>
      match time? s with
      | some (time, []) => some time
      | _ => none

/-! ### Words -/

/-- A word goes on to a blank, a line ending or a mark of the structure around it. -/
def endsWord (c : Char) : Bool :=
  isSpace c || ['\r', '\n', '#', '=', ',', '[', ']', '\x7b', '\x7d'].contains c

/-- The characters of a word, with the rest. A date takes in a time that follows
after one space. -/
def word (s : List Char) : List Char × List Char :=
  let first := s.takeWhile (!endsWord ·)
  let rest := s.dropWhile (!endsWord ·)
  match date? first, rest with
  | some (_, []), ' ' :: c :: more =>
      if c.isDigit then
        (first ++ ' ' :: (c :: more).takeWhile (!endsWord ·),
          (c :: more).dropWhile (!endsWord ·))
      else (first, rest)
  | _, _ => (first, rest)

def scalar (s : List Char) : Reading Value :=
  let (text, rest) := word s
  if text = ['t', 'r', 'u', 'e'] then .ok (.boolean true, rest)
  else if text = ['f', 'a', 'l', 's', 'e'] then .ok (.boolean false, rest)
  else
    match integer? text, float? text, moment? text with
    | some n, _, _ => .ok (.integer n, rest)
    | none, some (some x), _ => .ok (.float x, rest)
    | none, some none, _ => .ok (.unreadable, rest)
    | none, none, some moment => .ok (.moment (String.ofList moment), rest)
    | none, none, none =>
        if isLikeInteger text then .ok (.unreadable, rest) else malformed s

end Debugger.Toml
