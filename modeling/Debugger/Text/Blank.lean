/-! Blank characters and what is cut at them. A character is blank when it has
the Unicode property `White_Space`; trimming removes a longest blank run at
either end, and nothing inside. -/
namespace Debugger.Text

/-- The ranges of the Unicode property `White_Space`, ends included. -/
def blankRanges : List (Nat × Nat) :=
  [(0x9, 0xD), (0x20, 0x20), (0x85, 0x85), (0xA0, 0xA0), (0x1680, 0x1680), (0x2000, 0x200A),
   (0x2028, 0x2029), (0x202F, 0x202F), (0x205F, 0x205F), (0x3000, 0x3000)]

def isBlank (c : Char) : Bool :=
  blankRanges.any fun range => range.1 ≤ c.toNat && c.toNat ≤ range.2

def trimLeft (text : List Char) : List Char :=
  text.dropWhile isBlank

def trimRight (text : List Char) : List Char :=
  (text.reverse.dropWhile isBlank).reverse

def trim (text : List Char) : List Char :=
  trimRight (trimLeft text)

/-- The text before the first blank character and the text after it. Without a
blank character the second part is empty. -/
def splitAtBlank : List Char → List Char × List Char
  | [] => ([], [])
  | c :: rest =>
      if isBlank c then ([], rest)
      else ((c :: (splitAtBlank rest).1), (splitAtBlank rest).2)

/-- Lower case for the letters A to Z; every other character is kept. -/
def lowerAscii (text : List Char) : List Char :=
  text.map Char.toLower

end Debugger.Text
