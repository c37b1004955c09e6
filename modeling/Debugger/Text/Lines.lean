/-! Lines of a text. A line ends at a line feed, and a carriage return right
before that line feed belongs to the ending. The last line needs no ending, and
an ending at the very end of the text opens no further line. -/
namespace Debugger.Text

def lines : List Char → List (List Char)
  | [] => []
  | '\n' :: rest => [] :: lines rest
  | '\r' :: '\n' :: rest => [] :: lines rest
  | c :: rest =>
      match lines rest with
      | [] => [[c]]
      | line :: more => (c :: line) :: more

def joinWith (separator : String) (texts : List String) : String :=
  separator.intercalate texts

/-- One text a line, with no line feed after the last. -/
def joinLines (texts : List String) : String :=
  joinWith "\n" texts

end Debugger.Text
