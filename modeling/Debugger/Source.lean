/-! Source locations: an inclusive range of lines and the line that is reported. -/
namespace Debugger

structure Source where
  /-- The source text's identifier, usually a path. -/
  id : String
  first : Nat
  /-- The line the location is reported at; it need not lie in the range. -/
  line : Nat
  last : Nat
deriving DecidableEq

namespace Source

def singleLine (id : String) (line : Nat) : Source :=
  ⟨id, line, line, line⟩

def containsLine (s : Source) (line : Nat) : Bool :=
  s.first ≤ line && line ≤ s.last

/-- `ID:LINE`, with the reported line. -/
def render (s : Source) : String :=
  s.id ++ ":" ++ toString s.line

end Source

/-- Line numbers have 32 bits. -/
def lineLimit : Nat := UInt32.size - 1

end Debugger
