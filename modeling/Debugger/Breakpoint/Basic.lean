import Debugger.Expression
import Debugger.Text.Numeral

/-! Breakpoints: where they trigger, and when their hit count lets them fire. -/
namespace Debugger

/-- An opaque identifier, compared and ordered by its text. -/
structure BreakpointId where
  text : String
deriving DecidableEq

namespace BreakpointId

/-- Spreads sequence numbers over all 32-bit words. The factor is odd, so
different words stay different. -/
def scramble (sequence : UInt32) : UInt32 :=
  (sequence + 1) * 0x9E3779B1

/-- The identifier handed out with a sequence number: eight hexadecimal digits. -/
def ofSequence (sequence : UInt32) : BreakpointId :=
  ⟨String.ofList (Text.hex 8 (scramble sequence).toNat)⟩

end BreakpointId

/-- A candidate for stopping: where the call is and what it calls by name. -/
structure Site where
  location : Option Source := none
  function : Option String := none
deriving DecidableEq

def Expression.site (e : Expression) : Site :=
  ⟨e.source, e.declaredName⟩

/-- Whether one text occurs in another as an unbroken run. -/
def Text.occursIn (part : List Char) : List Char → Bool
  | [] => part.isEmpty
  | c :: rest => part.isPrefixOf (c :: rest) || occursIn part rest

namespace Breakpoint

inductive Kind where
  /-- Any call whose lines cover that line of the source. -/
  | line (source : String) (number : Nat)
  /-- Any call of a function declared with that name, or with a name containing
  it. -/
  | function (name : String) (isPartial : Bool)
deriving DecidableEq

/-- A call without a location matches no line breakpoint, and one without a
declared name matches no function breakpoint. -/
def Kind.matches (site : Site) : Kind → Bool
  | .line source number =>
      match site.location with
      | none => false
      | some location => location.id = source && location.containsLine number
  | .function name isPartial =>
      match site.function with
      | none => false
      | some candidate =>
          if isPartial then Text.occursIn name.toList candidate.toList else candidate = name

def Kind.render : Kind → String
  | .line source number => "LineBreakpoint\x7b" ++ source ++ ":" ++ toString number ++ "\x7d"
  | .function name _ => "FunctionBreakpoint\x7b" ++ name ++ "\x7d"

end Breakpoint

/-- A breakpoint with its settings and the visits it has seen. -/
structure Breakpoint where
  id : BreakpointId
  kind : Breakpoint.Kind
  /-- A disabled breakpoint never matches and counts no hits. -/
  enabled : Bool := true
  /-- A text kept for clients; it is never evaluated. -/
  condition : Option String := none
  /-- The matching visits seen while enabled. -/
  hitCount : Nat := 0
  /-- Zero fires on every visit, otherwise once `hitCount` reaches it. -/
  target : Nat := 0
deriving DecidableEq

namespace Breakpoint

/-- Hit counts have 64 bits and stop there. -/
def hitLimit : Nat := UInt64.size - 1

def render (b : Breakpoint) : String :=
  b.kind.render

/-- Whether the hit count suffices to fire. -/
def isDue (b : Breakpoint) : Bool :=
  b.target == 0 || b.target ≤ b.hitCount

/-- Whether a visit at the site counts. -/
def applies (site : Site) (b : Breakpoint) : Bool :=
  b.enabled && b.kind.matches site

def hit (b : Breakpoint) : Breakpoint :=
  { b with hitCount := min (b.hitCount + 1) hitLimit }

/-- Visits breakpoints in the given order. Each one that applies is hit, and the
first that is then due fires and ends the visit. -/
def visit (site : Site) : List Breakpoint → Option Breakpoint × List Breakpoint
  | [] => (none, [])
  | b :: rest =>
      if b.applies site then
        if b.hit.isDue then (some b.hit, b.hit :: rest)
        else ((visit site rest).1, b.hit :: (visit site rest).2)
      else ((visit site rest).1, b :: (visit site rest).2)

end Breakpoint
end Debugger
