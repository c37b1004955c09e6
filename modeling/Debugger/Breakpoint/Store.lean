import Debugger.Breakpoint.Basic
import Debugger.KeyOrder

/-! The breakpoint store: a finite map from identifiers to breakpoints. Its
entries stand in the order in which a candidate visits them, which promises
nothing; listing is by identifier. -/
namespace Debugger

structure Store where
  /-- One entry for each identifier, in visiting order. -/
  entries : List Breakpoint := []
  /-- The sequence number of the next addition; it wraps around. -/
  next : UInt32 := 0
deriving DecidableEq

namespace Store

def get? (s : Store) (id : BreakpointId) : Option Breakpoint :=
  s.entries.find? (·.id = id)

def contains (s : Store) (id : BreakpointId) : Bool :=
  (s.get? id).isSome

/-- Puts a breakpoint in, in place of one with the same identifier. -/
def put (b : Breakpoint) (entries : List Breakpoint) : List Breakpoint :=
  if entries.any (·.id = b.id) then entries.map fun old => if old.id = b.id then b else old
  else entries ++ [b]

def add (s : Store) (kind : Breakpoint.Kind) : BreakpointId × Store :=
  let id := BreakpointId.ofSequence s.next
  (id, { entries := put { id, kind } s.entries, next := s.next + 1 })

def remove (s : Store) (id : BreakpointId) : Bool × Store :=
  (s.contains id, { s with entries := s.entries.filter (·.id ≠ id) })

/-- All breakpoints in the order of their identifiers. -/
def list (s : Store) : List Breakpoint :=
  KeyOrder.sort (·.id.text) s.entries

def ids (s : Store) : List BreakpointId :=
  s.list.map (·.id)

/-- Removes every breakpoint. Identifiers handed out before stay used. -/
def clear (s : Store) : Store :=
  { s with entries := [] }

def size (s : Store) : Nat :=
  s.entries.length

def isEmpty (s : Store) : Bool :=
  s.entries.isEmpty

/-- Changes one breakpoint and says whether there is one. -/
def modify (s : Store) (id : BreakpointId) (change : Breakpoint → Breakpoint) : Bool × Store :=
  (s.contains id,
    { s with entries := s.entries.map fun b => if b.id = id then change b else b })

def setEnabled (s : Store) (id : BreakpointId) (enabled : Bool) : Bool × Store :=
  s.modify id fun b => { b with enabled }

def setCondition (s : Store) (id : BreakpointId) (condition : Option String) : Bool × Store :=
  s.modify id fun b => { b with condition }

def setTarget (s : Store) (id : BreakpointId) (target : Nat) : Bool × Store :=
  s.modify id fun b => { b with target }

/-- Whether execution stops at the site, with the breakpoint that fired. -/
def shouldBreak (s : Store) (site : Site) : Option Breakpoint × Store :=
  let visited := Breakpoint.visit site s.entries
  (visited.1, { s with entries := visited.2 })

end Store
end Debugger
