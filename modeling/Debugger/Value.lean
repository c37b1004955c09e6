import Debugger.Decimal.Shortest

/-! Values of the debugged program, as far as the debugger reads them: how they
print, and the name of their type where it is known. -/
namespace Debugger

inductive Value where
  | string (text : String)
  | integer (value : Int)
  | float (value : Binary64)
  | boolean (value : Bool)
  /-- A value without a known type, printed verbatim. -/
  | opaqueText (text : String)
deriving DecidableEq

namespace Value

def typeName? : Value → Option String
  | .string _ => some "String"
  | .integer _ => some "Integer"
  | .float _ => some "Float"
  | .boolean _ => some "Boolean"
  | .opaqueText _ => none

def print : Value → String
  | .string text => "'" ++ text ++ "'"
  | .integer value => toString value
  | .float value => value.render
  | .boolean true => "true"
  | .boolean false => "false"
  | .opaqueText text => text

end Value
end Debugger
