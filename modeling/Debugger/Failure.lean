import Debugger.Text.Numeral

/-! What can go wrong, as causes. The wording stands here and nowhere else. -/
namespace Debugger

/-- Why a file could not be read as text. -/
inductive ReadFailure where
  | notFound
  | isDirectory
  | notADirectory
  | nameTooLong
  /-- The path holds a zero byte, which no name of a file can. -/
  | zeroByte
  | invalidText
  /-- Any other cause, as the system words it. -/
  | other (text : String)
deriving DecidableEq

def ReadFailure.message : ReadFailure → String
  | .notFound => "No such file or directory (os error 2)"
  | .isDirectory => "Is a directory (os error 21)"
  | .notADirectory => "Not a directory (os error 20)"
  | .nameTooLong => "File name too long (os error 36)"
  | .zeroByte => "file name contained an unexpected NUL byte"
  | .invalidText => "stream did not contain valid UTF-8"
  | .other text => text

/-- Why a document in the configuration language is refused. -/
inductive DocumentFault where
  /-- The text is not a document; so many characters were left unread. -/
  | malformed (unread : Nat)
  /-- A key is defined twice, or a value is extended that cannot be. -/
  | redefined (key : String)
  | unknownKey (key : String)
  | missingKey (key : String)
  | wrongShape (expected : String)
deriving DecidableEq

def DocumentFault.message : DocumentFault → String
  | .malformed unread => "malformed text, " ++ toString unread ++ " characters from the end"
  | .redefined key => "redefinition of '" ++ key ++ "'"
  | .unknownKey key => "unknown key '" ++ key ++ "'"
  | .missingKey key => "missing key '" ++ key ++ "'"
  | .wrongShape expected => "expected " ++ expected

/-- Why a configuration or a program is refused. -/
inductive ConfigFault where
  | program (fault : DocumentFault)
  | settings (fault : DocumentFault)
  | previewLength
  | listenerFailure (text : String)
  | unreadable (path : String) (failure : ReadFailure)
  /-- A cause that a hook reports in its own words. -/
  | reported (text : String)
deriving DecidableEq

/-- The smallest preview budget that shows one character before the ellipsis. -/
def minPreviewLength : Nat := 4

def ConfigFault.message : ConfigFault → String
  | .program fault => "call tree: " ++ fault.message
  | .settings fault => "debug config: " ++ fault.message
  | .previewLength => "debug.preview_length must be at least " ++ toString minPreviewLength
  | .listenerFailure text => "invalid debug.listener_failure '" ++ text ++ "'"
  | .unreadable path failure => path ++ ": " ++ failure.message
  | .reported text => text

/-- The errors of commands, of hooks and of loading. -/
inductive DebugError where
  | notPaused
  | interrupted
  | invalidConfig (fault : ConfigFault)
deriving DecidableEq

def DebugError.message : DebugError → String
  | .notPaused => "Not paused"
  | .interrupted => "debug session interrupted"
  | .invalidConfig fault => "invalid debug configuration: " ++ fault.message

end Debugger
