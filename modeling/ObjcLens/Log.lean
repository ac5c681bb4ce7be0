import ObjcLens.Text.Numeral

/-!
# Log entries

What the library has to say while it works. Functions that log return their entries in order;
the command line shows those at or above its level.
-/

namespace ObjcLens

/-- How important an entry is. -/
inductive LogLevel where
  | debug
  | info
  | warn
  | error
deriving DecidableEq, Repr

/-- The rank of a level. -/
def LogLevel.rank : LogLevel → Nat
  | .debug => 0
  | .info => 1
  | .warn => 2
  | .error => 3

/-- An entry of the log. -/
structure LogEntry where
  /-- How important it is. -/
  level : LogLevel
  /-- What is said. -/
  message : Text
  /-- Named details. -/
  fields : List (Text × Text) := []
deriving Repr

end ObjcLens
