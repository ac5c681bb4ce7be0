import ObjcLens.Attempt
import ObjcLens.Directory
import ObjcLens.Log
import ObjcLens.Palette
import ObjcLens.Text.Rune

/-!
# Consoles

What a command changes: the text on its two outputs and the files. Log entries go to the second
output, each on a line of its own, if they are important enough to be shown.
-/

namespace ObjcLens

/-- The world of a command. -/
structure Console where
  /-- The files. -/
  dir : Directory := {}
  /-- What was written to the first output. -/
  out : Text := []
  /-- What was written to the second output. -/
  err : Text := []
  /-- The colours. -/
  palette : Palette := {}
  /-- Entries below this level are not shown. -/
  least : LogLevel := .info

/-- Why a command ends early. -/
inductive Ending where
  /-- Something went wrong, which the log is going to tell. -/
  | fault (error : Error)
  /-- Something went wrong, and the user knows it. -/
  | told
  /-- The program crashed. -/
  | crashed

/-- What a command does to its world, up to an early end. -/
abbrev Action := ExceptT Ending (StateM Console)

namespace Text

/-- The text padded on the right with blanks to a number of characters. -/
def padRunes (width : Nat) (s : Text) : Text := s ++ blanks (width - Rune.count s)

end Text

namespace LogLevel

/-- The sign in front of entries of a level. -/
def mark : LogLevel → Text
  | .error => "⨯"
  | _ => "•"

/-- The colour of entries of a level. -/
def colour : LogLevel → Text
  | .debug => "37"
  | .info => "34"
  | .warn => "33"
  | .error => "31"

end LogLevel

/-- An entry of the log as a line. -/
def LogEntry.line (palette : Palette) (entry : LogEntry) : Text :=
  let paint := palette.level entry.level.colour
  let lead := palette.label ("   " ++ entry.level.mark) ++ " " ++ Text.padRunes 25 entry.message
  let fields := entry.fields.mergeSort fun a b => Text.le a.1 b.1
  paint lead ++ fields.flatMap (fun (name, value) =>
    Text.ofString " " ++ paint name ++ Text.ofString "=" ++ value) ++ "\n"

namespace Console

/-- The console with text on the first output. -/
def print (c : Console) (s : Text) : Console := { c with out := c.out ++ s }

/-- The console with text on the second output. -/
def warn (c : Console) (s : Text) : Console := { c with err := c.err ++ s }

/-- The console with an entry of the log, if it is important enough. -/
def log (c : Console) (entry : LogEntry) : Console :=
  if entry.level.rank < c.least.rank then c else c.warn (entry.line c.palette)

end Console

namespace Action

/-- Writes to the first output. -/
def print (s : Text) : Action Unit := modify (·.print s)

/-- Writes to the log. -/
def log (level : LogLevel) (message : Text) (fields : List (Text × Text)) : Action Unit :=
  modify (·.log ⟨level, message, fields⟩)

/-- Writes several entries to the log. -/
def logAll (entries : List LogEntry) : Action Unit := modify (entries.foldl Console.log ·)

/-- A result that may be an error. -/
def ofExcept {α : Type} (result : Except Error α) : Action α :=
  ExceptT.mk (pure (result.mapError .fault))

/-- The value of a call that may crash. -/
def ofAttempt {α : Type} : Attempt α → Action α
  | .crashed => throw .crashed
  | .returned a => pure a

/-- Ends with an error. -/
def fail {α : Type} (error : Error) : Action α := throw (.fault error)

/-- Writes a file, with the directories on the way to it; an empty path stands for the first
output. -/
def save (path body : Text) : Action Unit := do
  if path.isEmpty then print body
  else
    let parent := Directory.parentOf path
    if parent != Text.ofString "." then
      let dir ← ofExcept ((← get).dir.makeFolders parent)
      modify fun c => { c with dir }
    log .info ("Creating " ++ path) []
    let dir ← ofExcept ((← get).dir.create path body.toArray)
    modify fun c => { c with dir }

end Action

end ObjcLens
