import ObjcLens.Cli.Command

/-!
# Help

What the program shows about itself: how it is called, its commands and its flags.
-/

namespace ObjcLens

namespace Flag

/-- The kind of value that a flag needs, as it is shown. -/
def operand : FlagKind → Text
  | .switch => []
  | .number => " int"
  | .word => " uint"
  | .text => " string"
  | .texts => " strings"

/-- The value of a flag unless the user gives another, as it is shown; nothing if it is empty. -/
def standardNote (f : Flag) : Text :=
  match f.standard with
  | .number value => if value = 0 then [] else " (default " ++ Text.decInt value ++ ")"
  | .text value => if value.isEmpty then [] else " (default " ++ Text.quote value ++ ")"
  | _ => []

/-- How a flag is written. -/
def form (f : Flag) : Text :=
  let lead : Text := match f.letter with
    | some letter => "  -" ++ letter :: Text.ofString ", --"
    | none => "      --"
  lead ++ f.name ++ operand f.standard.kind

/-- The flags in the order of their names, one on a line, with what they are for. -/
def list (flags : List Flag) : Text :=
  let sorted := flags.mergeSort fun a b => Text.le a.name b.name
  let width := (sorted.map (·.form.length)).foldl max 0
  Text.joinWith "\n" (sorted.map fun f =>
    Text.padRight width f.form ++ "   " ++ f.purpose ++ f.standardNote)

end Flag

namespace Command

/-- How the program is called. -/
def usage : Text :=
  let commands := (all.map fun c => (c.name, c.purpose)) ++
    [(Text.ofString "help", Text.ofString "Help about any command")]
  let lines := (commands.mergeSort fun a b => Text.le a.1 b.1).flatMap fun (name, purpose) =>
    Text.ofString "\n  " ++ Text.padRight 11 name ++ Text.ofString " " ++ purpose
  "Usage:\n  " ++ program ++ " [command]\n\nAvailable Commands:" ++ lines ++ "\n\nFlags:\n" ++
    Flag.list (helpFlag program :: globalFlags) ++ "\n\nUse \"" ++ program ++
    " [command] --help\" for more information about a command.\n"

/-- How a command is called. -/
def usageOf (c : Command) : Text :=
  let other : Text := match c.alias? with
    | some name => "\n\nAliases:\n  " ++ c.name ++ ", " ++ name
    | none => []
  "Usage:\n  " ++ program ++ " " ++ c.name ++ " " ++ c.operands ++ " [flags]" ++ other ++
    "\n\nExamples:\n" ++ c.sample ++ "\n\nFlags:\n" ++
    Flag.list (c.ownFlags ++ [helpFlag c.name]) ++ "\n\nGlobal Flags:\n" ++
    Flag.list globalFlags ++ "\n"

/-- Help with the program or a command. -/
def help : Option Command → Text
  | none => "Dump and obfuscate Objective-C metadata in Mach-O binaries\n\n" ++ usage
  | some c => c.purpose ++ "\n\n" ++ c.usageOf

end Command

end ObjcLens
