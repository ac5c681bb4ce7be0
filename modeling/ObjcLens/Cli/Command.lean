import ObjcLens.Cli.Flag
import ObjcLens.Text.Case

/-!
# Commands

The commands of the program, with their flags. The first argument that is no flag names the
command. `Command.find` looks for it, with flags in front of it or behind it.
-/

namespace ObjcLens

/-- How many arguments a command takes. -/
inductive Arity where
  /-- A fixed number. -/
  | exactly (count : Nat)
  /-- Some number or more. -/
  | atLeast (count : Nat)
deriving DecidableEq, Repr

/-- Refuses a wrong number of arguments. -/
def Arity.check (a : Arity) (given : Nat) : Except UsageError Unit :=
  match a with
  | .exactly count => if given = count then .ok () else .error (.notExactly count given)
  | .atLeast least => if given < least then .error (.tooFew least given) else .ok ()

/-- A command. -/
inductive Command where
  /-- Shows the declarations of images. -/
  | classDump
  /-- Shows what an image is. -/
  | info
  /-- Replaces the names of images. -/
  | obfuscate
deriving DecidableEq, Repr

namespace Command

/-- The commands in order. -/
def all : List Command := [.classDump, .info, .obfuscate]

/-- The name of the program. -/
def program : Text := "classguard"

/-- The name of a command. -/
def name : Command → Text
  | .classDump => "class-dump"
  | .info => "info"
  | .obfuscate => "obfuscate"

/-- The other name of a command. -/
def alias? : Command → Option Text
  | .classDump => some "cd"
  | .info => none
  | .obfuscate => some "obf"

/-- What a command does. -/
def purpose : Command → Text
  | .classDump => "Reconstruct Objective-C headers from Mach-O binaries"
  | .info => "Describe the slices and load commands of a Mach-O binary"
  | .obfuscate => "Generate a #define header that renames Objective-C symbols"

/-- How the arguments of a command are shown. -/
def operands : Command → Text
  | .info => "<MACHO>"
  | _ => "<MACHO>..."

/-- How many arguments a command takes. -/
def arity : Command → Arity
  | .info => .exactly 1
  | _ => .atLeast 1

/-- Invocations that show what a command is for. -/
def sample : Command → Text
  | .classDump =>
    "# Dump every class of the arm64 slice\n" ++
    "❯ classguard class-dump --arch arm64 MyApp\n\n" ++
    "# Dump one class family and its categories to a file\n" ++
    "❯ classguard class-dump -c 'MY*' -o MyApp.h MyApp\n\n" ++
    "# Merge an app with its embedded frameworks, with addresses\n" ++
    "❯ classguard class-dump --re MyApp Frameworks/*.framework/*"
  | .info =>
    "# List the slices and the selected image's UUID\n" ++
    "❯ classguard info MyApp\n\n" ++
    "# Show the arm64 load commands\n" ++
    "❯ classguard info --arch arm64 --loads MyApp"
  | .obfuscate =>
    "# Rename the app's own classes, keeping SDK names intact\n" ++
    "❯ classguard obfuscate -F 'MY*' -o symbols.h MyApp\n\n" ++
    "# Include the frameworks it links so their names are never reused\n" ++
    "❯ classguard obfuscate -F 'MY*' --members -m map.json MyApp Frameworks/*.framework/*"

/-- A flag that is on or off. -/
def switch (name : Text) (letter : Option Char) (purpose : Text) : Flag :=
  { name, letter := letter.map byte, standard := .switch false, purpose }

/-- A flag for a text. -/
def text (name : Text) (letter : Option Char) (standard purpose : Text) : Flag :=
  { name, letter := letter.map byte, standard := .text standard, purpose }

/-- A flag for a list of texts. -/
def texts (name : Text) (letter : Option Char) (purpose : Text) : Flag :=
  { name, letter := letter.map byte, standard := .texts [], purpose }

/-- A flag for a number. -/
def number (name : Text) (letter : Option Char) (standard : Int) (purpose : Text) : Flag :=
  { name, letter := letter.map byte, standard := .number standard, purpose }

/-- The flag that asks for help with the program or a command. -/
def helpFlag (subject : Text) : Flag := switch "help" (some 'h') ("help for " ++ subject)

/-- The flags that all commands have. -/
def globalFlags : List Flag :=
  [texts "arch" (some 'a')
      "Which architecture(s) to use (arm64, arm64e, x86_64, armv7, ...)",
    switch "color" none "colorize output",
    text "config" none [] "config file (default is $HOME/.config/classguard/config.yaml)",
    text "diag" none [] "Write <prefix>-notes.txt and <prefix>-errors.txt diagnostics",
    switch "verbose" (some 'V') "verbose output",
    number "workers" (some 'j') 0
      "Number of slices to extract in parallel (default: number of CPUs)"]

/-- The flags of a command, apart from those that all commands have. -/
def ownFlags : Command → List Flag
  | .classDump =>
    [texts "class" (some 'c')
        "Only dump classes, protocols and categories matching these names or globs",
      texts "force" (some 'f') "Always dump these names or globs, whatever --class says",
      switch "no-forward-decls" none "Do not emit @class/@protocol forward declarations",
      text "output" (some 'o') [] "File to write the header to (default: stdout)",
      switch "re" none "RE verbosity (with addresses)"]
  | .info =>
    [switch "dwarf" (some 'D') "List the DWARF compile units",
      switch "header" (some 'd') "Print the mach header",
      switch "loads" (some 'l') "Print the load commands"]
  | .obfuscate =>
    [texts "class-filter" (some 'F')
        "Only rename classes, protocols and categories matching these names or globs",
      texts "ignore" (some 'x') "Never rename symbols matching these names or globs",
      number "length" none 10 "Length of generated names (max 14)",
      text "map" (some 'm') [] "Also write the rename map as JSON",
      switch "members" none "Also rename properties and selectors",
      text "output" (some 'o') "symbols.h" "Header to write the #define lines to",
      number "padding" none 0 "Emit at least this many #define lines",
      { name := "seed", standard := .word 0, purpose := "Seed for name generation" }]

/-- All flags of a command. -/
def flags (c : Command) : List Flag := c.ownFlags ++ helpFlag c.name :: globalFlags

/-- The command with a name. -/
def named? (name : Text) : Option Command :=
  all.find? fun c => c.name = name || c.alias? = some name

/-- The argument is a flag whose value is the next argument. Only the flags that all commands have
are known before the command is. -/
def takesNext (argument : Text) : Bool :=
  match argument with
  | 0x2D :: 0x2D :: name =>
    !argument.contains (byte '=') && !(Flag.named? globalFlags name).any (·.isSwitch)
  | [0x2D, letter] =>
    letter != byte '=' && !(Flag.lettered? globalFlags letter).any (·.isSwitch)
  | _ => false

/-- The argument ends the flags. -/
def endsFlags (argument : Text) : Bool := argument = Text.ofString "--"

/-- The arguments that are neither flags nor their values. The fuel bounds their number. -/
def operandsOf : Nat → List Text → List Text
  | 0, _ => []
  | _, [] => []
  | fuel + 1, argument :: rest =>
    if endsFlags argument then []
    else if takesNext argument then
      if rest.length ≤ 1 then [] else operandsOf fuel (rest.drop 1)
    else if argument.isEmpty || argument.head? = some (byte '-') then operandsOf fuel rest
    else argument :: operandsOf fuel rest

/-- The command line without the first argument that is no flag and equals a name. The fuel bounds
its length. -/
def without (name : Text) : Nat → List Text → List Text
  | 0, line => line
  | _, [] => []
  | fuel + 1, argument :: rest =>
    if endsFlags argument then argument :: rest
    else if takesNext argument then
      argument :: (rest.take 1 ++ without name fuel (rest.drop 1))
    else if argument = name then rest
    else argument :: without name fuel rest

/-- The number of changes that turn one text into another: a letter put in, left out or replaced.
The last row of the table of all beginnings. -/
def editRow (target : Text) (row : List Nat) (b : UInt8) : List Nat :=
  let first := row.headD 0 + 1
  let steps := (row.zip (row.drop 1)).zip target
  (steps.foldl (fun (done : List Nat) ((diagonal, above), c) =>
    let left := done.headD 0
    min (min (left + 1) (above + 1)) (diagonal + if b = c then 0 else 1) :: done) [first]).reverse

/-- The number of changes that turn one text into another. -/
def editDistance (source target : Text) : Nat :=
  (source.foldl (editRow target) (List.range (target.length + 1))).getLastD 0

/-- The names that a user can have meant. -/
def similar (name : Text) : List Text :=
  (all.map Command.name).filter fun known =>
    editDistance (Text.lower name) known ≤ 2 || (Text.lower name).isPrefixOf known

/-- What a command line asks for. -/
inductive Request where
  /-- A command with the rest of the command line. -/
  | run (command : Command) (line : List Text)
  /-- Help with the program or a command. -/
  | help (command : Option Command)
  /-- No command at all. -/
  | nothing (line : List Text)

/-- What a command line asks for. -/
def find (line : List Text) : Except UsageError Request :=
  match operandsOf (line.length + 1) line with
  | [] => .ok (.nothing line)
  | first :: others =>
    match named? first with
    | some command => .ok (.run command (without first (line.length + 1) line))
    | none =>
      if first = Text.ofString "help" then .ok (.help (others.head?.bind named?))
      else .error (.unknownCommand first (similar first))

end Command

end ObjcLens
