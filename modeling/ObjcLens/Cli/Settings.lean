import ObjcLens.Cli.Command
import ObjcLens.Directory
import ObjcLens.Setting.Document

/-!
# Settings

Every flag of the command line is also a setting. Its value is the one given on the command line,
or else that of a variable of the environment, or else that of the settings document, or else the
standard value of the flag.
-/

namespace ObjcLens

/-- Where settings come from. -/
structure Settings where
  /-- The flags that were given, by name. -/
  given : List (Text × FlagValue) := []
  /-- The variables of the environment. -/
  environment : List (Text × Text) := []
  /-- The settings document. -/
  document : SettingValue := .entries []

namespace FlagValue

/-- The value of a flag as that of a setting. A list of one empty text counts as an empty list, and
two bytes that end a line become one. -/
def toSetting : FlagValue → SettingValue
  | .switch on => .truth on
  | .number value => .whole value
  | .word value => .whole value.toNat
  | .text value => .text value
  | .texts values =>
    .list (if values = [[]] then []
      else values.map fun value => .text (Text.replaceAll "\r\n" "\n" value))

end FlagValue

namespace Settings

/-- A variable of the environment; an empty one counts as missing. -/
def environment? (s : Settings) (name : Text) : Option Text :=
  ((s.environment.find? fun entry => entry.1 = name).map (·.2)).filter (!·.isEmpty)

/-- The name of the variable for a setting. -/
def variableName (path : List Text) : Text :=
  "CLASSGUARD_" ++ (Text.joinWith "." path).map fun b =>
    if b = byte '-' || b = byte '.' then byte '_' else Text.upperByte b

/-- The value that a variable gives to a setting. -/
def ofEnvironment? (s : Settings) (path : List Text) : Option SettingValue :=
  (s.environment? (variableName path)).map .text

/-- The value that the document gives to a setting: under the whole name, or step by step. -/
def ofDocument? (s : Settings) (path : List Text) : Option SettingValue :=
  (s.document.entry? (Text.joinWith "." path)).or
    (path.foldl (fun value name => value.bind (SettingValue.entry? name)) (some s.document))

/-- The document has a value where the group of a setting should be. -/
def isShadowed (s : Settings) (path : List Text) : Bool :=
  match path with
  | [group, _] => (s.document.entry? group).any fun value => !value.hasEntries
  | _ => false

/-- A variable has a value where the group of a setting should be. -/
def isShadowedByEnvironment (s : Settings) (path : List Text) : Bool :=
  match path with
  | [group, _] => (s.ofEnvironment? [group]).isSome
  | _ => false

/-- The value of a setting. A further variable can be bound to it. -/
def find (s : Settings) (path : List Text) (flag : Flag) (bound : Option Text) : SettingValue :=
  match (s.given.find? fun entry => entry.1 = flag.name).map (·.2) with
  | some value => value.toSetting
  | none =>
    match s.ofEnvironment? path with
    | some value => value
    | none =>
      if s.isShadowedByEnvironment path then .null
      else match bound.bind s.environment? with
        | some value => .text value
        | none =>
          match s.ofDocument? path with
          | some value => value
          | none => if s.isShadowed path then .null else flag.standard.toSetting

/-- The value of a setting that all commands have. -/
def shared (s : Settings) (name : Text) : SettingValue :=
  let bound : Option Text := if name = Text.ofString "color" then some "CLICOLOR" else none
  match Flag.named? Command.globalFlags name with
  | some flag => s.find [name] flag bound
  | none => .null

/-- The value of a setting of a command. -/
def own (s : Settings) (command : Command) (name : Text) : SettingValue :=
  match Flag.named? command.ownFlags name with
  | some flag => s.find [command.name, name] flag none
  | none => .null

/-- The settings document of a file. The end of its name tells the format. -/
def documentAt? (dir : Directory) (environment : List (Text × Text)) (path : Text) :
    Option SettingValue := do
  let (_, ending) ← Text.cutLast? (byte '.') ((Directory.components path).getLastD [])
  let format ← DocumentFormat.ofEnding? ending
  Document.read? format environment (← (dir.read path).toOption).toList

/-- The places where a settings document is looked for below the home of the user. -/
def homePlaces (home : Text) : List Text :=
  let lead := Directory.ofComponents (Directory.components home) ++ "/.config/classguard/config"
  (["json", "toml", "yaml", "yml", "properties", "props", "prop", "hcl", "tfvars", "dotenv", "env",
    "ini"].map fun (ending : String) => lead ++ "." ++ Text.ofString ending) ++ [lead]

/-- The settings document of the user, with its path. It has one format whatever its name is. -/
def homeDocument? (dir : Directory) (home : Text) : Option (Text × SettingValue) := do
  let path ← (homePlaces home).find? fun path => (dir.lookup? path).isSome
  let contents ← dir.lookup? path
  let document ← Document.read? .yaml [] contents.toList
  return (path, document)

end Settings

end ObjcLens
