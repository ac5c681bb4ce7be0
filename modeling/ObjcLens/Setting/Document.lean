import ObjcLens.Setting.Dotenv
import ObjcLens.Text.Case
import ObjcLens.Toml.Document
import ObjcLens.Yaml.Document

/-!
# Documents of settings

A document gives names to values. It is written in one of several formats, which the end of the name
of its file tells. Names are not case-sensitive: they are all put into lower case.
-/

namespace ObjcLens

/-- A format of documents. -/
inductive DocumentFormat where
  /-- YAML. -/
  | yaml
  /-- JSON. -/
  | json
  /-- TOML. -/
  | toml
  /-- A list of variables. -/
  | dotenv
deriving DecidableEq, Repr

namespace DocumentFormat

/-- The formats with the ends of file names that tell them. -/
def endings : List (String × DocumentFormat) :=
  [("yaml", .yaml), ("yml", .yaml), ("json", .json), ("toml", .toml), ("dotenv", .dotenv),
    ("env", .dotenv)]

/-- The format that the end of a file name tells. -/
def ofEnding? (ending : Text) : Option DocumentFormat :=
  (endings.find? fun (known, _) => Text.ofString known = ending).map (·.2)

end DocumentFormat

namespace Document

/-- Entries with their names as they are written and in lower case. Where two names become the same,
one that changes is kept. -/
def keepChanged (named : List (Text × Text × SettingValue)) : List (Text × SettingValue) :=
  let isReplaced (entry : Text × Text × SettingValue) : Bool :=
    entry.1 = entry.2.1 && named.any fun other => other.2.1 = entry.2.1 && other.1 != other.2.1
  (named.filter fun entry => !isReplaced entry).map (·.2)

mutual

/-- The value with all names in lower case. -/
def foldNames : SettingValue → SettingValue
  | .list items => .list (foldItems items)
  | .entries named => .entries (keepChanged (foldEntries named))
  | value => value

/-- The items with all names in lower case. -/
def foldItems : List SettingValue → List SettingValue
  | [] => []
  | first :: rest => foldNames first :: foldItems rest

/-- The entries with their names as they are written and in lower case. -/
def foldEntries : List (Text × SettingValue) → List (Text × Text × SettingValue)
  | [] => []
  | (name, value) :: rest => (name, Text.lower name, foldNames value) :: foldEntries rest

end

/-- A document holds entries or nothing. -/
def root? : SettingValue → Option SettingValue
  | .entries named => some (foldNames (.entries named))
  | .null => some (.entries [])
  | _ => none

/-- The settings of a document in a format, in an environment. -/
def read? (format : DocumentFormat) (environment : List (Text × Text)) (s : Text) :
    Option SettingValue :=
  (match format with
    | .yaml => Yaml.read? s
    | .json => Json.read? s
    | .toml => Toml.read? s
    | .dotenv => Dotenv.read? environment s).bind root?

end Document

end ObjcLens
