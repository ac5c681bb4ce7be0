import ObjcLens.Error

/-!
# File kinds

The first bytes of a file tell an image from an archive of images and from a static library.
-/

namespace ObjcLens

/-- What the first bytes of a file say. -/
inductive FileKind where
  | unknown
  | image
  | fat
  | staticLibrary
deriving DecidableEq, Repr

namespace FileKind

/-- The name of a kind. -/
def name : FileKind → Text
  | .unknown => "unknown"
  | .image => "Mach-O"
  | .fat => "fat Mach-O"
  | .staticLibrary => "static library"

/-- The kind with a number, unknown if there is none. -/
def ofNumber : Nat → FileKind
  | 1 => .image
  | 2 => .fat
  | 3 => .staticLibrary
  | _ => .unknown

/-- What every static library starts with. -/
def libraryLead : Text := "!<arch>\n"

/-- The hint for users who pass a static library. -/
def libraryHint : Text :=
  "If you are trying to obfuscate a static library, please review the 'Obfuscating Static " ++
    "Libraries' section of the documentation."

/-- The kind of a file with these first bytes. Images may have either byte order and either
address width; an archive may have either byte order. -/
def detect (head : Text) : FileKind :=
  if libraryLead.isPrefixOf head then .staticLibrary
  else match head.take 4 with
    | [0xFE, 0xED, 0xFA, 0xCE] | [0xFE, 0xED, 0xFA, 0xCF]
    | [0xCE, 0xFA, 0xED, 0xFE] | [0xCF, 0xFA, 0xED, 0xFE] => .image
    | [0xCA, 0xFE, 0xBA, 0xBE] | [0xBE, 0xBA, 0xFE, 0xCA] => .fat
    | _ => .unknown

/-- A file of this kind can be read for its metadata. Other files are refused with a reason. -/
def isReadable : FileKind → Except Error Bool
  | .image | .fat => .ok true
  | .staticLibrary => .error (.other ("static library detected: " ++ libraryHint))
  | .unknown => .error (.other "not a macho file")

end FileKind

end ObjcLens
