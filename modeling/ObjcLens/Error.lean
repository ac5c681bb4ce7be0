import ObjcLens.Fixups.Error
import ObjcLens.Text.Quoted

/-!
# Errors

The reasons why something asked of the library cannot be done. `Error.message` is the text of
an error, `Error.kind` the class of its cause: putting an error into a context adds to the text
and leaves the class as it is.
-/

namespace ObjcLens

/-- A fault of the program's input or of what is asked of it. -/
inductive Error where
  /-- The file is an image and not an archive of images. -/
  | notFat
  /-- None of the architectures asked for is present. -/
  | noMatchingArch (wanted : List Text)
  /-- The file is neither an image nor an archive of images. -/
  | notMachO (path : Text)
  /-- A read reaches beyond the end of the slice. -/
  | truncated (offset : Int) (length : Nat) (size : Int)
  /-- A read touches an encrypted range. -/
  | encrypted (segment sectionName : Text) (addr : UInt64)
  /-- An address does not lead to the record that should be there. -/
  | dangling (addr : UInt64) (record field : Text)
  /-- A record at an offset is malformed. -/
  | format (offset : Int) (what : Text) (value : Option Text)
  /-- No free name was found for a symbol. -/
  | ambiguous (name : Text) (attempts : Nat)
  /-- The name of an architecture is not known. -/
  | unknownArch (name : Text)
  /-- No segment contains an address. -/
  | unmappedAddress (addr : UInt64)
  /-- No segment contains a file offset. -/
  | unmappedOffset (offset : UInt64)
  /-- The image has no chained fixups. -/
  | noFixups
  /-- The chained fixups are faulty. -/
  | fixups (fault : FixupError)
  /-- The image info section is empty. -/
  | emptyImageInfo (segment sectionName : Text)
  /-- The image info record is incomplete. -/
  | shortImageInfo (why : Shortage)
  /-- There is no image info section. -/
  | noImageInfo
  /-- The data ends before all of it was read. -/
  | endOfData (why : Shortage)
  /-- The test of a name by a pattern has no answer. -/
  | undecided
  /-- Anything else, in words. -/
  | other (what : Text)
  /-- An error in a context, whose text stands before that of the error. -/
  | within (context : Text) (cause : Error)
deriving Repr, Inhabited

/-- The class of an error. -/
inductive ErrorKind where
  | notFat
  | noMatchingArch
  | notMachO
  | truncated
  | encrypted
  | dangling
  | format
  | ambiguous
  | other
deriving DecidableEq, Repr

namespace Error

/-- The text of an error. -/
def message : Error → Text
  | .notFat => "not a fat Mach-O file in record at byte 0x0"
  | .noMatchingArch wanted =>
    let list : Text := if wanted.isEmpty then [] else ": " ++ Text.joinWith ", " wanted
    "no matching architecture" ++ list
  | .notMachO path => "Input file (" ++ path ++ ") is neither a Mach-O file nor a fat archive."
  | .truncated offset length size =>
    "truncated image: read of " ++ Text.dec length ++ " bytes at offset " ++
      Text.hexInt0x offset ++ " exceeds slice size " ++ Text.hexInt0x size
  | .encrypted segment sectionName addr =>
    "address " ++ Text.hex0x addr.toNat ++ " is inside encrypted section " ++ segment ++ "." ++
      sectionName
  | .dangling addr record field =>
    let place : Text :=
      if record.isEmpty then [] else if field.isEmpty then " in " ++ record
      else " in " ++ record ++ "." ++ field
    "dangling pointer " ++ Text.hex0x addr.toNat ++ place
  | .format offset what value =>
    let shown : Text := match value with
      | some value => " '" ++ value ++ "'"
      | none => []
    what ++ shown ++ " in record at byte " ++ Text.hexInt0x offset
  | .ambiguous name attempts =>
    "no unambiguous replacement for " ++ name ++ " after " ++ Text.dec attempts ++ " attempts"
  | .unknownArch name => "unknown architecture " ++ Text.quote name
  | .unmappedAddress addr =>
    "address " ++ Text.hex0x addr.toNat ++ " not within any segments adress range"
  | .unmappedOffset offset =>
    "offset " ++ Text.hex0x offset.toNat ++ " not within any segments file offset range"
  | .noFixups => "macho does not contain LC_DYLD_CHAINED_FIXUPS"
  | .fixups fault => fault.message
  | .emptyImageInfo segment sectionName => segment ++ "." ++ sectionName ++ " section has size 0"
  | .shortImageInfo why => "failed to read ObjCImageInfo: " ++ why.message
  | .noImageInfo => "macho does not contain a __objc_imageinfo section"
  | .endOfData why => why.message
  | .undecided => "pattern test beyond the end of a name"
  | .other what => what
  | .within context cause => context ++ cause.message

/-- The class of an error. -/
def kind : Error → ErrorKind
  | .notFat => .notFat
  | .noMatchingArch _ => .noMatchingArch
  | .notMachO _ => .notMachO
  | .truncated .. => .truncated
  | .encrypted .. => .encrypted
  | .dangling .. => .dangling
  | .format .. => .format
  | .ambiguous .. => .ambiguous
  | .within _ cause => cause.kind
  | _ => .other

/-- The error with a record and a field filled in where a dangling address does not name them
yet. Any other error stays as it is. -/
def annotate (record field : Text) : Error → Error
  | .dangling addr oldRecord oldField =>
    .dangling addr (if oldRecord.isEmpty then record else oldRecord)
      (if oldField.isEmpty then field else oldField)
  | .within context cause =>
    match cause.annotate record field, cause.kind with
    | annotated, .dangling => annotated
    | _, _ => .within context cause
  | error => error

/-- The path of the file that is not an image, if that is the cause. -/
def notMachOPath? : Error → Option Text
  | .notMachO path => some path
  | .within _ cause => cause.notMachOPath?
  | _ => none

end Error

end ObjcLens
