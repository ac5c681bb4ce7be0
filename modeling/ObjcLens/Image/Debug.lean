import ObjcLens.Compression.Zlib
import ObjcLens.Dwarf.Entry
import ObjcLens.Image.Read

/-!
# Debug information of an image

The debug sections of an image, which may be compressed, and the names of the compile units that
they describe.
-/

namespace ObjcLens

namespace Image

/-- What the name of a debug section says behind its common beginning; nothing for any other
section. -/
def debugSuffix? (s : Section) : Option Text :=
  (["__debug_", "__zdebug_", "__apple_"].findSome? fun lead =>
    let lead := Text.ofString lead
    if lead.isPrefixOf s.name then some (s.name.drop lead.length) else none).filter (!·.isEmpty)

/-- The largest size that a compressed section may claim. -/
def maxDebugSection : Nat := Nat.pow 2 30

/-- What a compressed section starts with. -/
def compressedLead : Text := "ZLIB"

/-- The contents of a compressed section. -/
def inflateSection (bytes : Text) : Except Error Text := do
  let size := ByteOrder.big.toNat ((bytes.drop 4).take 8)
  if maxDebugSection < size then
    throw (.other ("compressed DWARF section claims " ++ Text.dec size ++ " bytes (max " ++
      Text.dec maxDebugSection ++ ")"))
  let contents ← (Zlib.unpack (bytes.drop 12) size).mapError fun fault => .other fault.message
  if contents.length ≠ size then
    throw (.other ("compressed DWARF section inflated to " ++ Text.dec contents.length ++
      " bytes, header claims " ++ Text.dec size))
  return contents

/-- What comes of reading debug information, which needs the sections as a whole. -/
abbrev DebugReader := ExceptT Error Attempt

/-- The contents of a debug section. -/
def debugData (image : Image) (s : Section) : DebugReader Text := do
  let (bytes, fault) ← (image.sectionData s : Attempt _)
  match fault with
  | some error => if bytes.length < s.size.toNat then throw error
  | none => pure ()
  if 12 ≤ bytes.length && compressedLead.isPrefixOf bytes then liftExcept (inflateSection bytes)
  else return bytes

/-- The contents of the debug sections that are used, by the end of their names. All of them are
read, and the last one with a name counts. -/
def debugSections (image : Image) : DebugReader (List (Text × Text)) := do
  let used := ["abbrev", "info", "str", "line", "ranges"].map Text.ofString
  image.sections.foldlM (fun found s =>
    match debugSuffix? s with
    | none => return found
    | some suffix => do
      if used.contains suffix then return (suffix, ← image.debugData s) :: found
      else return found) []

/-- The debug information of an image. -/
def debugInfo (image : Image) : DebugReader Dwarf.Info := do
  let found ← image.debugSections
  let contents (name : Text) : Text :=
    ((found.find? fun entry => entry.1 = name).map (·.2)).getD []
  let sections : Dwarf.Sections := {
    abbrevs := contents "abbrev"
    info := contents "info"
    str := contents "str" }
  let info ← liftExcept ((Dwarf.Info.ofSections sections).mapError fun fault =>
    Error.other fault.message)
  for (s, index) in image.sections.zipIdx do
    if debugSuffix? s = some (Text.ofString "types") then
      let bytes ← image.debugData s
      liftExcept ((info.checkTypes sections.abbrevs ("types-" ++ Text.dec index) bytes).mapError
        fun fault => Error.other fault.message)
  return info

/-- The names of the compile units of an image, and why reading stopped, if it did not reach the
end. -/
def compileUnits (image : Image) : DebugReader (List Text × Option Error) := do
  let (names, fault) := (← image.debugInfo).unitNames
  return (names, fault.map fun fault => .other fault.message)

end Image

end ObjcLens
