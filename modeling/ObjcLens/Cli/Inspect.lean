import ObjcLens.Cli.Console
import ObjcLens.Cli.Settings
import ObjcLens.Image.Debug
import ObjcLens.Record.Metadata
import ObjcLens.Slice
import ObjcLens.Text.Size

/-!
# Inspecting a file

The command that tells what a file is: its slices, and of one slice the identity, the encryption,
the image info, and on demand the header, the load commands and the compile units.
-/

namespace ObjcLens

namespace Inspect

/-- Text in lines. -/
def line (parts : List Text) : Text := parts.flatten ++ "\n"

/-- The slices of a file, with the one that is looked at marked. -/
def slices (palette : Palette) (all : List Slice) (selected : Slice) : Text :=
  all.flatMap fun s =>
    let mark : Text := if s.offset = selected.offset then "*" else " "
    line ["  ", mark, " ", Text.padRunes 8 (palette.arch s.arch.name), " offset=",
      Text.hex0x s.offset.toNat, " size=", Text.size s.size.toNat, " align=2^",
      Text.dec s.align.toNat]

/-- What an image is: its identity, its encryption, and whether it has metadata. -/
def summary (palette : Palette) (image : Image) : Text :=
  let uuid : Text := match image.uuid? with
    | some uuid => line [palette.label "UUID:", " ", uuid]
    | none => []
  let encryption : Text := match image.encryption? with
    | some range => range.describe
    | none => "none"
  let metadata : Text := if image.hasMetadata then "true" else "false"
  uuid ++ line [palette.label "Encryption:", " ", encryption] ++
    line [palette.label "Objective-C:", " ", metadata]

/-- The image info. -/
def imageInfo (palette : Palette) (info : ImageInfo) : Text :=
  let mixed : Text := if info.flags.hasSwift then
      line ["  ", palette.arch "mixed Swift/Objective-C image"]
    else []
  line ["  ", info.flags.describe] ++ mixed

/-- The load commands, numbered. -/
def loads (image : Image) : Text :=
  image.loads.zipIdx.flatMap fun (load, index) =>
    line [Text.zeroPad 3 (Text.dec index), ": ", Text.padRight 28 load.code.name, " ",
      load.describe]

/-- Shows the compile units. Missing debug information is only worth a warning. -/
def compileUnits (image : Image) : Action Unit := do
  match ← Action.ofAttempt image.compileUnits.run with
  | .error error => Action.log .warn ("No DWARF info: " ++ error.message) []
  | .ok (names, fault) =>
    let palette := (← get).palette
    Action.print ("\n" ++ line [palette.label "Compile Units:"] ++
      names.flatMap fun name => line ["  ", name])
    match fault with
    | some error => Action.fail (.within "failed to read DWARF entry: " error)
    | none => pure ()

/-- The architectures that are asked for. -/
def wanted (names : List Text) : Except Error (List Arch) :=
  names.mapM fun name =>
    match Arch.ofName? name with
    | some arch => .ok arch
    | none => .error (.within "invalid --arch: " (.unknownArch name))

/-- The contents of a file that is an image or an archive of images. -/
def openFile (path : Text) : Action Contents := do
  let dir := (← get).dir
  let readable ← Action.ofExcept (dir.isImage path)
  if !readable then Action.fail (.notMachO path)
  Action.ofExcept ((dir.read path).mapError (.within ("failed to read " ++ path ++ ": ")))

/-- Shows what a file is. -/
def run (host : CpuType) (settings : Settings) (path : Text) : Action Unit := do
  let palette := (← get).palette
  let contents ← openFile path
  let all ← Action.ofExcept (Slice.ofContents contents (some contents.size))
  let archs ← Action.ofExcept (wanted (settings.shared "arch").toTexts)
  let selected ← Action.ofExcept (Slice.selectOn host all archs)
  Action.print (line [palette.label "File:", " ", path, " (", Text.size contents.size, ")"])
  Action.print (slices palette all selected)
  let context := "failed to parse " ++ selected.arch.name ++ " slice: "
  let image ← Action.ofExcept ((selected.image contents).mapError (.within context))
  Action.logAll image.encryptionLog
  Action.print (summary palette image)
  if image.hasMetadata then
    match ← Action.ofAttempt image.imageInfo with
    | .ok info => Action.print (imageInfo palette info)
    | .error error =>
      Action.log .warn ("failed to read objc image info: " ++ error.message) []
  if (settings.own .info "header").toTruth then
    Action.print ("\n" ++ image.header.describe ++ "\n")
  if (settings.own .info "loads").toTruth then Action.print ("\n" ++ loads image)
  if (settings.own .info "dwarf").toTruth then compileUnits image

end Inspect

end ObjcLens
