import ObjcLens.Record.Reader

/-!
# The metadata of an image

`Image.metadata` reads every class, category and protocol of an image. A record that cannot be
read is skipped and reported; only a read beyond the end of the slice ends the whole. An image info
section that claims more bytes than can be addressed crashes the program.
-/

namespace ObjcLens

/-- The metadata of an image. -/
structure Metadata where
  /-- The image info record, if it can be read. -/
  imageInfo : Option ImageInfo := none
  /-- The classes. -/
  classes : List Class := []
  /-- The categories. -/
  categories : List Category := []
  /-- The protocols. -/
  protocols : List Protocol := []
  /-- Why records were skipped. -/
  skipped : List Error := []
deriving Inhabited

/-- At least one class or protocol was read. -/
def Metadata.hasRuntimeInfo (m : Metadata) : Bool := !m.classes.isEmpty || !m.protocols.isEmpty

namespace Image

/-- The sections with a name in the data segments. -/
def dataSections (image : Image) (name : Text) : List Section :=
  image.sections.filter fun s =>
    (Text.ofString "__DATA").isPrefixOf s.segment && s.name = name

/-- The image has metadata of the old runtime. -/
def hasLegacyMetadata (image : Image) : Bool := (image.section? "__OBJC" "__image_info").isSome

/-- The image has sections of the runtime. -/
def hasMetadata (image : Image) : Bool :=
  (["__objc_imageinfo", "__objc_classlist", "__objc_catlist", "__objc_protolist"].any fun name =>
    !(image.dataSections (Text.ofString name)).isEmpty) ||
    (image.header.cpu = CpuType.x86 && image.hasLegacyMetadata)

/-- The image info record in the bytes of its section. -/
def decodeInfo (image : Image) : Text × Option Error → Except Error ImageInfo
  | (_, some error) => .error (.within "failed to read __objc_imageinfo: " error)
  | (bytes, none) =>
    if bytes.length < 8 then .error (.shortImageInfo .partlyLeft)
    else .ok ⟨image.order.word32 bytes, image.order.word32 (bytes.drop 4)⟩

/-- The image info record. Its section is read as a whole. -/
def imageInfo (image : Image) : Attempt (Except Error ImageInfo) :=
  match image.dataSections "__objc_imageinfo" with
  | [] => .returned (.error .noImageInfo)
  | s :: _ =>
    if s.size = 0 then .returned (.error (.emptyImageInfo s.segment s.name))
    else image.decodeInfo <$> image.sectionData s

end Image

namespace RecordReader

/-- What became of the addresses of a list: the records that were read and the errors of those
that were not. -/
abbrev Outcome (α : Type) := List α × List Error

/-- The outcome of a record that cannot be read. A read beyond the end of the slice is passed
on; any other error is kept, with the record filled in. -/
def skip {α : Type} (record : Text) (error : Error) : RecordReader (Outcome α) := do
  if error.kind = .truncated then throw error
  let error := error.annotate record []
  note ⟨.debug, "skipping objc record", [("error", error.message)]⟩
  return ([], [error])

/-- One entry of a list of addresses. Null entries and those that lead to other images hold no
record. -/
def listEntry {α : Type} (s : Section) (record : Text) (item : UInt64 → RecordReader α)
    (index : Nat) (place : UInt64) : RecordReader (Outcome α) :=
  tryCatch (do
    let pointer ← pointerAt place
    if !pointer.symbol.isEmpty || pointer.addr = 0 then return ([], [])
    tryCatch (do return ([← item pointer.addr], []))
      fun error => skip (record ++ " " ++ Text.hex0x pointer.addr.toNat) error)
    fun error =>
      skip (s.segment ++ "." ++ s.name ++ "[" ++ Text.dec index ++ "]") error

/-- The entries of a list of addresses, from an index on. -/
def listEntries {α : Type} (s : Section) (record : Text) (item : UInt64 → RecordReader α)
    (size : UInt64) : Nat → Nat → UInt64 → RecordReader (Outcome α)
  | 0, _, _ => pure ([], [])
  | count + 1, index, place => do
    let (found, errors) ← listEntry s record item index place
    let (others, otherErrors) ← listEntries s record item size count (index + 1) (place + size)
    return (found ++ others, errors ++ otherErrors)

/-- The records of one list section. An encrypted section is skipped as a whole. -/
def listSection {α : Type} (record : Text) (item : UInt64 → RecordReader α) (s : Section) :
    RecordReader (Outcome α) := do
  if s.encrypted then
    skip (s.segment ++ "." ++ s.name) (.encrypted s.segment s.name s.addr)
  else
    let size ← pointerSize
    listEntries s record item size (s.size / size).toNat 0 s.addr

/-- The records of all list sections with a name. -/
def listSections {α : Type} (record : Text) (item : UInt64 → RecordReader α) :
    List Section → RecordReader (Outcome α)
  | [] => pure ([], [])
  | s :: rest => do
    let (found, errors) ← listSection record item s
    let (others, otherErrors) ← listSections record item rest
    return (found ++ others, errors ++ otherErrors)

/-- The metadata of the image: protocols first, then classes, then categories. -/
def readMetadata (info : Except Error ImageInfo) : RecordReader Metadata := do
  let image := (← read).image
  -- of the errors of the image info only this one is reported
  let infoErrors : List Error := match info with
    | .error (.within _ (.encrypted segment name addr)) => [.encrypted segment name addr]
    | _ => []
  let (protocols, protocolErrors) ←
    listSections "protocol_t" readProtocol (image.dataSections "__objc_protolist")
  let (classes, classErrors) ←
    listSections "class_t" readClass (image.dataSections "__objc_classlist")
  let (categories, categoryErrors) ←
    listSections "category_t" readCategory (image.dataSections "__objc_catlist")
  let skipped := infoErrors ++ protocolErrors ++ classErrors ++ categoryErrors
  note ⟨.debug, "parsed objc metadata",
    [("arch", image.arch.name), ("classes", Text.dec classes.length),
     ("categories", Text.dec categories.length), ("protocols", Text.dec protocols.length),
     ("skipped", Text.dec skipped.length)]⟩
  return { imageInfo := info.toOption, classes, categories, protocols, skipped }

end RecordReader

namespace Image

/-- What reading the metadata of an image gives: the metadata or an error, unless the program
crashes, the encodings that were decoded, and the log. -/
structure Extraction where
  /-- The metadata. -/
  result : Attempt (Except Error Metadata)
  /-- The encodings that were decoded, in order. -/
  requests : List DecodeRequest := []
  /-- The log entries in order. -/
  log : List LogEntry := []

/-- The metadata of an image, read in a dialogue with a decoder. Names are read again every time if
they are not to be remembered. -/
def extraction (image : Image) (rememberNames : Bool) : Dialogue Extraction :=
  if !image.hasMetadata then return { result := .returned (.ok {}) }
  else
    let legacy : List LogEntry := if image.hasLegacyMetadata then
        [⟨.warn, "legacy __OBJC runtime metadata is not supported", [("arch", image.arch.name)]⟩]
      else []
    -- a crash comes before the first record is read
    match image.imageInfo with
    | .crashed => return { result := .crashed, log := legacy }
    | .returned info => do
      let context : Context := {
        image, rememberNames
        chained := image.chainedFixups
        categoryClassProperties := match info with
          | .ok info => info.flags.hasCategoryClassProperties
          | .error _ => false }
      let (result, progress) ← (RecordReader.readMetadata info context).run {}
      return {
        result := .returned result
        requests := progress.requests.reverse
        log := legacy ++ progress.log.reverse }

/-- The metadata of an image, with every encoding decoded as it is found. -/
def extract (image : Image) (rememberNames : Bool := true) : Extraction :=
  (image.extraction rememberNames).run

/-- The metadata of an image, or why it cannot be read. -/
def metadata (image : Image) : Attempt (Except Error Metadata) := image.extract.result

end Image

end ObjcLens
