import ObjcLens.Decoder.Cache
import ObjcLens.Model.Walk
import ObjcLens.NameIndex
import ObjcLens.Record.Metadata
import ObjcLens.Slice

/-!
# Sessions

A session reads the metadata of several files into one model. Files can be loaded again and
again; the model only grows, and the first definition of a name is kept. What was left out is
kept too: notes for later definitions, skipped records, and inputs that could not be loaded.

`Session.load` loads inputs. It fails if nothing could be loaded, and then leaves the model as
it is. If reading an input crashes the program, there is no session any more.

The entities are kept twice: in the lists of the model, and in an index for each kind by which
they are looked up. Both are written when an entity is claimed for the first time.
-/

namespace ObjcLens

/-- What a user asks of a session. -/
structure SessionConfig where
  /-- The names of the architectures to read; the best one of each file if there are none. -/
  archs : List Text := []
  /-- Patterns of entities that are seen on every walk. -/
  force : List Text := []
  /-- Patterns of entities that are seen on a walk; all of them if there are none. -/
  filters : List Text := []
  /-- Patterns of names that are never replaced. -/
  exclusions : List Text := []
  /-- Where diagnostics are written, nowhere if it is empty. -/
  diagnosticsLead : Text := []
  /-- How many decodings of each kind are remembered; not positive for the default. -/
  cacheSize : Int := 0
deriving Inhabited

/-- An image that was loaded. -/
structure LoadedImage where
  /-- The path of the file. -/
  path : Text
  /-- The architecture that the file states. -/
  arch : Arch
  /-- The image. -/
  image : Image

/-- The name of the source of records: the path and the architecture. -/
def sourceName (path : Text) (arch : Arch) : Text := path ++ "[" ++ arch.name ++ "]"

/-- The name of a loaded image as a source. -/
def LoadedImage.source (i : LoadedImage) : Text := sourceName i.path i.arch

/-- A later definition that was left out. -/
structure Note where
  /-- The kind of the entity. -/
  kind : EntityKind
  /-- The name. -/
  name : Text
  /-- The source whose definition is kept. -/
  kept : Text
  /-- The source whose definition is left out. -/
  ignored : Text
deriving DecidableEq, Repr

/-- The name of a kind of entities. -/
def EntityKind.name : EntityKind → Text
  | .ofProtocol => "protocol"
  | .ofClass => "class"
  | .ofCategory => "category"

/-- The key of an entity among all entities of a session: its kind and its name. -/
def EntityKind.key (kind : EntityKind) (name : Text) : Text := kind.name ++ " " ++ name

/-- A note as a line. -/
def Note.describe (n : Note) : Text :=
  "duplicate " ++ n.kind.name ++ " " ++ n.name ++ " in " ++ n.ignored ++
    " ignored, keeping the definition from " ++ n.kept

/-- A record, list or slice that could not be read. -/
structure Skip where
  /-- The source. -/
  source : Text
  /-- The reason. -/
  error : Error

/-- A skipped record as a line. -/
def Skip.describe (s : Skip) : Text := s.source ++ ": " ++ s.error.message

/-- What the loaded inputs contained. -/
structure SessionFlags where
  /-- Some image has sections of the runtime. -/
  containsMetadata : Bool := false
  /-- Some image has encrypted sections. -/
  hasEncryptedFiles : Bool := false
  /-- Some image has classes or protocols. -/
  hasRuntimeInfo : Bool := false
deriving DecidableEq, Repr

/-- The state of a session. -/
structure Session where
  /-- What the user asks for. -/
  config : SessionConfig := {}
  /-- The processor that the program runs on. -/
  host : CpuType
  /-- The architectures to read. -/
  archs : List Arch := []
  /-- The filters of walks. -/
  filters : List Glob := []
  /-- The remembered decodings. -/
  decoder : DecoderCache := DecoderCache.empty 0
  /-- The loaded images in order. -/
  images : List LoadedImage := []
  /-- The entities, first definitions only. -/
  model : Model := {}
  /-- The protocols by name. -/
  protocolIndex : NameIndex Protocol := {}
  /-- The classes by name. -/
  classIndex : NameIndex Class := {}
  /-- The categories by key. -/
  categoryIndex : NameIndex Category := {}
  /-- The sources of entities, by their keys. -/
  sources : NameIndex Text := {}
  /-- What the inputs contained. -/
  flags : SessionFlags := {}
  /-- The later definitions that were left out. -/
  notes : List Note := []
  /-- The records and slices that could not be read. -/
  skipped : List Skip := []
  /-- The inputs that could not be loaded. -/
  failures : List Error := []
  /-- The log. -/
  log : List LogEntry := []

/-- A file that is to be loaded: its name, and its contents or why they cannot be read. -/
structure Input where
  /-- The name. -/
  name : Text
  /-- The contents. -/
  contents : Except Error Contents

/-- A slice that is to be read. -/
structure Job where
  /-- The name of the file. -/
  name : Text
  /-- The contents of the file. -/
  contents : Contents
  /-- The slice. -/
  slice : Slice

/-- The name of the source of a job. -/
def Job.source (j : Job) : Text := sourceName j.name j.slice.arch

/-- What came out of a job. -/
structure JobResult where
  /-- The source. -/
  source : Text
  /-- The image with its metadata. -/
  outcome : Except Error (LoadedImage × Metadata)
  /-- The encodings that were decoded. -/
  requests : List DecodeRequest := []
  /-- The log. -/
  log : List LogEntry := []

/-- The result of a job whose image was opened, from what reading its metadata gave. -/
def Job.conclude (j : Job) (image : Image) (extraction : Image.Extraction) : Attempt JobResult := do
  let result ← extraction.result
  return {
    source := j.source
    outcome := result.map fun metadata => (⟨j.name, j.slice.arch, image⟩, metadata)
    requests := extraction.requests
    log := image.encryptionLog ++ extraction.log }

/-- The metadata of a slice, read in a dialogue with a decoder. -/
def Job.dialogue (j : Job) : Dialogue (Attempt JobResult) :=
  match j.slice.image j.contents with
  | .error error => return .returned { source := j.source, outcome := .error error }
  | .ok image => do return j.conclude image (← image.extraction true)

/-- The metadata of a slice, with every encoding decoded as it is found. -/
def Job.run (j : Job) : Attempt JobResult := j.dialogue.run

namespace Session

/-- An empty session on a host. -/
def new (host : CpuType) (config : SessionConfig) : Except Error Session := do
  let archs ← config.archs.mapM fun name =>
    match Arch.ofName? name with
    | some arch => .ok arch
    | none => .error (.within "invalid --arch: " (.unknownArch name))
  let filters ← Scope.compileAll "class filter" config.filters
  return { config, host, archs, filters, decoder := DecoderCache.empty config.cacheSize }

/-- For every architecture the first slice that it covers, without those taken before. -/
def matchingSlices (archs : List Arch) (all : List Slice) : List Slice :=
  archs.foldl (fun taken arch =>
    let fresh (s : Slice) : Bool :=
      arch.covers s.cpu s.sub && !taken.any fun other => other.offset = s.offset
    taken ++ (all.find? fresh).toList) []

/-- The slices of a file that are read. -/
def selectSlices (host : CpuType) (archs : List Arch) (name : Text) (contents : Contents) :
    Except Error (List Slice) :=
  match Slice.ofContents contents (some contents.size) with
  | .error (.notMachO _) => .error (.notMachO name)
  | .error error => .error (.within ("failed to parse " ++ name ++ ": ") error)
  | .ok all =>
    -- without a request the slice that suits the host is taken
    if archs.isEmpty then
      match Slice.selectOn host all [] with
      | .ok slice => .ok [slice]
      | .error error => .error (.within (name ++ ": ") error)
    else
      match matchingSlices archs all with
      | [] =>
        let names := Text.joinWith ", " (archs.map (·.name))
        .error (.within (name ++ " does not contain " ++ names ++ ": ") (.noMatchingArch []))
      | slices => .ok slices

/-- The jobs of an input, or why there are none. -/
def jobsOf (host : CpuType) (archs : List Arch) (input : Input) : Except Error (List Job) :=
  match input.contents with
  | .error error => .error (.within ("failed to read " ++ input.name ++ ": ") error)
  | .ok contents => do
    return (← selectSlices host archs input.name contents).map fun slice =>
      ⟨input.name, contents, slice⟩

/-- A hint for users who pass a static library. -/
def libraryHint (input : Input) : List LogEntry :=
  match input.contents with
  | .ok contents =>
    if FileKind.detect (contents.extract 0 8).toList = .staticLibrary then
      [⟨.warn, FileKind.libraryHint, [("input", input.name)]⟩]
    else []
  | .error _ => []

/-- The session with a source for an entity, and whether it is the first one. A later one leaves
a note. -/
def claim (s : Session) (kind : EntityKind) (name source : Text) : Session × Bool :=
  match s.sources.find? (kind.key name) with
  | some kept =>
    let note : Note := ⟨kind, name, kept, source⟩
    ({ s with
      notes := s.notes ++ [note]
      log := s.log ++ [⟨.debug, note.describe, []⟩] }, false)
  | none => ({ s with sources := s.sources.insert (kind.key name) source }, true)

/-- The session with a protocol of a source, if it is the first with its name. -/
def addProtocol (source : Text) (s : Session) (p : Protocol) : Session :=
  let (s, isNew) := s.claim .ofProtocol p.name source
  if isNew then
    { s with
      model.protocols := s.model.protocols ++ [p]
      protocolIndex := s.protocolIndex.insert p.name p }
  else s

/-- The session with a class of a source, if it is the first with its name. -/
def addClass (source : Text) (s : Session) (c : Class) : Session :=
  let (s, isNew) := s.claim .ofClass c.name source
  if isNew then
    { s with
      model.classes := s.model.classes ++ [c]
      classIndex := s.classIndex.insert c.name c }
  else s

/-- The session with a category of a source, if it is the first with its key. -/
def addCategory (source : Text) (s : Session) (c : Category) : Session :=
  let (s, isNew) := s.claim .ofCategory c.key source
  if isNew then
    { s with
      model.categories := s.model.categories ++ [c]
      categoryIndex := s.categoryIndex.insert c.key c }
  else s

/-- The session with the metadata of an image: protocols, then classes, then categories. -/
def addMetadata (s : Session) (image : LoadedImage) (metadata : Metadata) (source : Text) :
    Session :=
  let flags : SessionFlags := {
    containsMetadata := s.flags.containsMetadata || image.image.hasMetadata
    hasEncryptedFiles := s.flags.hasEncryptedFiles || image.image.isEncrypted
    hasRuntimeInfo := s.flags.hasRuntimeInfo || metadata.hasRuntimeInfo }
  let warning : List LogEntry := if image.image.isEncrypted then
      [⟨.warn, "binary is encrypted, encrypted metadata was skipped", [("slice", source)]⟩]
    else []
  let s := { s with images := s.images ++ [image], flags, log := s.log ++ warning }
  -- protocols go first, then classes, then categories
  let s := metadata.protocols.foldl (addProtocol source) s
  let s := metadata.classes.foldl (addClass source) s
  let s := metadata.categories.foldl (addCategory source) s
  { s with
    skipped := s.skipped ++ metadata.skipped.map (⟨source, ·⟩)
    log := s.log ++ [⟨.debug, "merged objc metadata",
      [("slice", source), ("classes", Text.dec metadata.classes.length),
       ("categories", Text.dec metadata.categories.length),
       ("protocols", Text.dec metadata.protocols.length)]⟩] }

/-- The session with the result of a job. One that failed is skipped. -/
def merge (s : Session) (r : JobResult) : Session :=
  match r.outcome with
  | .ok (image, metadata) => s.addMetadata image metadata r.source
  | .error error =>
    { s with
      skipped := s.skipped ++ [⟨r.source, error⟩]
      log := s.log ++ [⟨.warn, "failed to extract slice",
        [("error", error.message), ("slice", r.source)]⟩] }

/-- The error of a load that loaded nothing: that of the first input that failed, or that of the
first slice. -/
def loadError? (failed : List Error) (results : List JobResult) : Option Error :=
  match failed with
  | error :: _ => some (.within "no input could be loaded: " error)
  | [] => results.findSome? fun r => match r.outcome with
    | .error error => some (.within ("failed to extract " ++ r.source ++ ": ") error)
    | .ok _ => none

/-- The session with several inputs, and an error if none of them could be loaded. A load that
was cancelled before it starts changes nothing, unless there is nothing to read. Results are merged
when there are all of them; a job that crashes leaves no session. -/
def load (s : Session) (inputs : List Input) (cancelled : Bool) :
    Attempt (Session × Option Error) := do
  let selected := inputs.map (jobsOf s.host s.archs)
  let failed := selected.filterMap fun
    | .error error => some error
    | .ok _ => none
  let jobs := selected.flatMap fun
    | .error _ => []
    | .ok jobs => jobs
  let hints := (inputs.filter fun input =>
    match jobsOf s.host s.archs input with
    | .error error => error.kind = .notMachO
    | .ok _ => false).flatMap libraryHint
  -- a load that is cancelled before it starts leaves nothing behind but the hints
  if cancelled && !jobs.isEmpty then
    return ({ s with log := s.log ++ hints }, some (.other "context canceled"))
  else
    let results ← jobs.mapM Job.run
    let warnings : List LogEntry := failed.map fun error =>
      ⟨.warn, "skipping input", [("error", error.message)]⟩
    let s := { s with
      decoder := s.decoder.answerAll (results.flatMap (·.requests))
      failures := s.failures ++ failed
      log := s.log ++ hints ++ results.flatMap (·.log) ++ warnings }
    let s := results.foldl merge s
    let loaded := results.any fun r => r.outcome.isOk
    return (s, if loaded || inputs.isEmpty then none else loadError? failed results)

/-- The session with the file of a name. -/
def loadBytes (s : Session) (name : Text) (contents : Contents) (cancelled : Bool) :
    Attempt (Session × Option Error) :=
  s.load [⟨name, .ok contents⟩] cancelled

/-- The session with the files at some paths. -/
def loadFiles (s : Session) (dir : Directory) (paths : List Text) (cancelled : Bool) :
    Attempt (Session × Option Error) :=
  if cancelled && !paths.isEmpty then .returned (s, some (.other "context canceled"))
  else s.load (paths.map fun path => ⟨path, dir.read path⟩) cancelled

/-- The protocol with a name. -/
def protocol? (s : Session) (name : Text) : Option Protocol := s.protocolIndex.find? name

/-- The class with a name. -/
def class? (s : Session) (name : Text) : Option Class := s.classIndex.find? name

/-- The category with a key. -/
def category? (s : Session) (key : Text) : Option Category := s.categoryIndex.find? key

/-- The scope of a walk with the filters of the session, unless the scope has one of its own, and
the patterns that the session forces. -/
def scope (s : Session) (scope : Scope) : Scope :=
  let keep := if s.filters.isEmpty then none else some (Scope.covered s.filters)
  { keep := scope.keep.or keep, force := scope.force ++ s.config.force }

/-- The events of a walk through the model of the session. -/
def walkIn (s : Session) (scope : Scope) : Except Error (List Event) :=
  s.model.walkIn (s.scope scope)

/-- The diagnostic files: notes, and everything that could not be read. -/
def diagnostics (s : Session) : List (Text × Text) :=
  let lines (ls : List Text) : Text := ls.flatMap fun line => line ++ Text.ofString "\n"
  let lead := s.config.diagnosticsLead
  if lead.isEmpty then []
  else
    [(lead ++ "-notes.txt", lines (s.notes.map (·.describe))),
     (lead ++ "-errors.txt",
      lines (s.failures.map (·.message) ++ s.skipped.map (·.describe)))]

/-- The directory with a diagnostic file written to it. -/
def writeDiagnostic (dir : Directory) (file : Text × Text) : Except Error Directory :=
  (dir.create file.1 file.2.toArray).mapError (.within ("failed to write " ++ file.1 ++ ": "))

/-- The directory with the diagnostic files written to it. -/
def writeDiagnostics (s : Session) (dir : Directory) : Except Error Directory :=
  s.diagnostics.foldlM writeDiagnostic dir

end Session

end ObjcLens
