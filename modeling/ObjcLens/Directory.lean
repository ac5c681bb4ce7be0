import ObjcLens.Error
import ObjcLens.Magic

/-!
# Directories

The files that the program sees, as a value: a list of paths with their contents. A path is
relative to the working directory, or it starts with a slash. Paths are compared by their parts.
Directories exist as far as files lie in them, and some may be there without files.
-/

namespace ObjcLens

/-- The contents of a file. -/
abbrev Contents := Array UInt8

/-- The files and directories that can be seen. -/
structure Directory where
  /-- The paths of the files with their contents. -/
  files : List (Text × Contents) := []
  /-- The paths of directories that are there even if no file lies in them. -/
  folders : List Text := []
deriving Inhabited

namespace Directory

/-- The file at a path. -/
def get? (dir : Directory) (path : Text) : Option Contents :=
  (dir.files.find? fun file => file.1 = path).map (·.2)

/-- The directory with a file written, a new one behind the others. -/
def write (dir : Directory) (path : Text) (contents : Contents) : Directory :=
  let files := if (dir.get? path).isSome then
      dir.files.map fun file => if file.1 = path then (path, contents) else file
    else dir.files ++ [(path, contents)]
  { dir with files }

/-- The error of an operation on a path. -/
def fault (operation : Text) (path : Text) (reason : Text) : Error :=
  .other (operation ++ " " ++ path ++ ": " ++ reason)

/-- The path starts at the root of all directories. -/
def isAbsolute (path : Text) : Bool := path.head? = some (byte '/')

/-- The parts of a path, without empty parts and those that mean the same directory. The root is
a part of its own. -/
def components (path : Text) : List Text :=
  let parts := (Text.splitOn (byte '/') path).filter fun part =>
    !part.isEmpty && part != Text.ofString "."
  if isAbsolute path then Text.ofString "/" :: parts else parts

/-- The path leads to a place below the working directory. -/
def isInside (path : Text) : Bool :=
  !isAbsolute path && (components path).head? != some (Text.ofString "..")

/-- The path with given parts. -/
def ofComponents : List Text → Text
  | [] => "."
  | first :: rest =>
    if isAbsolute first then first ++ Text.joinWith "/" rest
    else Text.joinWith "/" (first :: rest)

/-- The parts are those of a directory: the working directory, the root, or one that is known. -/
def hasFolder (dir : Directory) (parts : List Text) : Bool :=
  parts.isEmpty || parts = [Text.ofString "/"] ||
    (dir.files.any fun file =>
      let other := components file.1
      parts.length < other.length && parts.isPrefixOf other) ||
    dir.folders.any fun folder => parts.isPrefixOf (components folder)

/-- There is a directory at the path. -/
def isDirectory (dir : Directory) (path : Text) : Bool := dir.hasFolder (components path)

/-- The parts are those of a file. -/
def hasFile (dir : Directory) (parts : List Text) : Bool :=
  dir.files.any fun file => components file.1 = parts

/-- The proper beginnings of parts, the shortest first. -/
def ancestors (parts : List Text) : List (List Text) :=
  (List.range parts.length).map parts.take

/-- A proper part of the path is a file. -/
def passesFile (dir : Directory) (path : Text) : Bool :=
  (ancestors (components path)).any dir.hasFile

/-- The file at a path; paths are compared by their parts. -/
def lookup? (dir : Directory) (path : Text) : Option Contents :=
  (dir.files.find? fun file => components file.1 = components path).map (·.2)

/-- The path asks for a directory by a slash at its end. -/
def endsWithSlash (path : Text) : Bool := path.getLast? = some (byte '/')

/-- The contents of the file at a path. -/
def read (dir : Directory) (path : Text) : Except Error Contents :=
  if path.isEmpty then .error (fault "open" path "no such file or directory")
  else match dir.lookup? path with
    | some contents =>
      if endsWithSlash path then .error (fault "open" path "not a directory")
      else .ok contents
    | none =>
      if dir.isDirectory path then .error (fault "read" path "is a directory")
      else if dir.passesFile path then .error (fault "open" path "not a directory")
      else .error (fault "open" path "no such file or directory")

/-- The path leads into a directory that is there. -/
def hasParent (dir : Directory) (path : Text) : Bool := dir.hasFolder (components path).dropLast

/-- The directory with a file written at a path, whose own directory must be there. -/
def create (dir : Directory) (path : Text) (contents : Contents) : Except Error Directory :=
  if path.isEmpty then .error (fault "open" path "no such file or directory")
  else if dir.passesFile path then .error (fault "open" path "not a directory")
  else if !dir.hasParent path then .error (fault "open" path "no such file or directory")
  else if dir.isDirectory path || endsWithSlash path then
    .error (fault "open" path "is a directory")
  else match dir.files.find? fun file => components file.1 = components path with
    | some (known, _) => .ok (dir.write known contents)
    | none => .ok (dir.write (ofComponents (components path)) contents)

/-- A path without the parts that lead nowhere: a step up takes the part before it away, and is
dropped at the root. -/
def cleanParts (parts : List Text) : List Text :=
  (parts.foldl (fun kept part =>
    if part != Text.ofString ".." then part :: kept
    else match kept with
      | [] => [part]
      | last :: before =>
        if last = Text.ofString ".." then part :: kept
        else if last = Text.ofString "/" then kept else before) []).reverse

/-- The directory part of a path. -/
def parentOf (path : Text) : Text :=
  match Text.cutLast? (byte '/') path with
  | none => "."
  | some (before, _) => ofComponents (cleanParts (components (before ++ "/")))

/-- The directory with all directories on the way to a path, which must not be a file. -/
def makeFolders (dir : Directory) (path : Text) : Except Error Directory :=
  let parts := components path
  if dir.hasFolder parts then .ok dir
  else if dir.hasFile parts then .error (fault "mkdir" path "not a directory")
  else match (ancestors parts).find? dir.hasFile with
    | some blocked => .error (fault "mkdir" (ofComponents blocked ++ "/") "file exists")
    | none => .ok { dir with folders := dir.folders ++ [path] }

/-- The kind of the file at a path. -/
def kindOf (dir : Directory) (path : Text) : Except Error FileKind :=
  match dir.read path with
  | .error cause =>
    if dir.isDirectory path && !path.isEmpty then
      .error (.within "failed to read magic: " cause)
    else .error (.within ("failed to open file " ++ path ++ ": ") cause)
  | .ok contents =>
    if contents.isEmpty then .error (.within "failed to read magic: " (.endOfData .nothingLeft))
    else .ok (FileKind.detect (contents.extract 0 8).toList)

/-- The file at a path is an image or an archive of images. -/
def isImage (dir : Directory) (path : Text) : Except Error Bool := do
  (← dir.kindOf path).isReadable

end Directory

end ObjcLens
