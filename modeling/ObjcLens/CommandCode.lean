import ObjcLens.CodeTable
import ObjcLens.Text.Rune

/-!
# Load command codes

The codes of the load commands, and the small values that the commands carry: protections,
identifiers, platforms and versions.
-/

namespace ObjcLens

/-- The code of a load command. -/
abbrev CommandCode := UInt32

namespace CommandCode

/-- The names of the load commands. -/
def table : CodeTable :=
  [(0x1, "LC_SEGMENT"), (0x2, "LC_SYMTAB"), (0x3, "LC_SYMSEG"), (0x4, "LC_THREAD"),
   (0x5, "LC_UNIXTHREAD"), (0xB, "LC_DYSYMTAB"), (0xC, "LC_LOAD_DYLIB"), (0xD, "LC_ID_DYLIB"),
   (0xE, "LC_LOAD_DYLINKER"), (0xF, "LC_ID_DYLINKER"), (0x11, "LC_ROUTINES"),
   (0x12, "LC_SUB_FRAMEWORK"), (0x13, "LC_SUB_UMBRELLA"), (0x14, "LC_SUB_CLIENT"),
   (0x15, "LC_SUB_LIBRARY"), (0x16, "LC_TWOLEVEL_HINTS"), (0x17, "LC_PREBIND_CKSUM"),
   (0x80000018, "LC_LOAD_WEAK_DYLIB"), (0x19, "LC_SEGMENT_64"), (0x1A, "LC_ROUTINES_64"),
   (0x1B, "LC_UUID"), (0x8000001C, "LC_RPATH"), (0x1D, "LC_CODE_SIGNATURE"),
   (0x1E, "LC_SEGMENT_SPLIT_INFO"), (0x8000001F, "LC_REEXPORT_DYLIB"),
   (0x20, "LC_LAZY_LOAD_DYLIB"), (0x21, "LC_ENCRYPTION_INFO"), (0x22, "LC_DYLD_INFO"),
   (0x80000022, "LC_DYLD_INFO_ONLY"), (0x80000023, "LC_LOAD_UPWARD_DYLIB"),
   (0x24, "LC_VERSION_MIN_MACOSX"), (0x25, "LC_VERSION_MIN_IPHONEOS"),
   (0x26, "LC_FUNCTION_STARTS"), (0x27, "LC_DYLD_ENVIRONMENT"), (0x80000028, "LC_MAIN"),
   (0x29, "LC_DATA_IN_CODE"), (0x2A, "LC_SOURCE_VERSION"), (0x2B, "LC_DYLIB_CODE_SIGN_DRS"),
   (0x2C, "LC_ENCRYPTION_INFO_64"), (0x2D, "LC_LINKER_OPTION"),
   (0x2E, "LC_LINKER_OPTIMIZATION_HINT"), (0x2F, "LC_VERSION_MIN_TVOS"),
   (0x30, "LC_VERSION_MIN_WATCHOS"), (0x31, "LC_NOTE"), (0x32, "LC_BUILD_VERSION"),
   (0x80000033, "LC_DYLD_EXPORTS_TRIE"), (0x80000034, "LC_DYLD_CHAINED_FIXUPS"),
   (0x80000035, "LC_FILESET_ENTRY")]

/-- The name of a load command. -/
def name (code : CommandCode) : Text := table.nameOf code

/-- A 32-bit segment. -/
def segment : CommandCode := 0x1

/-- A library to load. -/
def loadDylib : CommandCode := 0xC

/-- The identity of this library. -/
def idDylib : CommandCode := 0xD

/-- A library that may be missing. -/
def loadWeakDylib : CommandCode := 0x80000018

/-- A 64-bit segment. -/
def segment64 : CommandCode := 0x19

/-- The identifier of this image. -/
def uuid : CommandCode := 0x1B

/-- A directory in which libraries are looked for. -/
def rpath : CommandCode := 0x8000001C

/-- The place of the code signature. -/
def codeSignature : CommandCode := 0x1D

/-- A library to load and to pass on. -/
def reexportDylib : CommandCode := 0x8000001F

/-- The encrypted range of a 32-bit image. -/
def encryptionInfo : CommandCode := 0x21

/-- The version of the sources. -/
def sourceVersion : CommandCode := 0x2A

/-- The encrypted range of a 64-bit image. -/
def encryptionInfo64 : CommandCode := 0x2C

/-- The platform that the image was built for. -/
def buildVersion : CommandCode := 0x32

/-- The place of the chained fixups. -/
def chainedFixups : CommandCode := 0x80000034

end CommandCode

/-- The protection of memory: bits for reading, writing and executing. -/
abbrev Protection := UInt32

namespace Protection

/-- The memory can be read. -/
def canRead (p : Protection) : Bool := p &&& 1 ≠ 0

/-- The memory can be written. -/
def canWrite (p : Protection) : Bool := p &&& 2 ≠ 0

/-- The memory can be executed. -/
def canExecute (p : Protection) : Bool := p &&& 4 ≠ 0

/-- Three letters, with a dash for what is not allowed. -/
def describe (p : Protection) : Text :=
  [byte (if p.canRead then 'r' else '-'), byte (if p.canWrite then 'w' else '-'),
    byte (if p.canExecute then 'x' else '-')]

end Protection

/-- An identifier of sixteen bytes as text: groups of upper-case digits with dashes. -/
def describeUuid (bytes : Text) : Text :=
  let group (start count : Nat) : Text := ((bytes.drop start).take count).flatMap Text.hexByteUpper
  Text.joinWith "-" [group 0 4, group 4 2, group 6 2, group 8 2, group 10 6]

/-- A platform. -/
abbrev Platform := UInt32

namespace Platform

/-- The names of the platforms. -/
def table : CodeTable :=
  [(0, "unknown"), (1, "macOS"), (2, "iOS"), (3, "tvOS"), (4, "watchOS"), (5, "bridgeOS"),
   (6, "macCatalyst"), (7, "iOS Simulator"), (8, "tvOS Simulator"), (9, "watchOS Simulator"),
   (10, "DriverKit")]

/-- The name of a platform. -/
def name (p : Platform) : Text := table.nameOf p

end Platform

/-- A version of three parts, the first sixteen and the others eight bits wide. -/
abbrev Version := UInt32

/-- The three parts of a version with points between them. -/
def Version.describe (v : Version) : Text :=
  Text.joinWith "." [Text.dec (v >>> 16).toNat, Text.dec ((v >>> 8) &&& 0xFF).toNat,
    Text.dec (v &&& 0xFF).toNat]

/-- A version of five parts, the first twenty-four and the others ten bits wide. -/
abbrev SourceVersion := UInt64

/-- The five parts of a source version with points between them. -/
def SourceVersion.describe (v : SourceVersion) : Text :=
  Text.joinWith "." [Text.dec (v >>> 40).toNat, Text.dec ((v >>> 30) &&& 0x3FF).toNat,
    Text.dec ((v >>> 20) &&& 0x3FF).toNat, Text.dec ((v >>> 10) &&& 0x3FF).toNat,
    Text.dec (v &&& 0x3FF).toNat]

/-- The flags of a segment as text. -/
def describeSegmentFlags (flags : UInt32) : Text := if flags &&& 8 ≠ 0 then "(protected)" else []

/-- Sections of this type have no contents in the file and are filled with zeros. -/
def isZeroFill (sectionFlags : UInt32) : Bool :=
  let type := sectionFlags &&& 0xFF
  type = 0x1 || type = 0xC || type = 0x12

/-- The places at which the characters of a text start, counted from a place. -/
def characterStarts (place : Nat) : List Rune → List Nat
  | [] => []
  | r :: rest => place :: characterStarts (place + r.width) rest

/-- A buffer with the first byte of every character of a name put at the place of that byte, up
to the first character that starts at the sixteenth place exactly. The bytes of a character
behind its first one are not copied. There is no result if a place lies outside the buffer,
which can happen when a character straddles the sixteenth place. -/
def putName (buffer name : Text) : Option Text :=
  ((characterStarts 0 (Rune.ofText name)).takeWhile (· != 16)).foldlM (fun buffer place =>
    if place < buffer.length then some (buffer.set place (name.getD place 0)) else none) buffer

end ObjcLens
