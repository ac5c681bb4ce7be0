import ObjcLens.Cpu
import ObjcLens.Bytes

/-!
# File headers

Every image starts with a header: a magic number that also tells byte order and address width,
the architecture, the kind of file, and the number and total size of the load commands that
follow. A header takes 28 bytes in a 32-bit image and 32 bytes in any other.

* `FileHeader.encode`: the bytes of a header.
* `FileHeader.describe`: the header as text.
-/

namespace ObjcLens

/-- A magic number. -/
abbrev Magic := UInt32

namespace Magic

/-- Marks an image with 32-bit addresses. -/
def image32 : Magic := 0xFEEDFACE

/-- Marks an image with 64-bit addresses. -/
def image64 : Magic := 0xFEEDFACF

/-- Marks an archive of images. -/
def fat : Magic := 0xCAFEBABE

/-- The names of the magic numbers. -/
def table : CodeTable :=
  [(image32, "32-bit MachO"), (image64, "64-bit MachO"), (fat, "Fat MachO")]

/-- The magic number of an image, of either address width. -/
def isImage (magic : Magic) : Bool := magic = image32 || magic = image64

end Magic

/-- A kind of file. -/
abbrev FileType := UInt32

namespace FileType

/-- A program. -/
def execute : FileType := 2

/-- A dynamic library. -/
def dylib : FileType := 6

/-- The names of the kinds of file. -/
def table : CodeTable :=
  [(1, "OBJECT"), (2, "EXECUTE"), (3, "FVMLIB"), (4, "CORE"), (5, "PRELOAD"), (6, "DYLIB"),
   (7, "DYLINKER"), (8, "BUNDLE"), (9, "DYLIB_STUB"), (10, "DSYM"), (11, "KEXT_BUNDLE"),
   (12, "FILESET")]

end FileType

/-- The flags of a file. -/
abbrev HeaderFlags := UInt32

namespace HeaderFlags

/-- The image uses two-level name binding. -/
def twoLevel : HeaderFlags := 0x80

/-- The image can be loaded anywhere. -/
def pie : HeaderFlags := 0x200000

/-- The library lives in the shared cache. -/
def dylibInCache : HeaderFlags := 0x80000000

/-- The names of the flags. -/
def table : CodeTable :=
  [(0x1, "NoUndefs"), (0x2, "IncrLink"), (0x4, "DyldLink"), (0x8, "BindAtLoad"),
   (0x10, "Prebound"), (0x20, "SplitSegs"), (0x40, "LazyInit"), (0x80, "TwoLevel"),
   (0x100, "ForceFlat"), (0x200, "NoMultiDefs"), (0x400, "NoFixPrebinding"),
   (0x800, "Prebindable"), (0x1000, "AllModsBound"), (0x2000, "SubsectionsViaSymbols"),
   (0x4000, "Canonical"), (0x8000, "WeakDefines"), (0x10000, "BindsToWeak"),
   (0x20000, "AllowStackExecution"), (0x40000, "RootSafe"), (0x80000, "SetuidSafe"),
   (0x100000, "NoReexportedDylibs"), (0x200000, "PIE"), (0x400000, "DeadStrippableDylib"),
   (0x800000, "HasTLVDescriptors"), (0x1000000, "NoHeapExecution"),
   (0x2000000, "AppExtensionSafe"), (0x8000000, "SimSupport"), (0x80000000, "DylibInCache")]

/-- The names of the flags that are set. -/
def names (flags : HeaderFlags) : List Text := table.flagNames flags

/-- The names of the flags that are set, in one line. -/
def describe (flags : HeaderFlags) : Text :=
  if flags = 0 then "None" else Text.joinWith ", " (names flags)

end HeaderFlags

/-- The header of an image. -/
structure FileHeader where
  /-- The magic number. -/
  magic : Magic
  /-- The processor type. -/
  cpu : CpuType
  /-- The processor subtype with its capability bits. -/
  sub : CpuSubtype
  /-- The kind of file. -/
  type : FileType
  /-- The number of load commands. -/
  commandCount : UInt32
  /-- The total size of the load commands. -/
  commandSize : UInt32
  /-- The flags. -/
  flags : HeaderFlags
  /-- A reserved word, absent in 32-bit images. -/
  reserved : UInt32
deriving DecidableEq, Repr, Inhabited

namespace FileHeader

/-- The size of the header of a 32-bit image. -/
def size32 : Nat := 28

/-- The size of any other header. -/
def size64 : Nat := 32

/-- The number of bytes that a header takes. -/
def size (header : FileHeader) : Nat := if header.magic = Magic.image32 then size32 else size64

/-- The bytes of a header. -/
def encode (header : FileHeader) (order : ByteOrder) : Text :=
  [header.magic, header.cpu, header.sub, header.type, header.commandCount, header.commandSize,
    header.flags].flatMap order.bytes32 ++
    (if header.magic = Magic.image32 then [] else order.bytes32 header.reserved)

/-- The header as text, one line for each part. -/
def describe (header : FileHeader) : Text :=
  "Magic         = " ++ Magic.table.nameOf header.magic ++ "\n" ++
  "Type          = " ++ FileType.table.nameOf header.type ++ "\n" ++
  "CPU           = " ++ header.cpu.name ++ ", " ++ header.sub.name header.cpu ++ "\n" ++
  "Commands      = " ++ Text.dec header.commandCount.toNat ++
    " (Size: " ++ Text.dec header.commandSize.toNat ++ ")\n" ++
  "Flags         = " ++ header.flags.describe ++ "\n"

end FileHeader

end ObjcLens
