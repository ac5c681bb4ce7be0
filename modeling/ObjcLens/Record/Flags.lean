import ObjcLens.CodeTable

/-!
# Flags of the runtime records

The image info word, the class flags, the header word of method lists, and the word of a class
that holds the address of its data together with two flags.
-/

namespace ObjcLens

/-- The flags of the image info record. The second byte is the version of the Swift language. -/
abbrev ImageInfoFlags := UInt32

namespace ImageInfoFlags

/-- The names of the flags. -/
def table : CodeTable :=
  [(0x1, "DyldCategoriesOptimized"), (0x2, "SupportsGC"), (0x4, "RequiresGC"),
   (0x8, "OptimizedByDyld"), (0x10, "SignedClassRO"), (0x20, "IsSimulated"),
   (0x40, "HasCategoryClassProperties"), (0x80, "OptimizedByDyldClosure")]

/-- The names of the flags that are set. -/
def names (flags : ImageInfoFlags) : List Text := table.flagNames flags

/-- Categories have a list of class properties. -/
def hasCategoryClassProperties (flags : ImageInfoFlags) : Bool := flags &&& 0x40 ≠ 0

/-- The image was compiled for a simulator. -/
def isSimulated (flags : ImageInfoFlags) : Bool := flags &&& 0x20 ≠ 0

/-- The image contains Swift code. -/
def hasSwift (flags : ImageInfoFlags) : Bool := flags &&& 0xFF00 ≠ 0

/-- The version of the Swift language. -/
def swiftVersion (flags : ImageInfoFlags) : Text :=
  match ((flags &&& 0xFF00) >>> 8).toNat with
  | 0 => "not swift"
  | 1 => "Swift 1.0"
  | 2 => "Swift 1.2"
  | 3 => "Swift 2.0"
  | 4 => "Swift 3.0"
  | 5 => "Swift 4.0"
  | 6 => "Swift 4.1/4.2"
  | 7 => "Swift 5 or later"
  | v => "Unknown future Swift version: " ++ Text.dec v

/-- The flags and the version of the Swift language in one line. -/
def describe (flags : ImageInfoFlags) : Text :=
  "Flags = " ++ Text.joinWith ", " (names flags) ++ ", Swift = " ++ swiftVersion flags

end ImageInfoFlags

/-- The image info record. -/
structure ImageInfo where
  /-- The version of the record. -/
  version : UInt32
  /-- The flags. -/
  flags : ImageInfoFlags
deriving DecidableEq, Repr, Inhabited

/-- The flags in the data of a class. -/
abbrev ClassFlags := UInt32

namespace ClassFlags

/-- The class is a metaclass. -/
def isMeta (flags : ClassFlags) : Bool := flags &&& 0x1 ≠ 0

/-- The class has no superclass by design. -/
def isRoot (flags : ClassFlags) : Bool := flags &&& 0x2 ≠ 0

/-- The class has C++ constructors or destructors. -/
def hasStructors (flags : ClassFlags) : Bool := flags &&& 0x4 ≠ 0

/-- The class was compiled with automatic reference counting. -/
def isArc (flags : ClassFlags) : Bool := flags &&& 0x80 ≠ 0

/-- The names of the flags that are shown. -/
def table : CodeTable :=
  [(0x1, "META"), (0x2, "ROOT"), (0x4, "HAS_CXX_STRUCTORS"), (0x10, "HIDDEN"), (0x80, "ARC")]

/-- The flags in one line. -/
def describe (flags : ClassFlags) : Text := Text.joinWith " | " (table.flagNames flags)

end ClassFlags

/-- The header of a method list: entry size and flags in one word, and the number of entries. -/
structure MethodListHeader where
  /-- The entry size with the flags of the list. -/
  entryWord : UInt32
  /-- The number of entries. -/
  count : UInt32
deriving DecidableEq, Repr

namespace MethodListHeader

/-- The bits of the entry word that hold the size. -/
def sizeMask : UInt32 := 0x0000FFFC

/-- The entries hold offsets relative to themselves. -/
def isSmall (header : MethodListHeader) : Bool := header.entryWord &&& 0x80000000 ≠ 0

/-- The selector offsets lead to the names and not to references to them. -/
def isDirect (header : MethodListHeader) : Bool := header.entryWord &&& 0x40000000 ≠ 0

/-- The size of an entry. -/
def entrySize (header : MethodListHeader) : UInt32 := header.entryWord &&& sizeMask

/-- The header in one line. -/
def describe (header : MethodListHeader) : Text :=
  let kind : Text :=
    if header.isSmall then (if header.isDirect then "small|direct" else "small") else "big"
  "count=" ++ Text.dec header.count.toNat ++ ", entsiz=" ++ Text.dec header.entrySize.toNat ++
    ", kind=" ++ kind

end MethodListHeader

/-- The word of a class that holds the address of its data and two flags. -/
abbrev ClassDataWord := UInt64

namespace ClassDataWord

/-- The class was compiled by Swift before its binary interface was stable. -/
def isSwiftLegacy (word : ClassDataWord) : Bool := word &&& 1 ≠ 0

/-- The class was compiled by Swift. -/
def isSwiftStable (word : ClassDataWord) : Bool := word &&& 2 ≠ 0

/-- The address of the data. -/
def address (word : ClassDataWord) (is64 : Bool) : UInt64 :=
  word &&& (if is64 then 0x00007FFFFFFFFFF8 else 0xFFFFFFFC)

end ClassDataWord

/-- The alignment of an instance variable in bytes. The record holds its logarithm, or all ones
for the alignment of a pointer. -/
def ivarAlignment (raw : UInt32) (pointerSize : UInt32) : UInt32 :=
  if raw = 0xFFFFFFFF then pointerSize else (Nat.pow 2 (min raw.toNat 32)).toUInt32

end ObjcLens
