import ObjcLens.CodeTable
import ObjcLens.Text.Quoted

/-!
# Processors and architectures

An image is built for a processor type and subtype. The pair has a short name such as `arm64`,
by which the user selects slices; the upper byte of the subtype holds capability bits, which
play no part in that.
-/

namespace ObjcLens

/-- A processor type. The upper byte tells the width of its addresses. -/
abbrev CpuType := UInt32

/-- A processor subtype. The upper byte holds capability bits. -/
abbrev CpuSubtype := UInt32

namespace CpuType

/-- The 32-bit Intel processors. -/
def x86 : CpuType := 7

/-- The 64-bit Intel processors. -/
def x86_64 : CpuType := 0x01000007

/-- The 32-bit ARM processors. -/
def arm : CpuType := 12

/-- The 64-bit ARM processors. -/
def arm64 : CpuType := 0x0100000C

/-- The 64-bit ARM processors with 32-bit addresses. -/
def arm64_32 : CpuType := 0x0200000C

/-- The 32-bit PowerPC processors. -/
def ppc : CpuType := 18

/-- The 64-bit PowerPC processors. -/
def ppc64 : CpuType := 0x01000012

/-- The names of the processor types. -/
def table : CodeTable :=
  [(x86, "i386"), (x86_64, "Amd64"), (arm, "ARM"), (arm64, "AARCH64"), (arm64_32, "ARM64_32"),
   (ppc, "PowerPC"), (ppc64, "PowerPC 64")]

/-- The name of a processor type. -/
def name (cpu : CpuType) : Text := table.nameOf cpu

/-- The processor uses 64-bit addresses. -/
def is64Bit (cpu : CpuType) : Bool := cpu &&& 0xFF000000 = 0x01000000

/-- The processors of the machines that a program can be built for, by the names of the machines. -/
def machines : List (Text × CpuType) :=
  [("arm64", arm64), ("amd64", x86_64), ("386", x86), ("arm", arm)]

/-- The processor of a machine, zero if the machine is not known. -/
def ofMachine (machine : Text) : CpuType :=
  ((machines.find? fun entry => entry.1 = machine).map (·.2)).getD 0

end CpuType

namespace CpuSubtype

/-- The subtype without its capability bits. -/
def base (sub : CpuSubtype) : CpuSubtype := sub &&& 0x00FFFFFF

/-- The names of the Intel subtypes. -/
def intelTable : CodeTable := [(3, "x86_64"), (4, "x86 Arch1"), (8, "x86_64 (Haswell)")]

/-- The names of the 32-bit ARM subtypes. -/
def armTable : CodeTable :=
  [(0, "ArmAll"), (5, "ARMv4t"), (6, "ARMv6"), (7, "ARMv5tej"), (8, "ARMXScale"), (9, "ARMv7"),
   (10, "ARMv7f"), (11, "ARMv7s"), (12, "ARMv7k"), (13, "ARMv8"), (14, "ARMv6m"), (15, "ARMv7m"),
   (16, "ARMv7em")]

/-- The names of the 64-bit ARM subtypes. -/
def arm64Table : CodeTable := [(0, "ARM64"), (1, "ARM64 (ARMv8)"), (2, "ARM64e (ARMv8.3)")]

/-- The name of a subtype of a processor. -/
def name (sub : CpuSubtype) (cpu : CpuType) : Text :=
  if cpu = CpuType.x86 || cpu = CpuType.x86_64 then intelTable.nameOf (base sub)
  else if cpu = CpuType.arm then armTable.nameOf (base sub)
  else if cpu = CpuType.arm64 || cpu = CpuType.arm64_32 then arm64Table.nameOf (base sub)
  else if cpu = CpuType.ppc || cpu = CpuType.ppc64 then "PowerPC"
  else "UNKNOWN(" ++ Text.hex0x sub.toNat ++ ")"

end CpuSubtype

/-- A processor type with a subtype. -/
structure Arch where
  /-- The processor type. -/
  cpu : CpuType
  /-- The subtype. -/
  sub : CpuSubtype
deriving DecidableEq, Repr, Inhabited

namespace Arch

/-- The architectures that have a short name. -/
def table : List (String × Arch) :=
  [("arm64", ⟨CpuType.arm64, 0⟩), ("arm64e", ⟨CpuType.arm64, 2⟩),
   ("arm64_32", ⟨CpuType.arm64_32, 1⟩), ("x86_64", ⟨CpuType.x86_64, 3⟩),
   ("x86_64h", ⟨CpuType.x86_64, 8⟩), ("i386", ⟨CpuType.x86, 3⟩), ("armv6", ⟨CpuType.arm, 6⟩),
   ("armv7", ⟨CpuType.arm, 9⟩), ("armv7s", ⟨CpuType.arm, 11⟩), ("armv7k", ⟨CpuType.arm, 12⟩),
   ("ppc", ⟨CpuType.ppc, 0⟩), ("ppc64", ⟨CpuType.ppc64, 0⟩)]

/-- The short name of an architecture, or the names of its type and subtype. -/
def name (arch : Arch) : Text :=
  match table.find? fun entry => entry.2 = arch with
  | some (short, _) => Text.ofString short
  | none => arch.cpu.name ++ "/" ++ arch.sub.name arch.cpu

/-- The lower-case ASCII letter that a code point is a form of, the code point itself if there is
none. Besides the capital letters these are the Kelvin sign and the long s. -/
def foldCode (code : Nat) : Nat :=
  if 0x41 ≤ code && code ≤ 0x5A then code + 32
  else if code = 0x212A then 0x6B
  else if code = 0x17F then 0x73
  else code

/-- A text equals an ASCII text up to the case of letters. -/
def equalsIgnoringCase (s ascii : Text) : Bool :=
  (Rune.ofText s).map (fun r => if r.isMalformed then Rune.replacement else foldCode r.code) =
    ascii.map fun b => foldCode b.toNat

/-- The architecture with a short name, in upper or lower case. -/
def ofName? (s : Text) : Option Arch :=
  (table.find? fun entry => equalsIgnoringCase s (Text.ofString entry.1)).map (·.2)

/-- An image for this processor and subtype belongs to the architecture. Capability bits are
ignored. -/
def covers (arch : Arch) (cpu : CpuType) (sub : CpuSubtype) : Bool :=
  arch.cpu = cpu && CpuSubtype.base arch.sub = CpuSubtype.base sub

end Arch

end ObjcLens
