import ObjcLens.Bytes
import ObjcLens.Text.Numeral

/-!
# Chained pointers

Pointers of an image that the loader has to adjust are linked into chains: the unused bits of a
pointer tell how far the next one is. A `Fixup` is one decoded pointer, either a `Rebase` to a
place inside the image or a `Bind` to an imported symbol.
-/

namespace ObjcLens

/-- A number of bits of a word from a bit on. Bits beyond the word are zero. -/
def bitField (word : UInt64) (start count : Nat) : UInt64 :=
  (word.toNat / Nat.pow 2 (min start 64) % Nat.pow 2 (min count 64)).toUInt64

/-- The layout of the pointers of a chain. -/
abbrev PointerFormat := UInt16

namespace PointerFormat

/-- The layouts and their names. -/
def table : List (PointerFormat × String) :=
  [(1, "DYLD_CHAINED_PTR_ARM64E"), (2, "DYLD_CHAINED_PTR_64"), (3, "DYLD_CHAINED_PTR_32"),
   (4, "DYLD_CHAINED_PTR_32_CACHE"), (5, "DYLD_CHAINED_PTR_32_FIRMWARE"),
   (6, "DYLD_CHAINED_PTR_64_OFFSET"), (7, "DYLD_CHAINED_PTR_ARM64E_KERNEL"),
   (8, "DYLD_CHAINED_PTR_64_KERNEL_CACHE"), (9, "DYLD_CHAINED_PTR_ARM64E_USERLAND"),
   (10, "DYLD_CHAINED_PTR_ARM64E_FIRMWARE"), (11, "DYLD_CHAINED_PTR_X86_64_KERNEL_CACHE"),
   (12, "DYLD_CHAINED_PTR_ARM64E_USERLAND24")]

/-- The name of a layout. -/
def name (format : PointerFormat) : Text :=
  match table.find? fun entry => entry.1 = format with
  | some (_, name) => Text.ofString name
  | none => "DCPtrKind(" ++ Text.dec format.toNat ++ ")"

/-- The unit in which the distance to the next pointer is given. -/
def stride (format : PointerFormat) : UInt64 :=
  if format = 1 || format = 9 || format = 12 then 8 else if format = 11 then 1 else 4

/-- The pointers are 32 bits wide. -/
def is32 (format : PointerFormat) : Bool := format = 3 || format = 4 || format = 5

/-- The pointers may be authenticated. -/
def isAuthenticated (format : PointerFormat) : Bool :=
  format = 1 || format = 7 || format = 9 || format = 10 || format = 12

/-- The target of a plain pointer is an address and not an offset from the base of the image. -/
def isAddress (format : PointerFormat) : Bool :=
  format = 1 || format = 2 || format = 3 || format = 10

end PointerFormat

/-- The name of the key of an authenticated pointer. -/
def keyName (key : UInt64) : Text :=
  match key.toNat with
  | 0 => "IA"
  | 1 => "IB"
  | 2 => "DA"
  | 3 => "DB"
  | _ => "ERROR"

/-- A pointer to a place inside the image. -/
structure Rebase where
  /-- The place of the pointer as an offset from the base of the image. -/
  location : UInt64
  /-- The word in the file. -/
  raw : UInt64 := 0
  /-- The layout of the word. -/
  format : PointerFormat := 0
  /-- An address if `isAddress` is set, otherwise an offset from the base of the image. -/
  target : UInt64
  /-- The target is an address. -/
  isAddress : Bool := false
  /-- The upper byte of the pointer. -/
  high8 : UInt64 := 0
  /-- The pointer is authenticated. -/
  auth : Bool := false
  /-- The key of an authenticated pointer. -/
  key : UInt64 := 0
  /-- The diversity of an authenticated pointer. -/
  diversity : UInt64 := 0
deriving DecidableEq, Repr

namespace Rebase

/-- The address that the pointer holds in an image loaded at its preferred base. -/
def address (r : Rebase) (base : UInt64) : UInt64 :=
  (if r.isAddress then r.target else r.target + base) ||| (r.high8 <<< 56)

/-- The pointer in one line. -/
def describe (r : Rebase) : Text :=
  let place := Text.hexPad0x 8 r.location.toNat
  let target := Text.hex0x r.target.toNat
  if r.auth then
    place ++ ":  auth-rebase target: " ++ target ++ ", key: " ++ keyName r.key ++
      ", diversity: " ++ Text.hexPad0x 4 r.diversity.toNat
  else place ++ ":  rebase target: " ++ target ++ ", high8: " ++ Text.hex0x r.high8.toNat

end Rebase

/-- A pointer to an imported symbol. -/
structure Bind where
  /-- The place of the pointer as an offset from the base of the image. -/
  location : UInt64
  /-- The word in the file. -/
  raw : UInt64 := 0
  /-- The layout of the word. -/
  format : PointerFormat := 0
  /-- The index of the import. -/
  ordinal : UInt32
  /-- A number to be added to the address of the symbol. -/
  addend : Int
  /-- The name of the symbol. -/
  symbol : Text
  /-- The pointer is authenticated. -/
  auth : Bool := false
deriving DecidableEq, Repr

namespace Bind

/-- The pointer in one line. -/
def describe (b : Bind) : Text :=
  let kind : Text := if b.auth then "auth-bind" else "bind"
  let addend : Text := if b.addend = 0 then [] else ", addend: " ++ Text.decInt b.addend
  Text.hexPad0x 8 b.location.toNat ++ ":  " ++ kind ++ " ordinal: " ++ Text.dec b.ordinal.toNat ++
    addend ++ ", " ++ b.symbol

end Bind

/-- A decoded pointer of a chain. -/
inductive Fixup where
  | rebase (r : Rebase)
  | bind (b : Bind)
deriving DecidableEq, Repr

namespace Fixup

/-- The place of the pointer as an offset from the base of the image. -/
def location : Fixup → UInt64
  | .rebase r => r.location
  | .bind b => b.location

/-- The word in the file. -/
def raw : Fixup → UInt64
  | .rebase r => r.raw
  | .bind b => b.raw

/-- The pointer in one line. -/
def describe : Fixup → Text
  | .rebase r => r.describe
  | .bind b => b.describe

end Fixup

/-- An imported symbol. -/
structure Import where
  /-- The name of the symbol. -/
  name : Text
  /-- The library that it comes from; negative numbers have special meanings. -/
  library : Int
  /-- The symbol may be missing. -/
  weak : Bool
  /-- A number to be added to the address of the symbol. -/
  addend : Int
deriving DecidableEq, Repr

/-- The import in one line. -/
def Import.describe (i : Import) : Text :=
  let addend : Text := if i.addend = 0 then [] else "+" ++ Text.hexInt0x i.addend
  i.name ++ addend ++ " (lib " ++ Text.decInt i.library ++ ")"

end ObjcLens
