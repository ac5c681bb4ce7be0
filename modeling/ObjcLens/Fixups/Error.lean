import ObjcLens.Text.Numeral

/-!
# Faults of chained fixups

Everything that can be wrong with the description of the pointer chains or with the chains
themselves.
-/

namespace ObjcLens

/-- Why a record of a fixed size could not be read: nothing was left, or only a part of it. -/
inductive Shortage where
  | nothingLeft
  | partlyLeft
deriving DecidableEq, Repr

/-- The text of a shortage. -/
def Shortage.message : Shortage → Text
  | .nothingLeft => "EOF"
  | .partlyLeft => "unexpected EOF"

/-- A fault of the chained fixups. -/
inductive FixupError where
  /-- The header of the payload is incomplete. -/
  | header (why : Shortage)
  /-- The number of segments is incomplete. -/
  | segmentCount (why : Shortage)
  /-- There are more segments than the payload has room for. -/
  | tooManySegments (count : UInt32)
  /-- The record of a segment is incomplete. -/
  | segment (index : Nat) (why : Shortage)
  /-- The page starts of a segment do not fit the payload. -/
  | pageStarts (index : Nat)
  /-- The starts of a page lead out of the table. -/
  | startIndex (index inSegment : Nat)
  /-- A chain is longer than its page. -/
  | endless (inSegment page : Nat)
  /-- A pointer cannot be read from the image, for a reason that the image gives. -/
  | pointer (location : UInt64) (reason : Text)
  /-- The layout of the pointers is not known. -/
  | pointerFormat (format : UInt16)
  /-- A pointer refers to an import that does not exist. -/
  | ordinal (number : UInt32) (location : UInt64) (imports : Nat)
  /-- The symbol names are compressed. -/
  | symbolsFormat (format : UInt32)
  /-- An import is incomplete. -/
  | importEntry (index : Nat) (why : Shortage)
  /-- The addend of an import is incomplete. -/
  | importAddend (index : Nat) (why : Shortage)
  /-- The layout of the imports is not known. -/
  | importsFormat (format : UInt32)
  /-- A symbol name lies outside the payload. -/
  | symbolRange (offset : UInt64)
  /-- A symbol name has no end. -/
  | symbolEnd (offset : UInt64)
deriving DecidableEq, Repr

namespace FixupError

/-- The text of a fault. -/
def message : FixupError → Text
  | .header why => "failed to read chained fixups header: " ++ why.message
  | .segmentCount why => "failed to read starts_in_image: " ++ why.message
  | .tooManySegments count => "invalid chained fixups segment count " ++ Text.dec count.toNat
  | .segment index why =>
    "failed to read starts_in_segment " ++ Text.dec index ++ ": " ++ why.message
  | .pageStarts index =>
    "page starts for segment " ++ Text.dec index ++ " overrun the fixups payload"
  | .startIndex index inSegment =>
    "chain start index " ++ Text.dec index ++ " out of range for segment " ++ Text.dec inSegment
  | .endless inSegment page =>
    "fixup chain in segment " ++ Text.dec inSegment ++ " page " ++ Text.dec page ++
      " does not terminate"
  | .pointer location reason =>
    "failed to read chained pointer at " ++ Text.hex0x location.toNat ++ ": " ++ reason
  | .pointerFormat format =>
    "unknown pointer format 0X" ++
      Text.zeroPad 4 ((Text.digitsRev 16 4 format.toNat).reverse.map Text.digitByteUpper)
  | .ordinal number location imports =>
    "bind ordinal " ++ Text.dec number.toNat ++ " at " ++ Text.hex0x location.toNat ++
      " out of range (" ++ Text.dec imports ++ " imports)"
  | .symbolsFormat format =>
    "unsupported chained fixups symbols format " ++ Text.dec format.toNat
  | .importEntry index why => "failed to read import " ++ Text.dec index ++ ": " ++ why.message
  | .importAddend index why =>
    "failed to read import " ++ Text.dec index ++ " addend: " ++ why.message
  | .importsFormat format => "unknown imports format " ++ Text.dec format.toNat
  | .symbolRange offset =>
    "failed to read string at: " ++ Text.dec offset.toNat ++ ": out of range"
  | .symbolEnd offset =>
    "failed to read string at: " ++ Text.dec offset.toNat ++ ": missing terminator"

end FixupError

end ObjcLens
