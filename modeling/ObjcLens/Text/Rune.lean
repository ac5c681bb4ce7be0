import ObjcLens.Text.Basic

/-!
# Characters of a byte text

A byte text is read as UTF-8 from the left. A byte that starts no well-formed sequence is a
character of its own, the replacement character, one byte wide. So every text is a sequence of
characters whose widths add up to its length.
-/

namespace ObjcLens

/-- A character of a text: its code point and the number of bytes it takes. A malformed byte is
the replacement character with width one. -/
structure Rune where
  /-- The code point. -/
  code : Nat
  /-- The number of bytes. -/
  width : Nat
deriving DecidableEq, Repr

namespace Rune

/-- The code point that stands for malformed input. -/
def replacement : Nat := 0xFFFD

/-- A malformed byte. -/
def malformed : Rune := ⟨replacement, 1⟩

/-- The character comes from a malformed byte. -/
def isMalformed (r : Rune) : Bool := r.code = replacement && r.width = 1

/-- The byte continues a sequence. -/
def isContinuation (b : UInt8) : Bool := 0x80 ≤ b && b ≤ 0xBF

/-- The six payload bits of a continuation byte. -/
def payload (b : UInt8) : Nat := b.toNat % 64

/-- The bounds of the second byte of a sequence with a given first byte. They exclude overlong
forms, surrogates and code points that are too large. -/
def secondBounds (first : UInt8) : UInt8 × UInt8 :=
  if first = 0xE0 then (0xA0, 0xBF)
  else if first = 0xED then (0x80, 0x9F)
  else if first = 0xF0 then (0x90, 0xBF)
  else if first = 0xF4 then (0x80, 0x8F)
  else (0x80, 0xBF)

/-- The second byte fits the first. -/
def secondFits (first second : UInt8) : Bool :=
  let (low, high) := secondBounds first
  low ≤ second && second ≤ high

/-- The character that starts with a given byte. -/
def decode (first : UInt8) (rest : Text) : Rune :=
  if first < 0x80 then ⟨first.toNat, 1⟩
  else if 0xC2 ≤ first && first ≤ 0xDF then
    match rest with
    | b :: _ =>
      if isContinuation b then ⟨(first.toNat - 0xC0) * 64 + payload b, 2⟩ else malformed
    | _ => malformed
  else if 0xE0 ≤ first && first ≤ 0xEF then
    match rest with
    | b :: c :: _ =>
      if secondFits first b && isContinuation c then
        ⟨(first.toNat - 0xE0) * 4096 + payload b * 64 + payload c, 3⟩
      else malformed
    | _ => malformed
  else if 0xF0 ≤ first && first ≤ 0xF4 then
    match rest with
    | b :: c :: d :: _ =>
      if secondFits first b && isContinuation c && isContinuation d then
        ⟨(first.toNat - 0xF0) * 262144 + payload b * 4096 + payload c * 64 + payload d, 4⟩
      else malformed
    | _ => malformed
  else malformed

/-- The characters of a text; the number counts the bytes that still belong to the last one. -/
def ofTextAux : Nat → Text → List Rune
  | _, [] => []
  | skip + 1, _ :: rest => ofTextAux skip rest
  | 0, b :: rest => let r := decode b rest; r :: ofTextAux (r.width - 1) rest

/-- The characters of a text in order. -/
def ofText (s : Text) : List Rune := ofTextAux 0 s

/-- The UTF-8 bytes of a code point. -/
def encode (code : Nat) : Text :=
  if code < 0x80 then [code.toUInt8]
  else if code < 0x800 then [(0xC0 + code / 64).toUInt8, (0x80 + code % 64).toUInt8]
  else if code < 0x10000 then
    [(0xE0 + code / 4096).toUInt8, (0x80 + code / 64 % 64).toUInt8, (0x80 + code % 64).toUInt8]
  else
    [(0xF0 + code / 262144).toUInt8, (0x80 + code / 4096 % 64).toUInt8,
      (0x80 + code / 64 % 64).toUInt8, (0x80 + code % 64).toUInt8]

/-- The number of characters of a text. -/
def count (s : Text) : Nat := (ofText s).length

end Rune

end ObjcLens
