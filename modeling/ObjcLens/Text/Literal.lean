import ObjcLens.Text.Numeral

/-!
# Literals

Numbers and truth values as users write them. A number may start with `0x`, `0o`, `0b` or a plain
zero to tell its base, and may have single underscores between its digits.
-/

namespace ObjcLens

/-- Why a text is not a number. -/
inductive LiteralFault where
  /-- The text has not the form of a number. -/
  | malformed
  /-- The number is too large. -/
  | outOfRange
deriving DecidableEq, Repr

/-- The text of a fault. -/
def LiteralFault.message : LiteralFault → Text
  | .malformed => "invalid syntax"
  | .outOfRange => "value out of range"

namespace Text

/-- The lower-case form of an ASCII letter. -/
def lowerByte (b : UInt8) : UInt8 := if 0x41 ≤ b && b ≤ 0x5A then b + 0x20 else b

/-- The upper-case form of an ASCII letter. -/
def upperByte (b : UInt8) : UInt8 := if 0x61 ≤ b && b ≤ 0x7A then b - 0x20 else b

/-- The value of a letter or digit as a digit. -/
def digitValue? (b : UInt8) : Option Nat :=
  let c := lowerByte b
  if isDigit c then some (c.toNat - 0x30)
  else if isLetter c then some (c.toNat - 0x57)
  else none

/-- The base that the letter behind a zero tells. -/
def baseOfLetter? (b : UInt8) : Option Nat :=
  if lowerByte b = byte 'x' then some 16
  else if lowerByte b = byte 'o' then some 8
  else if lowerByte b = byte 'b' then some 2
  else none

/-- The base of a number and its digits. -/
def splitBase (s : Text) : Nat × Text :=
  match s with
  | 0x30 :: letter :: digit :: rest =>
    match baseOfLetter? letter with
    | some base => (base, digit :: rest)
    | none => (8, letter :: digit :: rest)
  | 0x30 :: rest => (8, rest)
  | _ => (10, s)

/-- The value of digits in a base, behind those that were read, below a limit. -/
def digitsBelow (base limit : Nat) : Nat → Text → Except LiteralFault Nat
  | value, [] => .ok value
  | value, b :: rest =>
    if b = byte '_' then digitsBelow base limit value rest
    else match digitValue? b with
      | none => .error .malformed
      | some d =>
        if base ≤ d then .error .malformed
        else if limit ≤ value * base + d then .error .outOfRange
        else digitsBelow base limit (value * base + d) rest

/-- Every underscore stands between two digits. The letter of a base counts as a digit, and the
flag tells whether the byte in front is one. -/
def underscoresFit (hex : Bool) : Bool → Text → Bool
  | _, [] => true
  | afterDigit, b :: rest =>
    let fits (c : UInt8) : Bool :=
      isDigit c || (hex && isLetter c && lowerByte c ≤ byte 'f')
    if b = byte '_' then afterDigit && rest.head?.any fits && underscoresFit hex false rest
    else underscoresFit hex (fits b) rest

/-- The underscores of a number stand where they may. -/
def underscoresOk (s : Text) : Bool :=
  match s with
  | 0x30 :: letter :: rest =>
    if (baseOfLetter? letter).isSome then
      underscoresFit (lowerByte letter = byte 'x') true rest
    else underscoresFit false false s
  | _ => underscoresFit false false s

/-- The number that a text without a sign stands for, below a limit. -/
def readNatural (limit : Nat) (s : Text) : Except LiteralFault Nat := do
  if s.isEmpty then throw .malformed
  let (base, digits) := splitBase s
  let value ← digitsBelow base limit 0 digits
  if s.contains (byte '_') && !underscoresOk s then throw .malformed
  return value

/-- The number of 64 bits that a text stands for. -/
def readWord (s : Text) : Except LiteralFault UInt64 := do
  return (← readNatural (Nat.pow 2 64) s).toUInt64

/-- The signed number of 64 bits that a text stands for, with an optional sign. -/
def readInteger (s : Text) : Except LiteralFault Int := do
  let negative := s.head? = some (byte '-')
  let digits := if negative || s.head? = some (byte '+') then s.drop 1 else s
  let value ← readNatural (Nat.pow 2 64) digits
  if negative then
    if Nat.pow 2 63 < value then throw .outOfRange else return -(value : Int)
  else if Nat.pow 2 63 ≤ value then throw .outOfRange else return value

/-- The truth value that a text stands for. -/
def readTruth? (s : Text) : Option Bool :=
  if ["1", "t", "T", "true", "TRUE", "True"].any (Text.ofString · = s) then some true
  else if ["0", "f", "F", "false", "FALSE", "False"].any (Text.ofString · = s) then some false
  else none

end Text

end ObjcLens
