import ObjcLens.Binary64
import ObjcLens.Text.Literal
import ObjcLens.Text.Rune

/-!
# Values of settings

What a setting can be, wherever it comes from: the command line, the environment or a document.
The type that a setting needs is not always the type of its value, so every value can be read as
a truth value, a number, a text or a list. A value that cannot be read so counts as nothing.
-/

namespace ObjcLens

/-- The value of a setting. -/
inductive SettingValue where
  /-- No value. -/
  | null
  /-- A truth value. -/
  | truth (value : Bool)
  /-- A whole number. -/
  | whole (value : Int)
  /-- A number that need not be whole. -/
  | real (value : Binary64)
  /-- A date, a time or both, as it is shown. -/
  | moment (shown : Text)
  /-- A text. -/
  | text (value : Text)
  /-- A list of values. -/
  | list (items : List SettingValue)
  /-- Named values. -/
  | entries (named : List (Text × SettingValue))
deriving Inhabited, Repr

namespace Text

/-- The code point is white space. -/
def isSpace (code : Nat) : Bool :=
  (9 ≤ code && code ≤ 13) || [0x20, 0x85, 0xA0, 0x1680, 0x2028, 0x2029, 0x202F, 0x205F,
    0x3000].contains code || (0x2000 ≤ code && code ≤ 0x200A)

/-- The words of characters, with the bytes of the word that is open, the last one first. -/
def wordsAux : Text → List Rune → Text → List Text
  | _, [], word => if word.isEmpty then [] else [word.reverse]
  | s, r :: rest, word =>
    let after := s.drop r.width
    if isSpace r.code then
      (if word.isEmpty then [] else [word.reverse]) ++ wordsAux after rest []
    else wordsAux after rest ((s.take r.width).reverse ++ word)

/-- The words of a text, which are separated by white space. -/
def words (s : Text) : List Text := wordsAux s (Rune.ofText s) []

/-- A whole number without the zeros behind its decimal point. -/
def dropZeroPlaces (s : Text) : Text :=
  let zeros := s.reverse.takeWhile (· = byte '0')
  match s.reverse.drop zeros.length with
  | point :: rest => if point = byte '.' && !zeros.isEmpty then rest.reverse else s
  | [] => s

end Text

namespace Binary64

/-- The whole part as a signed number of 64 bits; the least one stands for what does not fit. -/
def toSigned (x : Binary64) : Int :=
  let least : Int := -(Nat.pow 2 63 : Nat)
  match x.truncate? with
  | some whole => if least ≤ whole && whole < Nat.pow 2 63 then whole else least
  | none => least

/-- The whole part as a number of 64 bits. Nothing is left of a negative one, and what does not fit
becomes the middle of the range. -/
def toWord (x : Binary64) : UInt64 :=
  let middle : UInt64 := (Nat.pow 2 63).toUInt64
  match x with
  | .infinite true => 0
  | _ => match x.truncate? with
    | some whole => if whole < Nat.pow 2 64 then whole.toNat.toUInt64 else middle
    | none => middle

end Binary64

namespace SettingValue

/-- The value as a truth value. Numbers other than zero are true. -/
def toTruth : SettingValue → Bool
  | .truth value => value
  | .whole value => value ≠ 0
  | .real value => value.isNonzero
  | .text value => (Text.readTruth? value).getD false
  | _ => false

/-- The value as a whole number. -/
def toWhole : SettingValue → Int
  | .truth value => if value then 1 else 0
  | .whole value => if value < Nat.pow 2 63 then value else value - Nat.pow 2 64
  | .real value => value.toSigned
  | .text value => (Text.readInteger (Text.dropZeroPlaces value)).toOption.getD 0
  | _ => 0

/-- The value as a number of 64 bits. A negative one counts as nothing. -/
def toWord : SettingValue → UInt64
  | .truth value => if value then 1 else 0
  | .whole value => value.toNat.toUInt64
  | .real value => value.toWord
  | .text value => (Text.readWord (Text.dropZeroPlaces value)).toOption.getD 0
  | _ => 0

/-- The value as a text. Lists and named values have none. -/
def toText? : SettingValue → Option Text
  | .null => some []
  | .truth value => some (if value then Text.ofString "true" else Text.ofString "false")
  | .whole value => some (Text.decInt value)
  | .real value => some value.text
  | .moment shown => some shown
  | .text value => some value
  | _ => none

/-- The value as a text, empty if it has none. -/
def toText (v : SettingValue) : Text := v.toText?.getD []

/-- The value as a list of texts. A text is split into its words; any other single value is a
list of its own. -/
def toTexts : SettingValue → List Text
  | .null => []
  | .text value => Text.words value
  | .list items => items.map (·.toText)
  | value => value.toText?.toList

/-- The value with a name; nothing if it is missing or empty. -/
def entry? (name : Text) : SettingValue → Option SettingValue
  | .entries named =>
    match named.find? fun entry => entry.1 = name with
    | some (_, .null) | none => none
    | some (_, value) => some value
  | _ => none

/-- Entries with a further one, which takes the place of one with the same name. -/
def putEntry (named : List (Text × SettingValue)) (name : Text) (value : SettingValue) :
    List (Text × SettingValue) :=
  if named.any fun entry => entry.1 = name then
    named.map fun entry => if entry.1 = name then (name, value) else entry
  else named ++ [(name, value)]

/-- Entries with a name each: of several with one name the last one. -/
def distinct (named : List (Text × SettingValue)) : List (Text × SettingValue) :=
  named.foldl (fun kept entry => putEntry kept entry.1 entry.2) []

/-- The value has names. -/
def hasEntries : SettingValue → Bool
  | .entries _ => true
  | _ => false

end SettingValue

end ObjcLens
