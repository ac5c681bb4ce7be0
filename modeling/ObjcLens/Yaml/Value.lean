import ObjcLens.Calendar
import ObjcLens.Setting.Value
import ObjcLens.Text.Base64
import ObjcLens.Yaml.Node

/-!
# Values of YAML scalars

The form of a plain scalar tells what it is: nothing, a truth value, a number, a moment, or else a
text. A tag can tell the same, and then the form has to agree with it.
-/

namespace ObjcLens

namespace Yaml

/-- The values that are written as words. -/
def words : List (List String × SettingValue) :=
  [(["true", "True", "TRUE"], .truth true), (["false", "False", "FALSE"], .truth false),
    (["", "~", "null", "Null", "NULL"], .null), ([".nan", ".NaN", ".NAN"], .real .nan),
    ([".inf", ".Inf", ".INF", "+.inf", "+.Inf", "+.INF"], .real (.infinite false)),
    (["-.inf", "-.Inf", "-.INF"], .real (.infinite true))]

/-- The value of a word. -/
def word? (s : Text) : Option SettingValue :=
  words.findSome? fun (spellings, value) =>
    if spellings.any (Text.ofString · = s) then some value else none

/-! ## Numbers -/

/-- The whole number of 64 bits, with or without a sign, that digits in a base stand for. -/
def wholeIn? (base : Nat) (s : Text) : Option SettingValue :=
  let negative := s.head? = some (byte '-')
  let isSigned := negative || s.head? = some (byte '+')
  let digits := if isSigned then s.drop 1 else s
  let limit := if negative then Nat.pow 2 63 + 1
    else if isSigned then Nat.pow 2 63 else Nat.pow 2 64
  if digits.isEmpty then none
  else match Text.digitsBelow base limit 0 digits with
    | .ok value => some (.whole (if negative then -(value : Int) else value))
    | .error _ => none

/-- The number whose base stands in front of its sign. -/
def basedNumber? (s : Text) : Option SettingValue :=
  match s with
  | 0x30 :: 0x62 :: digits => wholeIn? 2 digits
  | 0x30 :: 0x6F :: digits => wholeIn? 8 digits
  | _ => none

/-- The number that a text stands for. Underscores do not count. -/
def number? (s : Text) : Option SettingValue :=
  let plain := s.filter (· != byte '_')
  match Text.readInteger plain, Text.readWord plain, Binary64.ofLiteral? plain with
  | .ok value, _, _ => some (.whole value)
  | _, .ok value, _ => some (.whole value.toNat)
  | _, _, some value => some (.real value)
  | _, _, none => basedNumber? plain

/-- The number that a text with a point in front stands for. Underscores stand between digits. -/
def fraction? (s : Text) : Option SettingValue :=
  if Text.underscoresFit false false s then
    (Binary64.ofLiteral? (s.filter (· != byte '_'))).map .real
  else none

/-! ## Moments -/

/-- The number of one or two digits here, below a limit, and what follows it. -/
def short? (limit : Nat) (s : Text) : Option (Nat × Text) :=
  let digits := (s.take 2).takeWhile Text.isDigit
  let value := Text.digitsValue digits
  if digits.isEmpty || limit ≤ value then none else some (value, s.drop digits.length)

/-- The text behind a byte that it starts with. -/
def behind? (b : UInt8) (s : Text) : Option Text :=
  if s.head? = some b then some (s.drop 1) else none

/-- The date here, and what follows it. -/
def date? (s : Text) : Option (Date × Text) := do
  let year := s.takeWhile Text.isDigit
  if year.length ≠ 4 then none
  let (month, rest) ← short? 13 (← behind? (byte '-') (s.drop 4))
  let (day, rest) ← short? 100 (← behind? (byte '-') rest)
  let date : Date := ⟨Text.digitsValue year, month, day⟩
  if date.isReal then return (date, rest) else none

/-- The fraction of a second here, and what follows it. -/
def fractionDigits (s : Text) : Text × Text :=
  match s with
  | mark :: rest =>
    let digits := rest.takeWhile Text.isDigit
    if (mark = byte '.' || mark = byte ',') && !digits.isEmpty then
      (digits.take 9, rest.drop digits.length)
    else ([], s)
  | [] => ([], [])

/-- The time here, and what follows it. -/
def clock? (s : Text) : Option (Clock × Text) := do
  let (hour, rest) ← short? 24 s
  let (minute, rest) ← short? 60 (← behind? (byte ':') rest)
  let (second, rest) ← short? 60 (← behind? (byte ':') rest)
  let (fraction, rest) := fractionDigits rest
  return (⟨hour, minute, second, fraction⟩, rest)

/-- The difference from universal time in minutes that a text tells. -/
def zone? (s : Text) : Option (Option Int) := do
  match s with
  | [letter] => if letter = byte 'Z' then return none else none
  | sign :: rest =>
    let digits := rest.take 2 ++ rest.drop 3
    if rest.length ≠ 5 || rest[2]? != some (byte ':') || !digits.all Text.isDigit then none
    let hours := Text.digitsValue (rest.take 2)
    let minutes := Text.digitsValue (rest.drop 3)
    if 24 < hours || 60 < minutes then none
    let total : Int := hours * 60 + minutes
    if total = 0 && (sign = byte '+' || sign = byte '-') then return none
    else if sign = byte '+' then return some total
    else if sign = byte '-' then return some (-total)
    else none
  | [] => none

/-- The moment that a text tells: a date, or a date and a time with a letter and a zone or with
blanks between them. -/
def moment? (s : Text) : Option Moment := do
  let (date, rest) ← date? s
  match rest with
  | [] => return { date }
  | b :: more =>
    if b = byte 'T' || b = byte 't' then
      let (clock, rest) ← clock? more
      return { date, clock, zone := ← zone? rest }
    else if b = byte ' ' then
      let (clock, rest) ← clock? (more.dropWhile (· = byte ' '))
      if rest.isEmpty then return { date, clock } else none
    else none

/-! ## Scalars -/

/-- The value that the form of a text tells. A moment counts only if one is looked for. -/
def plainValue (wantsMoment : Bool) (s : Text) : SettingValue :=
  let isNumeric (b : UInt8) : Bool := Text.isDigit b || b = byte '+' || b = byte '-'
  match word? s, s.head? with
  | some value, _ => value
  | none, none => .text s
  | none, some b =>
    if b = byte '.' then (fraction? s).getD (.text s)
    else if isNumeric b then
      match (if wantsMoment then moment? s else none) with
      | some moment => .moment moment.text
      | none => (number? s).getD (.text s)
    else .text s

/-- The value of a text with a tag; nothing if its form does not agree with the tag. A tag without
a meaning does not matter, and the text is one. -/
def taggedValue? (tag s : Text) : Option SettingValue :=
  let value := plainValue (tag = Text.ofString "!!timestamp") s
  if tag = Text.ofString "!!binary" then (Text.ofBase64? s).map .text
  else if tag = Text.ofString "!!null" then
    match value with
    | .null => some value
    | _ => none
  else if tag = Text.ofString "!!bool" then
    match value with
    | .truth _ => some value
    | _ => none
  else if tag = Text.ofString "!!int" then
    match value with
    | .whole _ => some value
    | _ => none
  else if tag = Text.ofString "!!float" then
    match value with
    | .real _ => some value
    | .whole n => if n < Nat.pow 2 63 then some (.real (Binary64.ofInt n)) else none
    | _ => none
  else if tag = Text.ofString "!!timestamp" then
    match value with
    | .moment _ => some value
    | _ => none
  else some (.text s)

/-- The value of a scalar. -/
def scalarValue? (tag : Option Text) (shown : Text) (isPlain : Bool) : Option SettingValue :=
  match tag with
  | some tag => taggedValue? tag shown
  | none => some (if isPlain then plainValue true shown else .text shown)

end Yaml

end ObjcLens
