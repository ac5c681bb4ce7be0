import ObjcLens.Setting.Value

/-!
# JSON documents

`Json.read?` reads the value that a whole text stands for. The grammar is the strict one: no
comments, no spare commas, no control characters in strings. A malformed byte in a string and half
of a surrogate pair become the replacement character. Of several members with one name the last
one counts.
-/

namespace ObjcLens

namespace Text

/-- The number that hexadecimal digits stand for. -/
def hexValue? (digits : Text) : Option Nat :=
  digits.foldl (fun value b => do
    let d ← digitValue? b
    if d < 16 then return (← value) * 16 + d else none) (some 0)

/-- The number that the first hexadecimal digits of a text stand for, and what follows them. -/
def takeHex? (count : Nat) (s : Text) : Option (Nat × Text) :=
  if s.length < count then none
  else (hexValue? (s.take count)).map fun value => (value, s.drop count)

end Text

namespace Json

/-- How many collections can stand inside each other. -/
def deepest : Nat := 10000

/-- The text without blanks and line ends in front. -/
def skipBlanks (s : Text) : Text :=
  s.dropWhile fun b => b = 0x20 || b = 0x09 || b = 0x0A || b = 0x0D

/-- What an escape letter stands for. -/
def escaped? (letter : UInt8) : Option UInt8 :=
  match Char.ofNat letter.toNat with
  | '"' => some 0x22
  | '\\' => some 0x5C
  | '/' => some 0x2F
  | 'b' => some 0x08
  | 'f' => some 0x0C
  | 'n' => some 0x0A
  | 'r' => some 0x0D
  | 't' => some 0x09
  | _ => none

/-- The code point of two halves of a surrogate pair. -/
def pair? (first second : Nat) : Option Nat :=
  if 0xD800 ≤ first && first < 0xDC00 && 0xDC00 ≤ second && second < 0xE000 then
    some (0x10000 + (first - 0xD800) * 0x400 + (second - 0xDC00))
  else none

/-- The code point of an escape whose digits start the text, and what follows it. The second half
of a pair is taken along. -/
def codePoint? (s : Text) : Option (Nat × Text) := do
  let (first, rest) ← Text.takeHex? 4 s
  if first < 0xD800 || 0xE000 ≤ first then return (first, rest)
  let joined : Option (Nat × Text) := match rest with
    | 0x5C :: 0x75 :: more => do
      let (second, after) ← Text.takeHex? 4 more
      return (← pair? first second, after)
    | _ => none
  return joined.getD (Rune.replacement, rest)

/-- The string up to its closing quotation mark, and what follows it. The fuel bounds the number of
bytes. -/
def string? : Nat → Text → Option (Text × Text)
  | 0, _ => none
  | _, [] => none
  | fuel + 1, b :: rest =>
    if b = byte '"' then some ([], rest)
    else if b < 0x20 then none
    else if b = byte '\\' then
      match rest with
      | [] => none
      | 0x75 :: more => do
        let (code, after) ← codePoint? more
        let (tail, after) ← string? fuel after
        return (Rune.encode code ++ tail, after)
      | letter :: more => do
        let c ← escaped? letter
        let (tail, after) ← string? fuel more
        return (c :: tail, after)
    else do
      let r := Rune.decode b rest
      let (tail, after) ← string? fuel (rest.drop (r.width - 1))
      return (Rune.encode r.code ++ tail, after)

/-- The digits at the start of a text and what follows them; nothing if there are none. -/
def digits? (s : Text) : Option (Text × Text) :=
  let digits := s.takeWhile Text.isDigit
  if digits.isEmpty then none else some (digits, s.drop digits.length)

/-- The text behind a number. Its whole part has no leading zeros, and digits stand on both sides of
a point. -/
def afterNumber? (s : Text) : Option Text := do
  let (whole, rest) ← digits? (if s.head? = some (byte '-') then s.drop 1 else s)
  if whole.head? = some (byte '0') && 1 < whole.length then none
  let rest ← match rest with
    | 0x2E :: more => (digits? more).map (·.2)
    | _ => some rest
  match rest with
  | letter :: more =>
    if letter = byte 'e' || letter = byte 'E' then
      let signed := more.head? = some (byte '+') || more.head? = some (byte '-')
      (digits? (if signed then more.drop 1 else more)).map (·.2)
    else some rest
  | [] => some []

/-- The number at the start of a text, and what follows it. -/
def number? (s : Text) : Option (SettingValue × Text) := do
  let after ← afterNumber? s
  let value ← Binary64.ofLiteral? (s.take (s.length - after.length))
  return (.real value, after)

/-- The value of a word at the start of a text, and what follows it. -/
def word? (s : Text) : Option (SettingValue × Text) :=
  let words : List (String × SettingValue) :=
    [("null", .null), ("true", .truth true), ("false", .truth false)]
  words.findSome? fun (word, value) =>
    let word := Text.ofString word
    if word.isPrefixOf s then some (value, s.drop word.length) else none

mutual

/-- The value at the start of a text, and what follows it. The fuel bounds the number of steps, and
the second number the collections that can still be opened. -/
def value? : Nat → Nat → Text → Option (SettingValue × Text)
  | 0, _, _ => none
  | fuel + 1, depth, s =>
    match skipBlanks s with
    | 0x22 :: rest => (string? (rest.length + 1) rest).map fun (t, after) => (.text t, after)
    | 0x5B :: rest =>
      if depth = 0 then none
      else match skipBlanks rest with
        | 0x5D :: after => some (.list [], after)
        | _ => (items? fuel (depth - 1) rest).map fun (items, after) => (.list items, after)
    | 0x7B :: rest =>
      if depth = 0 then none
      else match skipBlanks rest with
        | 0x7D :: after => some (.entries [], after)
        | _ =>
          (members? fuel (depth - 1) [] rest).map fun (named, after) => (.entries named, after)
    | other => (word? other).or (number? other)

/-- The items up to a closing bracket, and what follows it. -/
def items? : Nat → Nat → Text → Option (List SettingValue × Text)
  | 0, _, _ => none
  | fuel + 1, depth, s => do
    let (first, after) ← value? fuel depth s
    match skipBlanks after with
    | 0x2C :: rest =>
      let (items, after) ← items? fuel depth rest
      return (first :: items, after)
    | 0x5D :: rest => return ([first], rest)
    | _ => none

/-- The members up to a closing brace, behind those that are known, and what follows it. -/
def members? : Nat → Nat → List (Text × SettingValue) → Text →
    Option (List (Text × SettingValue) × Text)
  | 0, _, _, _ => none
  | fuel + 1, depth, known, s => do
    let rest ← match skipBlanks s with
      | 0x22 :: rest => some rest
      | _ => none
    let (name, after) ← string? (rest.length + 1) rest
    let rest ← match skipBlanks after with
      | 0x3A :: rest => some rest
      | _ => none
    let (value, after) ← value? fuel depth rest
    let known := SettingValue.putEntry known name value
    match skipBlanks after with
    | 0x2C :: rest => members? fuel depth known rest
    | 0x7D :: rest => return (known, rest)
    | _ => none

end

/-- The value that a text stands for. -/
def read? (s : Text) : Option SettingValue := do
  let (value, after) ← value? (2 * s.length + 2) deepest s
  if (skipBlanks after).isEmpty then some value else none

end Json

end ObjcLens
