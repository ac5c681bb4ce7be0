import ObjcLens.Calendar
import ObjcLens.Setting.Json

/-!
# Scalars of TOML documents

Strings, keys, numbers, dates and times. Each reader takes the text from a place on and gives the
value there and what follows it.

A string in double quotation marks has escapes, one in single quotation marks has none. Three marks
start a string of several lines, whose first line end is dropped.
-/

namespace ObjcLens

namespace Toml

/-- The bytes of the character at the start of a text; nothing if it is malformed or a control
character other than a tab or a line end. -/
def character? : Text → Option (Text × Text)
  | [] => none
  | b :: rest =>
    let r := Rune.decode b rest
    let isControl := (b < 0x20 && b != 0x09 && b != 0x0A && b != 0x0D) || b = 0x7F
    if r.isMalformed || isControl then none
    else some ((b :: rest).take r.width, rest.drop (r.width - 1))

/-- The text behind the line end at its start; a lone return is none. -/
def lineEnd? : Text → Option Text
  | 0x0A :: rest => some rest
  | 0x0D :: 0x0A :: rest => some rest
  | _ => none

/-- The text without blanks in front. -/
def skipBlanks (s : Text) : Text := s.dropWhile fun b => b = 0x20 || b = 0x09

/-- The text behind the comment at its start. The fuel bounds the number of characters. -/
def comment? : Nat → Text → Option Text
  | 0, s => some s
  | _, [] => some []
  | fuel + 1, s =>
    if (lineEnd? s).isSome then some s
    else if s.head? = some 0x0D then none
    else do
      let (_, rest) ← character? s
      comment? fuel rest

/-- The text behind a comment, if there is one at its start. -/
def skipComment? (s : Text) : Option Text :=
  match s with
  | 0x23 :: rest => comment? (rest.length + 1) rest
  | _ => some s

/-- The string up to a closing single quotation mark, and what follows it. -/
def literal? : Nat → Text → Option (Text × Text)
  | 0, _ => none
  | fuel + 1, s =>
    match s with
    | 0x27 :: rest => some ([], rest)
    | b :: _ =>
      if b = 0x0A || b = 0x0D then none
      else do
        let (shown, rest) ← character? s
        let (tail, after) ← literal? fuel rest
        return (shown ++ tail, after)
    | [] => none

/-- What an escape letter stands for. -/
def escaped? (letter : UInt8) : Option UInt8 :=
  match Char.ofNat letter.toNat with
  | '"' => some 0x22
  | '\\' => some 0x5C
  | 'b' => some 0x08
  | 'e' => some 0x1B
  | 'f' => some 0x0C
  | 'n' => some 0x0A
  | 'r' => some 0x0D
  | 't' => some 0x09
  | _ => none

/-- What the escape behind a backslash stands for, and what follows it. -/
def escape? : Text → Option (Text × Text)
  | [] => none
  | letter :: rest =>
    let digits : Option Nat :=
      if letter = byte 'u' then some 4 else if letter = byte 'U' then some 8 else none
    match digits with
    | some count => do
      let (code, after) ← Text.takeHex? count rest
      if 0x10FFFF < code || (0xD800 ≤ code && code < 0xE000) then none
      else some (Rune.encode code, after)
    | none => (escaped? letter).map fun b => ([b], rest)

/-- The string up to a closing double quotation mark, and what follows it. -/
def basic? : Nat → Text → Option (Text × Text)
  | 0, _ => none
  | fuel + 1, s =>
    match s with
    | 0x22 :: rest => some ([], rest)
    | 0x5C :: rest => do
      let (shown, rest) ← escape? rest
      let (tail, after) ← basic? fuel rest
      return (shown ++ tail, after)
    | b :: _ =>
      if b = 0x0A || b = 0x0D then none
      else do
        let (shown, rest) ← character? s
        let (tail, after) ← basic? fuel rest
        return (shown ++ tail, after)
    | [] => none

/-- The text behind blanks and a line end, and behind all blanks and line ends that follow them;
nothing if something else stands on the line. -/
def skipFold? (s : Text) : Option Text :=
  (lineEnd? (skipBlanks s)).map fun rest =>
    rest.dropWhile fun b => b = 0x20 || b = 0x09 || b = 0x0A || b = 0x0D

/-- Every return of a text is followed by the end of a line. -/
def returnsPaired : Text → Bool
  | [] => true
  | [b] => b != 0x0D
  | b :: c :: rest => (b != 0x0D || c = 0x0A) && returnsPaired (c :: rest)

/-- The string of several lines up to three closing quotation marks, and what follows it. Up to two
more marks in front of them belong to the string. Escapes are read if there are any. -/
def longString? (mark : UInt8) (escapes : Bool) : Nat → Text → Option (Text × Text)
  | 0, _ => none
  | fuel + 1, s =>
    let marks := s.takeWhile (· = mark)
    if 6 ≤ marks.length then none
    else if 3 ≤ marks.length then some (marks.drop 3, s.drop marks.length)
    else match s with
      | [] => none
      | b :: rest =>
        if escapes && b = 0x5C then do
          let (shown, rest) ← match skipFold? rest with
            | some after =>
              let folded := rest.take (rest.length - after.length)
              if returnsPaired folded then some (([] : Text), after) else none
            | none => escape? rest
          let (tail, after) ← longString? mark escapes fuel rest
          return (shown ++ tail, after)
        else if b = 0x0D && rest.head? != some 0x0A then none
        else do
          let (shown, rest) ← character? s
          let (tail, after) ← longString? mark escapes fuel rest
          return (shown ++ tail, after)

/-- The string at the start of a text, and what follows it. Only values can have several lines. -/
def string? (severalLines : Bool) (s : Text) : Option (Text × Text) :=
  let fuel := s.length + 1
  let body (rest : Text) : Text := (lineEnd? rest).getD rest
  match s with
  | 0x22 :: 0x22 :: 0x22 :: rest =>
    if severalLines then longString? 0x22 true fuel (body rest)
    else some ([], 0x22 :: rest)
  | 0x27 :: 0x27 :: 0x27 :: rest =>
    if severalLines then longString? 0x27 false fuel (body rest)
    else some ([], 0x27 :: rest)
  | 0x22 :: rest => basic? fuel rest
  | 0x27 :: rest => literal? fuel rest
  | _ => none

/-- The byte can stand in a bare key. -/
def isBare (b : UInt8) : Bool :=
  Text.isDigit b || Text.isLetter b || b = byte '-' || b = byte '_'

/-- The part of a key at the start of a text, and what follows it. -/
def keyPart? (s : Text) : Option (Text × Text) :=
  let bare := s.takeWhile isBare
  if bare.isEmpty then string? false s else some (bare, s.drop bare.length)

/-- The parts of a key, which points separate, and what follows the key and blanks. The fuel bounds
the number of parts. -/
def key? : Nat → Text → Option (List Text × Text)
  | 0, _ => none
  | fuel + 1, s => do
    let (part, rest) ← keyPart? s
    match skipBlanks rest with
    | 0x2E :: more =>
      let (parts, after) ← key? fuel (skipBlanks more)
      return (part :: parts, after)
    | after => return ([part], after)

/-! ## Numbers -/

/-- The digits without underscores, each of which stands between two digits. -/
def withoutUnderscores? (s : Text) : Option Text :=
  let isPlain (b : UInt8) : Bool := Text.isDigit b || Text.isLetter b
  let fits (before after : Option UInt8) : Bool := before.any isPlain && after.any isPlain
  let places := (List.range s.length).filter fun i => s[i]? = some (byte '_')
  if places.all fun i => fits s[i - 1]? s[i + 1]? then some (s.filter (· != byte '_'))
  else none

/-- The whole number of 64 bits that digits in a base stand for. -/
def wholeIn? (base : Nat) (negative : Bool) (digits : Text) : Option SettingValue := do
  if digits.isEmpty then none
  let limit := Nat.pow 2 63 + (if negative then 1 else 0)
  match Text.digitsBelow base limit 0 digits with
  | .ok value => some (.whole (if negative then -(value : Int) else value))
  | .error _ => none

/-- The text without its sign, and whether that is a minus sign. -/
def splitSign (s : Text) : Bool × Text :=
  match s with
  | 0x2D :: rest => (true, rest)
  | 0x2B :: rest => (false, rest)
  | _ => (false, s)

/-- The whole number that a decimal literal stands for. It has no leading zeros. -/
def decimal? (s : Text) : Option SettingValue := do
  let (negative, digits) := splitSign s
  let digits ← withoutUnderscores? digits
  if digits.head? = some (byte '0') && 1 < digits.length then none
  wholeIn? 10 negative digits

/-- The number that a literal with a point or an exponent stands for. Digits stand on both sides of
the point, and the whole part has no leading zeros. -/
def real? (s : Text) : Option SettingValue := do
  let (negative, body) := splitSign s
  if body = Text.ofString "inf" then return .real (.infinite negative)
  if body = Text.ofString "nan" then return .real .nan
  let digits ← withoutUnderscores? body
  let letterFits := (List.range body.length).all fun i =>
    body[i]? != some (byte '_') ||
      !([body[i - 1]?, body[i + 1]?].any fun b => b.any Text.isLetter)
  let whole := digits.takeWhile Text.isDigit
  let rest := digits.drop whole.length
  let pointFits := rest.head? != some (byte '.') || (rest.drop 1).head?.any Text.isDigit
  if !letterFits || whole.isEmpty || !pointFits then none
  if whole.head? = some (byte '0') && 1 < whole.length then none
  let value ← Binary64.ofLiteral? ((if negative then [0x2D] else []) ++ digits)
  return .real value

/-- The base that the letter behind a zero tells, which is in lower case. -/
def baseOf? (letter : UInt8) : Option Nat :=
  if letter = byte 'x' then some 16
  else if letter = byte 'o' then some 8
  else if letter = byte 'b' then some 2
  else none

/-- The bytes of a number and what follows them, and whether it has a point or an exponent. The
words for what is not finite end a number. The fuel bounds the number of bytes. -/
def numberSpan? : Nat → Bool → Text → Option (Text × Bool × Text)
  | 0, _, _ => none
  | _, isReal, [] => some ([], isReal, [])
  | fuel + 1, isReal, b :: rest =>
    if Text.isDigit b || b = byte '+' || b = byte '-' || b = byte '_' then
      (numberSpan? fuel isReal rest).map fun (span, isReal, after) => (b :: span, isReal, after)
    else if b = byte '.' || b = byte 'e' || b = byte 'E' then
      (numberSpan? fuel true rest).map fun (span, isReal, after) => (b :: span, isReal, after)
    else if b = byte 'i' || b = byte 'n' then
      let word : Text := (b :: rest).take 3
      if word = Text.ofString "inf" || word = Text.ofString "nan" then
        some (word, true, rest.drop 2)
      else none
    else some ([], isReal, b :: rest)

/-- The number at the start of a text, and what follows it. -/
def number? (s : Text) : Option (SettingValue × Text) :=
  let second := s[1]?.getD 0
  let isShort := s.length ≤ 2 || s.head? != some (byte '0') ||
    [byte '.', byte 'e', byte 'E'].contains second
  if isShort then do
    let (span, isReal, after) ← numberSpan? (s.length + 1) false s
    if span.isEmpty then none
    let value ← if isReal then real? span else decimal? span
    return (value, after)
  else match baseOf? second with
    | none => some (.whole 0, s.drop 1)
    | some base => do
      let isDigit (b : UInt8) : Bool := b = byte '_' || (Text.digitValue? b).any (· < base)
      let digits := (s.drop 2).takeWhile isDigit
      let value ← wholeIn? base false (← withoutUnderscores? digits)
      return (value, s.drop (2 + digits.length))

/-! ## Dates and times -/

/-- The number that decimal digits stand for; nothing if there are others. -/
def digits? (s : Text) : Option Nat :=
  if s.all Text.isDigit then some (Text.digitsValue s) else none

/-- The date that ten bytes tell. -/
def date? (s : Text) : Option Date := do
  if s.length ≠ 10 || s[4]? != some (byte '-') || s[7]? != some (byte '-') then none
  let date : Date := ⟨← digits? (s.take 4), ← digits? ((s.drop 5).take 2), ← digits? (s.drop 8)⟩
  if date.isReal then some date else none

/-- The time at the start of a text, and what follows it. Digits beyond the ninth of a fraction are
dropped. -/
def clock? (s : Text) : Option (Clock × Text) := do
  if s.length < 8 || s[2]? != some (byte ':') || s[5]? != some (byte ':') then none
  let hour ← digits? (s.take 2)
  let minute ← digits? ((s.drop 3).take 2)
  let second ← digits? ((s.drop 6).take 2)
  if 23 < hour || 59 < minute || 60 < second then none
  match s.drop 8 with
  | 0x2E :: rest =>
    let fraction := rest.takeWhile Text.isDigit
    if fraction.isEmpty then none
    return (⟨hour, minute, second, fraction.take 9⟩, rest.drop fraction.length)
  | rest => return (⟨hour, minute, second, []⟩, rest)

/-- The date and the time at the start of a text, and what follows them. -/
def dateAndClock? (s : Text) : Option (Date × Clock × Text) := do
  let date ← date? (s.take 10)
  match s.drop 10 with
  | separator :: rest =>
    if separator = byte 'T' || separator = byte 't' || separator = byte ' ' then
      let (clock, after) ← clock? rest
      return (date, clock, after)
    else none
  | [] => none

/-- The difference from universal time in minutes that a text tells; none is the same as the
letter. -/
def zone? (s : Text) : Option (Option Int) := do
  match s with
  | [letter] => if letter = byte 'Z' || letter = byte 'z' then return none else none
  | sign :: rest =>
    if rest.length ≠ 5 || rest[2]? != some (byte ':') then none
    let hours ← digits? (rest.take 2)
    let minutes ← digits? (rest.drop 3)
    if 23 < hours || 59 < minutes then none
    let total : Int := hours * 60 + minutes
    if total = 0 && (sign = byte '+' || sign = byte '-') then return none
    else if sign = byte '+' then return some total
    else if sign = byte '-' then return some (-total)
    else none
  | [] => none

/-- What the bytes of a date or a time hold. -/
structure MomentParts where
  /-- A dash was seen. -/
  hasDate : Bool := false
  /-- A mark of a time was seen. -/
  hasClock : Bool := false
  /-- A mark of a zone was seen. -/
  hasZone : Bool := false
  /-- A blank was seen. -/
  hasBlank : Bool := false

/-- The bytes of a date or a time, what they hold, and what follows them. The numbers are the fuel,
which bounds the bytes, and the number of bytes in front. -/
def momentSpan : Nat → Nat → MomentParts → Text → Text × MomentParts × Text
  | 0, _, parts, s => ([], parts, s)
  | _, _, parts, [] => ([], parts, [])
  | fuel + 1, i, parts, b :: rest =>
    let take (count : Nat) (parts : MomentParts) : Text × MomentParts × Text :=
      let taken := (b :: rest).take count
      let (span, parts, after) := momentSpan fuel (i + count) parts ((b :: rest).drop count)
      (taken ++ span, parts, after)
    if Text.isDigit b then take 1 parts
    else if b = byte '-' then
      take 1 { parts with hasDate := true, hasZone := parts.hasZone || 8 ≤ i }
    else if [byte 'T', byte 't', byte ':', byte '.'].contains b then
      take 1 { parts with hasClock := true }
    else if [byte '+', byte 'Z', byte 'z'].contains b then take 1 { parts with hasZone := true }
    else if b = byte ' ' && !parts.hasBlank && rest.head?.any Text.isDigit then
      take 3 { parts with hasBlank := true, hasClock := true }
    else ([], parts, b :: rest)

/-- The date or the time that bytes tell. -/
def moment? (parts : MomentParts) (span : Text) : Option Text := do
  if !parts.hasClock then return (← date? span).text
  else if !parts.hasDate then
    let (clock, rest) ← clock? span
    if rest.isEmpty then return clock.text else none
  else
    let (date, clock, rest) ← dateAndClock? span
    if parts.hasZone then return ({ date, clock, zone := ← zone? rest } : Moment).text
    else if rest.isEmpty then return date.text ++ "T" ++ clock.text
    else none

/-- The text starts like a date or a time: with four digits and a dash or two digits and a colon. -/
def startsMoment (s : Text) : Bool :=
  let count := (s.takeWhile Text.isDigit).length
  3 ≤ s.length &&
    ((count = 2 && s[2]? = some (byte ':')) || (count = 4 && s[4]? = some (byte '-')))

/-- The number, the date or the time at the start of a text, and what follows it. -/
def numberOrMoment? (s : Text) : Option (SettingValue × Text) :=
  if startsMoment s then do
    let (span, parts, after) := momentSpan (s.length + 1) 0 {} s
    return (.moment (← moment? parts span), after)
  else number? s

end Toml

end ObjcLens
