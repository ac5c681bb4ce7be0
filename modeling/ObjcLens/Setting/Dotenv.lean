import ObjcLens.Setting.Value
import ObjcLens.Text.Wide

/-!
# Lists of variables

A document can be a list of variables, one `NAME=value` a line; a colon and a blank can stand in
place of the sign. A value in quotation marks can go on over several lines. A value that is not in
single quotation marks can name other variables behind a dollar sign: those of the environment, or
else those of the lines above.

`Dotenv.read?` reads such a document.
-/

namespace ObjcLens

namespace Text

/-- The characters of a text with their bytes. -/
def characters (s : Text) : List (Nat × Text) :=
  ((Rune.ofText s).foldl (fun (state : List (Nat × Text) × Text) r =>
    ((r.code, state.2.take r.width) :: state.1, state.2.drop r.width)) ([], s)).1.reverse

/-- The text without white space at both ends. -/
def trimSpace (s : Text) : Text :=
  let isBlank (c : Nat × Text) : Bool := isSpace c.1
  let kept := ((s.characters.dropWhile isBlank).reverse.dropWhile isBlank).reverse
  kept.flatMap (·.2)

/-- The place of the last occurrence of a byte. -/
def lastPlace? (b : UInt8) (s : Text) : Option Nat :=
  (cutLast? b s).map fun (before, _) => before.length

/-- The lines of a text, which end with a return, a line feed or both. -/
def anyLines : Text → List Text
  | [] => []
  | b :: rest =>
    if b = 0x0D && rest.head? = some 0x0A then anyLines rest
    else if b = 0x0A || b = 0x0D then [] :: anyLines rest
    else match anyLines rest with
      | [] => [[b]]
      | line :: lines => (b :: line) :: lines

end Text

namespace Dotenv

/-- Variables with their values. -/
abbrev Variables := List (Text × Text)

/-- The value of a variable. -/
def Variables.get? (v : Variables) (name : Text) : Option Text :=
  (v.find? fun entry => entry.1 = name).map (·.2)

/-- The variables with a value for one of them. -/
def Variables.put (v : Variables) (name value : Text) : Variables :=
  if (v.get? name).isSome then v.map fun entry => if entry.1 = name then (name, value) else entry
  else v ++ [(name, value)]

/-- The byte is a blank of a line. -/
def isBlank (b : UInt8) : Bool := b = 0x20 || b = 0x09 || b = 0x0A || b = 0x0C || b = 0x0D

/-- The quotation mark that a line leaves open. -/
def openQuote? (line : Text) : Option UInt8 := do
  let (before, after) ← (Text.cut? (byte '=') line).or (Text.cut? (byte ':') line)
  if before.isEmpty || after.isEmpty then none
  let value := Text.trimSpace after
  let quote ← value.head?
  if quote != byte '"' && quote != 0x27 then none
  match Text.lastPlace? quote (Text.trimSpace (value.drop 1)) with
  | some i => if value[i]? != some (byte '\\') then none else some quote
  | none => some quote

/-- The line together with those behind it up to one that closes a quotation mark, and the lines
behind that. -/
def closeQuote? (quote : UInt8) (line : Text) : List Text → Option (Text × List Text)
  | [] => none
  | next :: rest =>
    let line := line ++ 0x0A :: next
    match Text.lastPlace? quote next with
    | some i =>
      if 0 < i && next[i - 1]? = some (byte '\\') then closeQuote? quote line rest
      else some (line, rest)
    | none => closeQuote? quote line rest

/-- Only blanks and a comment are left of a line. -/
def isDone (s : Text) : Bool :=
  match s.dropWhile isBlank with
  | [] => true
  | b :: rest => b = byte '#' && !rest.contains 0x0A

/-- The value in quotation marks at the start of a text: the longest with nothing left behind it. -/
def quotedValue? (quote : UInt8) (s : Text) : Option Text :=
  let ends := ((List.range s.length).filter fun i => 0 < i && s[i]? = some quote).reverse
  (ends.find? fun i => isDone (s.drop (i + 1))).map fun i => s.take (i + 1)

/-- The value at the start of what is left of a line. -/
def valueAt? (s : Text) : Option Text :=
  let quoted : Option Text := match s with
    | 0x27 :: _ => quotedValue? 0x27 s
    | 0x22 :: _ => quotedValue? 0x22 s
    | _ => none
  let plain := s.takeWhile fun b => b != byte '#' && b != 0x0A
  quoted.or
    (if !plain.isEmpty && isDone (s.drop plain.length) then some plain
    else if isDone s then some []
    else none)

/-- The name and the value at the start of a line. -/
def assignment? (s : Text) : Option (Text × Text) := do
  let isNameByte (b : UInt8) : Bool :=
    Text.isDigit b || Text.isLetter b || b = byte '_' || b = byte '.'
  let name := s.takeWhile isNameByte
  if name.isEmpty then none
  let rest := s.drop name.length
  let behindSign : Option Text := match rest.dropWhile isBlank with
    | 0x3D :: after => valueAt? (after.dropWhile isBlank)
    | _ => none
  let behindColon : Option Text := match rest with
    | 0x3A :: after =>
      (List.range (after.takeWhile isBlank).length).findSome? fun i =>
        valueAt? (after.drop (i + 1))
    | _ => none
  return (name, ← behindSign.or behindColon)

/-- The name and the value of a line, which can start with a word for shells. -/
def line? (s : Text) : Option (Text × Text) :=
  let s := s.dropWhile isBlank
  let word : Text := "export"
  let rest := s.drop word.length
  let behindWord : Option (Text × Text) :=
    if word.isPrefixOf s && rest.head?.any isBlank then assignment? (rest.dropWhile isBlank)
    else none
  behindWord.or (assignment? s)

/-- The text with each backslash dropped that does not stand in front of a dollar sign; what it
stands in front of is kept. -/
def unescape : Text → Text
  | [] => []
  | [b] => [b]
  | b :: c :: rest =>
    if b = byte '\\' && c != byte '$' then c :: unescape rest else b :: unescape (c :: rest)

/-- The text with each variable replaced by its value; a backslash keeps a dollar sign. The fuel
bounds the number of bytes. -/
def expand (value : Text → Text) : Nat → Text → Text
  | 0, s => s
  | _, [] => []
  | fuel + 1, b :: rest =>
    if b = byte '\\' && rest.head? = some (byte '$') then
      rest.take 1 ++ skipName fuel (rest.drop 1)
    else if b = byte '$' then
      let opening := rest.takeWhile (· = byte '\x7b') |>.take 1
      let name := (rest.drop opening.length).takeWhile isNameByte
      let after := rest.drop (opening.length + name.length)
      let closing := after.takeWhile (· = byte '\x7d') |>.take 1
      let shown := if name.isEmpty then b :: opening ++ closing else value name
      shown ++ expand value fuel (after.drop closing.length)
    else b :: expand value fuel rest
where
  isNameByte (b : UInt8) : Bool := Text.isDigit b || (0x41 ≤ b && b ≤ 0x5A) || b = byte '_'
  skipName (fuel : Nat) (s : Text) : Text :=
    let opening := s.takeWhile (· = byte '\x7b') |>.take 1
    let name := (s.drop opening.length).takeWhile isNameByte
    let after := s.drop (opening.length + name.length)
    let closing := after.takeWhile (· = byte '\x7d') |>.take 1
    opening ++ name ++ closing ++ expand value fuel (after.drop closing.length)

/-- The value that a line tells: without its quotation marks and with what it names. -/
def valueOf (lookup : Text → Text) (shown : Text) : Text :=
  let shown := Text.trimSpace shown
  let isQuoted (quote : UInt8) : Bool :=
    2 ≤ shown.length && shown.head? = some quote && shown.getLast? = some quote
  let inner := (shown.drop 1).dropLast
  if isQuoted 0x27 then inner
  else
    let value := if isQuoted 0x22 then
        unescape (Text.replaceAll "\\r" "\r" (Text.replaceAll "\\n" "\n" inner))
      else shown
    expand lookup (value.length + 1) value

/-- The variables behind all lines. The fuel bounds the number of lines. -/
def lines? (environment : Variables) : Nat → Variables → List Text → Option Variables
  | 0, known, _ => some known
  | _, known, [] => some known
  | fuel + 1, known, raw :: rest =>
    let line := Text.trimSpace raw
    if line.isEmpty || line.head? = some (byte '#') then lines? environment fuel known rest
    else do
      let (line, rest) ← match openQuote? line with
        | some quote => closeQuote? quote line rest
        | none => some (line, rest)
      let (name, shown) ← line? line
      let lookup (name : Text) : Text :=
        ((environment.get? name).or (known.get? name)).getD []
      lines? environment fuel (known.put name (valueOf lookup shown)) rest

/-- The bytes of a document without the mark in front. -/
def plainBytes (s : Text) : Text :=
  match Text.wideMark? s, Text.narrowMark? s with
  | some (littleEndian, rest), _ =>
    let codes := Text.codesOfUnits (Text.units littleEndian rest)
    let shown := codes.flatMap fun code => Rune.encode (code.getD Rune.replacement)
    if rest.length % 2 = 1 then shown ++ Rune.encode Rune.replacement else shown
  | none, some rest => (Rune.ofText rest).flatMap fun r => Rune.encode r.code
  | none, none => s

/-- The settings that a text stands for, in an environment. -/
def read? (environment : Variables) (s : Text) : Option SettingValue := do
  let lines := Text.anyLines (plainBytes s)
  let known ← lines? environment (lines.length + 1) [] lines
  return .entries (known.map fun (name, value) => (name, .text value))

end Dotenv

end ObjcLens
