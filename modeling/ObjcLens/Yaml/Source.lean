import ObjcLens.Text.Wide

/-!
# Characters of YAML documents

A document is written in bytes or in units of two bytes, which a mark in front tells. Control
characters other than tabs and line ends are refused, and so is malformed text, wherever it stands.

A `Reader` is a place in a document: the characters from there on, and the line and the column.
-/

namespace ObjcLens

namespace Yaml

/-- The code point can stand in a document. -/
def isAllowed (code : Nat) : Bool :=
  code = 0x09 || code = 0x0A || code = 0x0D || (0x20 ≤ code && code ≤ 0x7E) || code = 0x85 ||
    (0xA0 ≤ code && code ≤ 0xD7FF) || (0xE000 ≤ code && code ≤ 0xFFFD) ||
    (0x10000 ≤ code && code ≤ 0x10FFFF)

/-- The characters of a document; nothing if it is malformed or holds one that is refused. -/
def characters? (s : Text) : Option (List Char) := do
  let codes : List (Option Nat) := match Text.wideMark? s with
    | some (littleEndian, rest) =>
      let codes := Text.codesOfUnits (Text.units littleEndian rest)
      if rest.length % 2 = 1 then codes ++ [none] else codes
    | none =>
      (Rune.ofText ((Text.narrowMark? s).getD s)).map fun r =>
        if r.isMalformed then none else some r.code
  if codes.all fun code => code.any isAllowed then
    return codes.map fun code => Char.ofNat (code.getD 0)
  else none

/-- The UTF-8 bytes of characters. -/
def bytes (cs : List Char) : Text := cs.flatMap fun c => Rune.encode c.toNat

/-- The character is a blank. -/
def isBlank (c : Char) : Bool := c = ' ' || c = '\t'

/-- The character ends a line. -/
def isBreak (c : Char) : Bool :=
  [0x0A, 0x0D, 0x85, 0x2028, 0x2029].contains c.toNat

/-- The character is a letter, a digit, a dash or an underscore of ASCII. -/
def isWord (c : Char) : Bool := c.isAlphanum || c = '-' || c = '_'

/-- A place in a document. -/
structure Reader where
  /-- The characters from here on. -/
  rest : List Char
  /-- The number of characters in front. -/
  index : Nat := 0
  /-- The number of lines above. -/
  line : Nat := 0
  /-- The number of characters in front on the line. -/
  column : Nat := 0
  /-- Only blanks were read since a line ended. -/
  isFresh : Bool := false

namespace Reader

/-- The character here. -/
def peek (r : Reader) : Option Char := r.rest.head?

/-- The character that stands a number of characters further on. -/
def ahead (r : Reader) (count : Nat) : Option Char := r.rest[count]?

/-- The character is here. -/
def sees (r : Reader) (c : Char) : Bool := r.peek = some c

/-- A blank is here. -/
def seesBlank (r : Reader) : Bool := r.peek.any isBlank

/-- A line ends here. -/
def seesBreak (r : Reader) : Bool := r.peek.any isBreak

/-- A line or the document ends a number of characters further on. -/
def endsLine (r : Reader) (count : Nat) : Bool := (r.ahead count).all isBreak

/-- A blank stands or a line or the document ends a number of characters further on. -/
def endsWord (r : Reader) (count : Nat) : Bool :=
  (r.ahead count).all fun c => isBlank c || isBreak c

/-- The place behind the character here. -/
def skip (r : Reader) : Reader :=
  match r.rest with
  | [] => r
  | c :: rest =>
    { r with rest, index := r.index + 1, column := r.column + 1,
             isFresh := r.isFresh && isBlank c }

/-- The place behind a number of characters. -/
def skipMany (count : Nat) (r : Reader) : Reader :=
  match count with
  | 0 => r
  | count + 1 => skipMany count r.skip

/-- The place behind the line end here. -/
def skipBreak (r : Reader) : Reader :=
  let width := if r.sees '\r' && r.ahead 1 = some '\n' then 2 else 1
  if r.seesBreak then
    { rest := r.rest.drop width, index := r.index + width, line := r.line + 1, isFresh := true }
  else r

/-- What the line end here becomes in a text. Two of the characters that end lines stand for
themselves. -/
def breakText (r : Reader) : List Char :=
  match r.peek with
  | some c => if !isBreak c then [] else if 0x2028 ≤ c.toNat then [c] else ['\n']
  | none => []

/-- The characters from here on that pass a test, and the place behind them. -/
def takeWhile (r : Reader) (test : Char → Bool) : List Char × Reader :=
  let taken := r.rest.takeWhile test
  (taken, r.skipMany taken.length)

/-- The place behind the blanks here. -/
def skipBlanks (r : Reader) : Reader := (r.takeWhile isBlank).2

/-- The place where the line ends. -/
def skipToBreak (r : Reader) : Reader := (r.takeWhile fun c => !isBreak c).2

/-- Three characters at the start of a line that start or end a document are here. -/
def seesMark (r : Reader) (mark : Char) : Bool :=
  r.column = 0 && r.rest.take 3 = [mark, mark, mark] && r.endsWord 3

/-- The place up to which blanks and line ends are skipped. -/
def skipTo (index : Nat) : Nat → Reader → Reader
  | 0, r => r
  | fuel + 1, r =>
    if index ≤ r.index then r
    else skipTo index fuel (if r.seesBreak then r.skipBreak else r.skip)

/-- The place behind the comment here and those on the lines below it, with nothing but blanks and
empty lines between them. The fuel bounds their number. -/
def skipComments : Nat → Reader → Reader
  | 0, r => r
  | fuel + 1, r =>
    let r := r.skipToBreak
    let gap := (r.rest.take 512).takeWhile fun c => isBlank c || c = '\n' || c = '\r'
    if !gap.isEmpty && gap.length < 512 && r.ahead gap.length = some '#' then
      skipComments fuel (r.skipTo (r.index + gap.length) (gap.length + 1))
    else r

/-- The place behind a comment that follows on the same line. -/
def skipLineComment (r : Reader) : Reader :=
  let gap := (r.rest.take 512).takeWhile isBlank
  if !r.isFresh && gap.length < 512 && r.ahead gap.length = some '#' then r.skipToBreak else r

end Reader

end Yaml

end ObjcLens
