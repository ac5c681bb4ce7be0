import ObjcLens.Text.Literal
import ObjcLens.Yaml.Source

/-!
# Written scalars of YAML documents

A scalar is written plainly, in single or double quotation marks, or as a block of lines. Each
reader takes a place in a document and gives the text of the scalar there and the place behind it, or
nothing if the scalar is malformed.

Where lines are joined, one line end becomes a blank, and of several the first one is dropped.
-/

namespace ObjcLens

namespace Yaml

/-- What becomes of line ends between words: the first one, and the others. -/
def joinLines (first others : List Char) : List Char :=
  if first.head? = some '\n' then if others.isEmpty then [' '] else others
  else first ++ others

/-- The white space between two words of a scalar. -/
structure Gap where
  /-- Blanks, if no line ended yet. -/
  blanks : List Char := []
  /-- The first line end. -/
  first : List Char := []
  /-- The other line ends. -/
  others : List Char := []
  /-- A line ended. -/
  hasBreak : Bool := false

/-- What becomes of the white space between two words. -/
def Gap.text (g : Gap) : List Char := if g.hasBreak then joinLines g.first g.others else g.blanks

/-- The white space here behind some that was read, and the place behind it. Nothing if a tab stands
in front of a column where a line can start. The fuel bounds the number of characters. -/
def gap? (least : Nat) : Nat → Gap → Reader → Option (Gap × Reader)
  | 0, g, r => some (g, r)
  | fuel + 1, g, r =>
    match r.peek with
    | none => some (g, r)
    | some c =>
      if isBlank c then
        if g.hasBreak && r.column < least && c = '\t' then none
        else
          let g := if g.hasBreak then g else { g with blanks := g.blanks ++ [c] }
          gap? least fuel g r.skip
      else if isBreak c then
        let g := if g.hasBreak then { g with others := g.others ++ r.breakText }
          else { g with blanks := [], first := r.breakText, hasBreak := true }
        gap? least fuel g r.skipBreak
      else some (g, r)

/-! ## Plain scalars -/

/-- The characters that end a plain scalar between brackets. -/
def flowMarks : List Char := ",?[]\x7b\x7d".toList

/-- A plain scalar ends here. -/
def endsPlain (inFlow : Bool) (r : Reader) : Bool :=
  (r.sees ':' && r.endsWord 1) || (inFlow && r.peek.any flowMarks.contains)

/-- The word of a plain scalar here, the last character first, and the place behind it. -/
def plainWord (inFlow : Bool) : Nat → List Char → Reader → List Char × Reader
  | 0, word, r => (word, r)
  | fuel + 1, word, r =>
    match r.peek with
    | none => (word, r)
    | some c =>
      if isBlank c || isBreak c || endsPlain inFlow r then (word, r)
      else plainWord inFlow fuel (c :: word) r.skip

/-- A plain scalar that was read up to some place. -/
structure PlainScalar where
  /-- The characters, the last one first. -/
  shown : List Char := []
  /-- The white space behind them. -/
  gap : Gap := {}
  /-- The place. -/
  reader : Reader

/-- The plain scalar from a place on. Its further lines start at some column at least, unless it
stands between brackets. -/
def plain? (inFlow : Bool) (least : Nat) : Nat → PlainScalar → Option PlainScalar
  | 0, p => some p
  | fuel + 1, p =>
    let r := p.reader
    if r.seesMark '-' || r.seesMark '.' || r.sees '#' then some p
    else
      let (word, r) := plainWord inFlow (r.rest.length + 1) [] r
      let p : PlainScalar := if word.isEmpty then { p with reader := r }
        else ⟨word ++ p.gap.text.reverse ++ p.shown, {}, r⟩
      if !(r.seesBlank || r.seesBreak) then some p
      else do
        let (gap, r) ← gap? least (r.rest.length + 1) p.gap r
        let p := { p with gap, reader := r }
        if !inFlow && r.column < least then some p else plain? inFlow least fuel p

/-! ## Quoted scalars -/

/-- What the letter of an escape stands for. -/
def escaped? (letter : Char) : Option Char :=
  let code : Option Nat := match letter with
    | '0' => some 0
    | 'a' => some 7
    | 'b' => some 8
    | 't' => some 9
    | '\t' => some 9
    | 'n' => some 10
    | 'v' => some 11
    | 'f' => some 12
    | 'r' => some 13
    | 'e' => some 27
    | ' ' => some 0x20
    | '"' => some 0x22
    | '\\' => some 0x5C
    | 'N' => some 0x85
    | '_' => some 0xA0
    | 'L' => some 0x2028
    | 'P' => some 0x2029
    | c => if c.toNat = 0x27 then some 0x27 else none
  code.map Char.ofNat

/-- How many digits of a code point follow the letter of an escape. -/
def codeDigits? (letter : Char) : Option Nat :=
  match letter with
  | 'x' => some 2
  | 'u' => some 4
  | 'U' => some 8
  | _ => none

/-- The number that hexadecimal digits stand for. -/
def hexValue? (digits : List Char) : Option Nat :=
  digits.foldl (fun value c => do
    if 0x80 ≤ c.toNat then none
    let d ← Text.digitValue? c.toUInt8
    if d < 16 then return (← value) * 16 + d else none) (some 0)

/-- The character that the escape here stands for, and the place behind it. -/
def escape? (r : Reader) : Option (Char × Reader) := do
  let letter ← r.ahead 1
  match codeDigits? letter with
  | none => return (← escaped? letter, r.skipMany 2)
  | some count =>
    let digits := (r.rest.drop 2).take count
    if digits.length < count then none
    let code ← hexValue? digits
    if 0x10FFFF < code || (0xD800 ≤ code && code ≤ 0xDFFF) then none
    return (Char.ofNat code, r.skipMany (2 + count))

/-- The mark of a quoted scalar. -/
def quoteMark (single : Bool) : Char := Char.ofNat (if single then 0x27 else 0x22)

/-- The word of a quoted scalar here, the last character first, and the place behind it. The flag
tells whether an escaped line end ended it. -/
def quotedWord? (single : Bool) : Nat → List Char → Reader → Option (List Char × Bool × Reader)
  | 0, word, r => some (word, false, r)
  | fuel + 1, word, r =>
    let mark := quoteMark single
    match r.peek with
    | none => some (word, false, r)
    | some c =>
      if isBlank c || isBreak c then some (word, false, r)
      else if c = mark then
        if single && r.ahead 1 = some mark then
          quotedWord? single fuel (mark :: word) (r.skipMany 2)
        else some (word, false, r)
      else if !single && c = '\\' then
        if (r.ahead 1).any isBreak then some (word, true, r.skip.skipBreak)
        else do
          let (escaped, r) ← escape? r
          quotedWord? single fuel (escaped :: word) r
      else quotedWord? single fuel (c :: word) r.skip

/-- The quoted scalar from a place inside it on, behind characters that were read, the last one
first, and the place behind it. The fuel bounds the number of words. -/
def quoted? (single : Bool) : Nat → List Char → Reader → Option (List Char × Reader)
  | 0, _, _ => none
  | fuel + 1, shown, r =>
    if r.seesMark '-' || r.seesMark '.' || r.peek.isNone then none
    else do
      let (word, isEscaped, r) ← quotedWord? single (r.rest.length + 1) [] r
      let shown := word ++ shown
      if r.sees (quoteMark single) then return (shown.reverse, r.skip)
      else
        let (gap, r) ← gap? 0 (r.rest.length + 1) { hasBreak := isEscaped } r
        quoted? single fuel (gap.text.reverse ++ shown) r

/-! ## Blocks of lines -/

/-- What happens to the line ends behind a block. -/
inductive Chomping where
  /-- All are dropped. -/
  | strip
  /-- One is kept. -/
  | clip
  /-- All are kept. -/
  | keep
deriving DecidableEq, Repr

/-- The way of chomping that a character tells. -/
def Chomping.ofChar? (c : Char) : Option Chomping :=
  if c = '+' then some .keep else if c = '-' then some .strip else none

/-- The column where the lines of a block start, as far as it is told. -/
def increment? (r : Reader) : Option (Option Nat × Reader) :=
  match r.peek with
  | some c =>
    if c.isDigit then
      if c = '0' then none else some (some (c.toNat - 0x30), r.skip)
    else some (none, r)
  | none => some (none, r)

/-- What stands behind the mark of a block: the way of chomping and the indentation, in any
order. -/
def blockHeader? (r : Reader) : Option (Chomping × Option Nat × Reader) := do
  match r.peek.bind Chomping.ofChar? with
  | some chomping =>
    let (increment, r) ← increment? r.skip
    return (chomping, increment, r)
  | none =>
    let (increment, r) ← increment? r
    match increment, r.peek.bind Chomping.ofChar? with
    | some _, some chomping => return (chomping, increment, r.skip)
    | _, _ => return (.clip, increment, r)

/-- The place behind indentation and empty lines, their line ends, and the farthest column that was
reached. Nothing if a tab stands where blanks should. The column is not known yet if it is zero. -/
def emptyLines? (indent : Nat) : Nat → List Char → Nat → Reader →
    Option (List Char × Nat × Reader)
  | 0, breaks, farthest, r => some (breaks, farthest, r)
  | fuel + 1, breaks, farthest, r =>
    let blanks := (r.rest.takeWhile (· = ' ')).length
    let count := if indent = 0 then blanks else min blanks (indent - r.column)
    let r := r.skipMany count
    let farthest := max farthest r.column
    if (indent = 0 || r.column < indent) && r.sees '\t' then none
    else if r.seesBreak then
      emptyLines? indent fuel (breaks ++ r.breakText) farthest r.skipBreak
    else some (breaks, farthest, r)

/-- A block that was read up to some line. -/
structure BlockScalar where
  /-- The characters, the last one first. -/
  shown : List Char := []
  /-- The end of the last line. -/
  first : List Char := []
  /-- The ends of the empty lines behind it. -/
  others : List Char := []
  /-- The last line starts with a blank. -/
  isIndented : Bool := false
  /-- The place. -/
  reader : Reader

/-- The lines of a block that start at a column. -/
def blockLines? (literal : Bool) (indent : Nat) : Nat → BlockScalar → Option BlockScalar
  | 0, b => some b
  | fuel + 1, b =>
    let r := b.reader
    if r.column ≠ indent || r.peek.isNone then some b
    else
      let isIndented := r.seesBlank
      let joins := !literal && !b.isIndented && !isIndented && b.first.head? = some '\n'
      let between : List Char :=
        if joins then (if b.others.isEmpty then [' '] else b.others) else b.first ++ b.others
      let (line, r) := r.takeWhile fun c => !isBreak c
      do
        let (others, _, next) ← emptyLines? indent (r.rest.length + 1) [] 0 r.skipBreak
        blockLines? literal indent fuel
          ⟨line.reverse ++ between.reverse ++ b.shown, r.breakText, others, isIndented, next⟩

/-- The block from its mark on, inside lines that start at some column, and the place behind it. -/
def block? (literal : Bool) (parent : Int) (r : Reader) : Option (List Char × Reader) := do
  let (chomping, increment, r) ← blockHeader? r.skip
  let r := r.skipBlanks
  let r := if r.sees '#' then r.skipToBreak else r
  if !r.endsLine 0 then none
  let r := r.skipBreak
  let told : Nat := match increment with
    | some n => (max parent 0).toNat + n
    | none => 0
  let (others, farthest, r) ← emptyLines? told (r.rest.length + 1) [] 0 r
  let indent := if told = 0 then max (max farthest (parent + 1).toNat) 1 else told
  let b ← blockLines? literal indent (r.rest.length + 1) { others, reader := r }
  let tail : List Char := match chomping with
    | .strip => []
    | .clip => b.first
    | .keep => b.first ++ b.others
  return (b.shown.reverse ++ tail, b.reader)

end Yaml

end ObjcLens
