import ObjcLens.Text.Rune

/-!
# Glob patterns

The written form of patterns and the tree it stands for. `*` and `**` stand for any text, `?`
for one character, `[abc]` and `[a-z]` for a character of a set and `[!abc]` for one outside of
it, `{a,b}` for a choice, and a backslash takes the meaning away from the next character.

`Pattern.parse` reads a pattern. A choice that is not closed ends with the pattern.
-/

namespace ObjcLens

/-- A pattern. -/
inductive Pattern where
  /-- The empty text. -/
  | nothing
  /-- This text. -/
  | text (t : Text)
  /-- Any text, written with one star. -/
  | any
  /-- Any text, written with two stars. -/
  | anyDeep
  /-- One character. -/
  | one
  /-- A character of a set, or outside of it. -/
  | oneOf (codes : List Nat) (negated : Bool)
  /-- A character between two others, or outside of them. -/
  | between (low high : Nat) (negated : Bool)
  /-- Patterns one behind the other. -/
  | sequence (parts : List Pattern)
  /-- One of several patterns. -/
  | choice (alternatives : List Pattern)
deriving Inhabited

/-- Why a pattern cannot be read. -/
inductive PatternError where
  /-- A malformed byte, or the replacement character. -/
  | unreadable
  /-- The pattern ends inside a set. -/
  | unfinished
  /-- A range is not followed by a closing bracket. -/
  | unclosedRange
  /-- A set has no characters. -/
  | emptySet
  /-- The ends of a range are in the wrong order. -/
  | reversedRange (low high : Nat)
deriving DecidableEq, Repr

/-- The text of an error. -/
def PatternError.message : PatternError → Text
  | .unreadable => "could not read rune"
  | .unfinished => "unexpected end of input"
  | .unclosedRange => "expected close range character"
  | .emptySet => "could not parse range"
  | .reversedRange low high =>
    "hi character '" ++ Rune.encode high ++ "' should be greater than lo '" ++
      Rune.encode low ++ "'"

namespace Pattern

mutual

/-- The two patterns are the same tree. -/
def same : Pattern → Pattern → Bool
  | .nothing, .nothing | .any, .any | .anyDeep, .anyDeep | .one, .one => true
  | .text s, .text t => s = t
  | .oneOf codes negated, .oneOf codes' negated' => codes = codes' && negated = negated'
  | .between low high negated, .between low' high' negated' =>
    low = low' && high = high' && negated = negated'
  | .sequence parts, .sequence parts' => sameAll parts parts'
  | .choice parts, .choice parts' => sameAll parts parts'
  | _, _ => false

/-- The two lists of patterns are the same. -/
def sameAll : List Pattern → List Pattern → Bool
  | [], [] => true
  | p :: rest, p' :: rest' => same p p' && sameAll rest rest'
  | _, _ => false

end

/-- A character of a written pattern: its code point, or nothing if it cannot be read. -/
abbrev Glyph := Option Nat

/-- The characters of a written pattern. -/
def glyphs (s : Text) : List Glyph :=
  (Rune.ofText s).map fun r => if r.code = Rune.replacement then none else some r.code

/-- The star. -/
def starCode : Nat := 0x2A
/-- The question mark. -/
def singleCode : Nat := 0x3F
/-- The comma. -/
def commaCode : Nat := 0x2C
/-- The backslash. -/
def escapeCode : Nat := 0x5C
/-- The opening bracket of a set. -/
def setOpen : Nat := 0x5B
/-- The closing bracket of a set. -/
def setClose : Nat := 0x5D
/-- The opening brace of a choice. -/
def choiceOpen : Nat := 0x7B
/-- The closing brace of a choice. -/
def choiceClose : Nat := 0x7D
/-- The mark of a negated set. -/
def notCode : Nat := 0x21
/-- The mark between the ends of a range. -/
def betweenCode : Nat := 0x2D

/-- The characters that end plain text. -/
def stops (inChoice : Bool) : List Nat :=
  [singleCode, starCode, setOpen, choiceOpen] ++
    (if inChoice then [choiceClose, commaCode] else [])

/-- Plain text up to a stop, and what follows. A zero character ends the text and is dropped. -/
def takeText (stops : List Nat) (escaped : Bool) : List Glyph → List Nat × List Glyph
  | [] => ([], [])
  | none :: rest => ([], none :: rest)
  | some code :: rest =>
    if code = 0 then ([], rest)
    else if !escaped && code = escapeCode then takeText stops true rest
    else if !escaped && stops.contains code then ([], some code :: rest)
    else
      let (codes, others) := takeText stops false rest
      (code :: codes, others)

/-- The text of code points. -/
def textOf (codes : List Nat) : Text := codes.flatMap Rune.encode

/-- The next character of a set, which must be there. -/
def nextInSet : List Glyph → Except PatternError (Nat × List Glyph)
  | some code :: rest => if code = 0 then .error .unfinished else .ok (code, rest)
  | _ => .error .unfinished

/-- The rest behind the closing bracket, which must be next. -/
def closeSet (gs : List Glyph) : Except PatternError (List Glyph) := do
  let (code, rest) ← nextInSet gs
  if code = setClose then return rest else throw .unclosedRange

/-- A set, from behind its opening bracket and its mark of negation. -/
def parseSetBody (negated : Bool) (gs : List Glyph) :
    Except PatternError (Pattern × List Glyph) := do
  let (first, rest) ← nextInSet gs
  if rest.head? = some (some betweenCode) then
    let (last, rest) ← nextInSet (rest.drop 1)
    let others ← closeSet rest
    if last < first then throw (.reversedRange first last)
    return (.between first last negated, others)
  else
    let (codes, rest) := takeText [setClose] false gs
    let others ← closeSet rest
    if codes.isEmpty then throw .emptySet
    return (.oneOf codes negated, others)

/-- A set, from behind its opening bracket. -/
def parseSet (gs : List Glyph) : Except PatternError (Pattern × List Glyph) := do
  let (first, rest) ← nextInSet gs
  if first = notCode then parseSetBody true rest else parseSetBody false gs

/-- What a pattern is written with. -/
inductive Item where
  /-- The end of the pattern. -/
  | stop
  /-- The start of a choice. -/
  | openChoice
  /-- The end of an alternative. -/
  | separator
  /-- The end of a choice. -/
  | closeChoice
  /-- A part, or nothing if only a backslash was left. -/
  | part (p : Option Pattern)

/-- The first item of a written pattern, and what follows. A zero character ends the pattern. -/
def readItem (inChoice : Bool) : List Glyph → Except PatternError (Item × List Glyph)
  | [] => .ok (.stop, [])
  | none :: _ => .error .unreadable
  | some code :: rest =>
    if code = 0 then .ok (.stop, [])
    else if code = choiceOpen then .ok (.openChoice, rest)
    else if inChoice && code = commaCode then .ok (.separator, rest)
    else if inChoice && code = choiceClose then .ok (.closeChoice, rest)
    else if code = setOpen then do
      let (set, others) ← parseSet rest
      return (.part (some set), others)
    else if code = singleCode then .ok (.part (some .one), rest)
    else if code = starCode then
      if rest.head? = some (some starCode) then .ok (.part (some .anyDeep), rest.drop 1)
      else .ok (.part (some .any), rest)
    else
      let (codes, others) := takeText (stops inChoice) false (some code :: rest)
      .ok (.part (if codes.isEmpty then none else some (.text (textOf codes))), others)

/-- A choice that is being read: the parts before it and its finished alternatives, the last
ones first. -/
structure OpenChoice where
  /-- The parts before the choice. -/
  before : List Pattern
  /-- The finished alternatives. -/
  alternatives : List Pattern

/-- The choice with its last alternative, behind the parts before it. -/
def OpenChoice.close (c : OpenChoice) (parts : List Pattern) : List Pattern :=
  .choice (.sequence parts.reverse :: c.alternatives).reverse :: c.before

/-- The whole pattern, from what was read and the choices that are still open. -/
def finish : List OpenChoice → List Pattern → Pattern
  | [], parts => .sequence parts.reverse
  | c :: outer, parts => finish outer (c.close parts)

/-- The pattern that the characters stand for, behind the parts that were read before them. The
fuel bounds the number of items. -/
def parseItems : Nat → List OpenChoice → List Pattern → List Glyph → Except PatternError Pattern
  | 0, opened, parts, _ => .ok (finish opened parts)
  | fuel + 1, opened, parts, gs => do
    let (item, rest) ← readItem (!opened.isEmpty) gs
    match item, opened with
    | .part p, opened => parseItems fuel opened (p.toList ++ parts) rest
    | .openChoice, opened => parseItems fuel (⟨parts, []⟩ :: opened) [] rest
    | .separator, c :: outer =>
      parseItems fuel (⟨c.before, .sequence parts.reverse :: c.alternatives⟩ :: outer) [] rest
    | .closeChoice, c :: outer => parseItems fuel outer (c.close parts) rest
    | _, opened => return finish opened parts

/-- The pattern that a text stands for. -/
def parse (s : Text) : Except PatternError Pattern :=
  let gs := glyphs s
  parseItems (gs.length + 1) [] [] gs

end Pattern

end ObjcLens
