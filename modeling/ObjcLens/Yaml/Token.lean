import ObjcLens.Yaml.Scalar

/-!
# Tokens of YAML documents

The characters of a document become tokens. Outside brackets the indentation of lines starts and
ends collections, which tokens of their own tell.

A scalar, an alias or a collection in brackets can turn out to be a key only when the colon behind
it is seen. So such a place is remembered, and the token of the key is put in front of it later. The
colon has to follow on the same line, within 1024 characters. At the indentation of an open
collection nothing but a key can stand, so there the colon has to follow.

`Token.scan` gives the tokens up to the first fault. A token can be used only if the two tokens
behind it are known and it is known whether it starts a key, so a fault also hides tokens in front
of it.
-/

namespace ObjcLens

namespace Yaml

/-- A token of a document. -/
inductive Token where
  /-- The end of the text. -/
  | streamEnd
  /-- The version of the language. -/
  | version (major minor : Nat)
  /-- A short form for the beginning of tags. -/
  | tagHandle (handle lead : Text)
  /-- The start of a document. -/
  | documentStart
  /-- The end of a document. -/
  | documentEnd
  /-- The start of a list by indentation. -/
  | listStart
  /-- The start of entries by indentation. -/
  | entriesStart
  /-- The end of a collection by indentation. -/
  | blockEnd
  /-- An opening bracket. -/
  | openBracket
  /-- A closing bracket. -/
  | closeBracket
  /-- An opening brace. -/
  | openBrace
  /-- A closing brace. -/
  | closeBrace
  /-- The dash in front of an item. -/
  | item
  /-- A comma between brackets. -/
  | comma
  /-- The mark in front of a key. -/
  | key
  /-- The colon in front of a value. -/
  | value
  /-- A reference to a node with a name. -/
  | reference (name : Text)
  /-- The name of the node that follows. -/
  | anchor (name : Text)
  /-- The tag of the node that follows. -/
  | tag (handle suffix : Text)
  /-- A scalar. -/
  | scalar (shown : Text) (isPlain : Bool)
deriving DecidableEq, Repr

/-- A place that can turn out to be a key. -/
structure KeyPlace where
  /-- The colon has to follow. -/
  isRequired : Bool
  /-- The number of tokens in front. -/
  token : Nat
  /-- The number of characters in front. -/
  index : Nat
  /-- The line. -/
  line : Nat
  /-- The column. -/
  column : Nat
deriving Repr

/-- Tokens that were read up to some place. -/
structure Scanner where
  /-- The place. -/
  reader : Reader
  /-- The tokens, the last one first. -/
  tokens : List Token := []
  /-- The places that can turn out to be keys: one for each open bracket, the innermost first, and
  one for what is outside. -/
  keys : List (Option KeyPlace) := [none]
  /-- The indentation of the innermost collection, or -1. -/
  indent : Int := -1
  /-- The indentations of the collections around it. -/
  indents : List Int := []
  /-- A key can start here. -/
  allowsKey : Bool := true

namespace Scanner

/-- A bracket is open. -/
def inFlow (s : Scanner) : Bool := 1 < s.keys.length

/-- The scanner with a token at the end. -/
def push (s : Scanner) (t : Token) : Scanner := { s with tokens := t :: s.tokens }

/-- The scanner with a token behind a number of others. -/
def insert (s : Scanner) (position : Nat) (t : Token) : Scanner :=
  let behind := s.tokens.length - position
  { s with tokens := s.tokens.take behind ++ t :: s.tokens.drop behind }

/-- The scanner with another place and a token for what was passed. -/
def advance (s : Scanner) (r : Reader) (t : Token) : Scanner := { s.push t with reader := r }

/-- The scanner behind the character here. -/
def pass (s : Scanner) (t : Token) : Scanner := s.advance s.reader.skip t

/-- The place that can turn out to be a key is forgotten; nothing if it has to be one. -/
def dropKey? (s : Scanner) : Option Scanner :=
  match s.keys with
  | some place :: outer => if place.isRequired then none else some { s with keys := none :: outer }
  | _ => some s

/-- The place here is remembered as one that can turn out to be a key. -/
def saveKey? (s : Scanner) : Option Scanner :=
  if !s.allowsKey then some s
  else do
    let r := s.reader
    let place : KeyPlace := {
      isRequired := !s.inFlow && s.indent = r.column
      token := s.tokens.length, index := r.index, line := r.line, column := r.column }
    let s ← s.dropKey?
    return { s with keys := some place :: s.keys.drop 1 }

/-- The place can still turn out to be a key. -/
def isOpen (s : Scanner) (place : KeyPlace) : Bool :=
  place.line = s.reader.line && s.reader.index ≤ place.index + 1024

/-- The most collections that can be open. -/
def deepest : Nat := 10000

/-- A collection starts at a column, unless one did: its token is put behind a number of others. -/
def indentTo? (s : Scanner) (column : Nat) (position : Nat) (t : Token) : Option Scanner :=
  if s.inFlow || (column : Int) ≤ s.indent then some s
  else if deepest ≤ s.indents.length then none
  else some { s.insert position t with indent := column, indents := s.indent :: s.indents }

/-- The collections with a larger indentation end, which are so many at most. -/
def dedentTo (column : Int) : Nat → Scanner → Scanner
  | 0, s => s
  | fuel + 1, s =>
    if s.indent ≤ column then s
    else dedentTo column fuel
      { s.push .blockEnd with indent := s.indents.headD (-1), indents := s.indents.drop 1 }

/-- The collections with a larger indentation end. Between brackets none does. -/
def dedent (s : Scanner) (column : Int) : Scanner :=
  if s.inFlow then s else s.dedentTo column (s.indents.length + 1)

/-- The place of the next token, behind blanks, comments and line ends. A new line can start a key.
Where a key can start, a tab is no blank. The fuel bounds the number of lines. -/
def toToken : Nat → Scanner → Scanner
  | 0, s => s
  | fuel + 1, s =>
    let r := s.reader
    let r := if r.index = 0 && r.peek.any (·.toNat = 0xFEFF) then r.skip else r
    let allowsTab := s.inFlow || !s.allowsKey
    let r := (r.takeWhile fun c => c = ' ' || (allowsTab && c = '\t')).2
    let r := if r.sees '#' then r.skipComments (r.rest.length + 1) else r
    if r.seesBreak then
      toToken fuel { s with reader := r.skipBreak, allowsKey := s.allowsKey || !s.inFlow }
    else { s with reader := r }

/-! ## Anchors, tags and directives -/

/-- The name behind the mark of an anchor or a reference, and the place behind it. -/
def name? (r : Reader) : Option (Text × Reader) :=
  let (name, r) := r.skip.takeWhile isWord
  if name.isEmpty || !(r.endsWord 0 || r.peek.any "?:,]\x7d%@`".toList.contains) then none
  else some (bytes name, r)

/-- The number of bytes of a character that starts with a byte. -/
def widthOf? (b : Nat) : Option Nat :=
  if b < 0x80 then some 1
  else if 0xC0 ≤ b && b < 0xE0 then some 2
  else if 0xE0 ≤ b && b < 0xF0 then some 3
  else if 0xF0 ≤ b && b < 0xF8 then some 4
  else none

/-- The byte that an escape in a tag stands for. -/
def octet? (r : Reader) : Option Nat :=
  if r.sees '%' && (r.rest.drop 1).length ≥ 2 then hexValue? ((r.rest.drop 1).take 2) else none

/-- The escaped bytes of a character behind its first one, and the place behind them. -/
def octets? : Nat → Reader → Option (Text × Reader)
  | 0, r => some ([], r)
  | count + 1, r => do
    let b ← octet? r
    if b < 0x80 || 0xC0 ≤ b then none
    let (tail, r) ← octets? count (r.skipMany 3)
    return (b.toUInt8 :: tail, r)

/-- The rest of a tag here, and the place behind it. The fuel bounds the number of characters. -/
def tagRest? : Nat → Reader → Option (Text × Reader)
  | 0, r => some ([], r)
  | fuel + 1, r =>
    if r.sees '%' then do
      let b ← octet? r
      let (more, r) ← octets? ((← widthOf? b) - 1) (r.skipMany 3)
      let (tail, r) ← tagRest? fuel r
      return (b.toUInt8 :: more ++ tail, r)
    else
      let marks := ";/?:@&=+$,.!~*()[]".toList
      match r.peek with
      | some c =>
        if isWord c || marks.contains c || c.toNat = 0x27 then
          (tagRest? fuel r.skip).map fun (tail, r) => (Rune.encode c.toNat ++ tail, r)
        else some ([], r)
      | none => some ([], r)

/-- A part of a tag that is not empty, and the place behind it. -/
def tagText? (r : Reader) : Option (Text × Reader) := do
  let (text, r) ← tagRest? (r.rest.length + 1) r
  if text.isEmpty then none else return (text, r)

/-- What can be the short form of the beginning of a tag, and the place behind it: words between two
marks, or behind one. -/
def handle? (r : Reader) : Option (Text × Reader) :=
  if !r.sees '!' then none
  else
    let (word, r) := r.skip.takeWhile isWord
    if r.sees '!' then some (byte '!' :: bytes word ++ [byte '!'], r.skip)
    else some (byte '!' :: bytes word, r)

/-- The tag here, and the place behind it. -/
def tag? (r : Reader) : Option (Token × Reader) := do
  let (tag, r) ←
    if r.ahead 1 = some '<' then do
      let (suffix, r) ← tagText? (r.skipMany 2)
      if r.sees '>' then some (Token.tag [] suffix, r.skip) else none
    else do
      let (handle, r) ← handle? r
      if 1 < handle.length && handle.getLast? = some (byte '!') then
        let (suffix, r) ← tagText? r
        return (Token.tag handle suffix, r)
      else
        let (tail, r) ← tagRest? (r.rest.length + 1) r
        let suffix := handle.drop 1 ++ tail
        if suffix.isEmpty then return (Token.tag [] handle, r)
        else return (Token.tag "!" suffix, r)
  if r.endsWord 0 then return (tag, r) else none

/-- The number of a version, which has one or two digits, and the place behind it. -/
def versionNumber? (r : Reader) : Option (Nat × Reader) :=
  let (digits, r) := r.takeWhile Char.isDigit
  if digits.isEmpty || 2 < digits.length then none
  else some (Text.digitsValue (bytes digits), r)

/-- The version here, and the place behind it. -/
def version? (r : Reader) : Option (Token × Reader) := do
  let (major, r) ← versionNumber? r
  if !r.sees '.' then none
  let (minor, r) ← versionNumber? r.skip
  return (.version major minor, r)

/-- The short form for the beginning of tags here, and the place behind it. -/
def tagHandle? (r : Reader) : Option (Token × Reader) := do
  let (handle, r) ← handle? r
  let isHandle := handle.length = 1 || handle.getLast? = some (byte '!')
  if !isHandle || !r.seesBlank then none
  let (lead, r) ← tagText? r.skipBlanks
  if r.endsWord 0 then return (.tagHandle handle lead, r) else none

/-- The directive here, and the place behind its line. -/
def directive? (r : Reader) : Option (Token × Reader) := do
  let (name, r) := r.skip.takeWhile isWord
  if !r.endsWord 0 then none
  let (token, r) ←
    if bytes name = Text.ofString "YAML" then version? r.skipBlanks
    else if bytes name = Text.ofString "TAG" then tagHandle? r.skipBlanks
    else none
  let r := r.skipBlanks
  let r := if r.sees '#' then r.skipToBreak else r
  if r.endsLine 0 then return (token, r.skipBreak) else none

/-! ## Tokens -/

/-- All collections end, and no key can follow. -/
def closeAll? (s : Scanner) : Option Scanner := do
  let s ← (s.dedent (-1)).dropKey?
  return { s with allowsKey := false }

/-- The end of the text. -/
def fetchEnd? (s : Scanner) : Option Scanner := do
  return (← s.closeAll?).push .streamEnd

/-- The start or the end of a document. -/
def fetchMark? (s : Scanner) (t : Token) : Option Scanner := do
  let s ← s.closeAll?
  return s.advance (s.reader.skipMany 3) t

/-- A directive. -/
def fetchDirective? (s : Scanner) : Option Scanner := do
  let s ← s.closeAll?
  let (t, r) ← directive? s.reader
  return s.advance r t

/-- An opening bracket or brace, which can start a key and have one inside. -/
def fetchOpen? (s : Scanner) (t : Token) : Option Scanner := do
  let s ← s.saveKey?
  if deepest ≤ s.keys.length - 1 then none
  return { s with keys := none :: s.keys, allowsKey := true }.pass t

/-- A closing bracket or brace. -/
def fetchClose? (s : Scanner) (t : Token) : Option Scanner := do
  let s ← s.dropKey?
  let keys := if s.inFlow then s.keys.drop 1 else s.keys
  return { s with keys, allowsKey := false }.pass t

/-- A comma, behind which a key can follow. -/
def fetchComma? (s : Scanner) : Option Scanner := do
  return { (← s.dropKey?) with allowsKey := true }.pass .comma

/-- The dash of an item. Outside brackets it needs a place where a key can start. -/
def fetchItem? (s : Scanner) : Option Scanner := do
  if !s.inFlow && !s.allowsKey then none
  let s ← s.indentTo? s.reader.column s.tokens.length .listStart
  return { (← s.dropKey?) with allowsKey := true }.pass .item

/-- The mark of a key. Outside brackets it needs a place where a key can start. -/
def fetchKey? (s : Scanner) : Option Scanner := do
  if !s.inFlow && !s.allowsKey then none
  let s ← s.indentTo? s.reader.column s.tokens.length .entriesStart
  return { (← s.dropKey?) with allowsKey := !s.inFlow }.pass .key

/-- The colon of a value. If a place turns out to be a key by it, the token of the key is put
there. -/
def fetchValue? (s : Scanner) : Option Scanner := do
  let place := (s.keys.headD none).filter s.isOpen
  let isStale := (s.keys.headD none).any fun place => place.isRequired && !s.isOpen place
  if isStale then none
  match place with
  | some place =>
    let s ← (s.insert place.token .key).indentTo? place.column place.token .entriesStart
    return { s with keys := none :: s.keys.drop 1, allowsKey := false }.pass .value
  | none =>
    if !s.inFlow && !s.allowsKey then none
    let s ← s.indentTo? s.reader.column s.tokens.length .entriesStart
    return { s with keys := none :: s.keys.drop 1, allowsKey := !s.inFlow }.pass .value

/-- A token that can start a key, with its reader. -/
def fetchNode? (s : Scanner) (read : Reader → Option (Token × Reader)) : Option Scanner := do
  let s := { (← s.saveKey?) with allowsKey := false }
  let (t, r) ← read s.reader
  return s.advance r t

/-- A block of lines. -/
def fetchBlock? (s : Scanner) (literal : Bool) : Option Scanner := do
  let s := { (← s.dropKey?) with allowsKey := true }
  let (shown, r) ← block? literal s.indent s.reader
  return s.advance r (.scalar (bytes shown) false)

/-- A plain scalar. If it ends behind a line end, a key can follow. -/
def fetchPlain? (s : Scanner) : Option Scanner := do
  let s := { (← s.saveKey?) with allowsKey := false }
  let least := (s.indent + 1).toNat
  let p ← plain? s.inFlow least (s.reader.rest.length + 1) { reader := s.reader }
  let s := s.advance p.reader (.scalar (bytes p.shown.reverse) true)
  return { s with allowsKey := p.gap.hasBreak }

/-- A plain scalar can start here. -/
def startsPlain (s : Scanner) : Bool :=
  let r := s.reader
  let marks := "-?:,[]\x7b\x7d#&*!|>\"%@`".toList
  (!r.endsWord 0 && !r.peek.any fun c => marks.contains c || c.toNat = 0x27) ||
    (r.sees '-' && !(r.ahead 1).any isBlank) ||
    (!s.inFlow && (r.sees '?' || r.sees ':') && !r.endsWord 1)

/-- The token here, which neither ends the text nor stands at the start of a line as a mark of a
document. -/
def fetchToken? (s : Scanner) : Option Scanner :=
  let r := s.reader
  let quoted (single : Bool) (r : Reader) : Option (Token × Reader) :=
    (quoted? single (r.rest.length + 1) [] r.skip).map fun (shown, r) =>
      (.scalar (bytes shown) false, r)
  if r.sees '[' then s.fetchOpen? .openBracket
  else if r.sees '\x7b' then s.fetchOpen? .openBrace
  else if r.sees ']' then s.fetchClose? .closeBracket
  else if r.sees '\x7d' then s.fetchClose? .closeBrace
  else if r.sees ',' then s.fetchComma?
  else if r.sees '-' && r.endsWord 1 then s.fetchItem?
  else if r.sees '?' && (s.inFlow || r.endsWord 1) then s.fetchKey?
  else if r.sees ':' && (s.inFlow || r.endsWord 1) then s.fetchValue?
  else if r.sees '*' then
    s.fetchNode? fun r => (name? r).map fun (name, r) => (.reference name, r)
  else if r.sees '&' then s.fetchNode? fun r => (name? r).map fun (name, r) => (.anchor name, r)
  else if r.sees '!' then s.fetchNode? tag?
  else if r.sees '|' && !s.inFlow then s.fetchBlock? true
  else if r.sees '>' && !s.inFlow then s.fetchBlock? false
  else if r.sees (quoteMark true) then s.fetchNode? (quoted true)
  else if r.sees (quoteMark false) then s.fetchNode? (quoted false)
  else if s.startsPlain then s.fetchPlain?
  else none

/-- The next token, and a comment behind it. A comment behind the dash of an item belongs to what
follows. -/
def next? (s : Scanner) : Option Scanner :=
  let s := s.toToken (s.reader.rest.length + 1)
  let s := s.dedent s.reader.column
  let r := s.reader
  if r.peek.isNone then s.fetchEnd?
  else if r.column = 0 && r.sees '%' then s.fetchDirective?
  else if r.seesMark '-' then s.fetchMark? .documentStart
  else if r.seesMark '.' then s.fetchMark? .documentEnd
  else s.fetchToken?.map fun s =>
    if s.tokens.head? = some .item then s else { s with reader := s.reader.skipLineComment }

/-- The tokens that can be used although a fault follows them. -/
def usable (s : Scanner) : List Token :=
  let places := s.keys.filterMap fun place => place.filter s.isOpen
  let limit := places.foldl (fun limit place => min limit place.token) (s.tokens.length - 2)
  s.tokens.reverse.take limit

/-- All tokens from a place on that can be used. The fuel bounds their number. -/
def run : Nat → Scanner → List Token
  | 0, s => s.usable
  | fuel + 1, s =>
    match s.next? with
    | none => s.usable
    | some next =>
      if next.tokens.head? = some .streamEnd then next.tokens.reverse else run fuel next

end Scanner

/-- The tokens of a document that can be used. -/
def Token.scan (cs : List Char) : List Token :=
  Scanner.run (cs.length + 1) { reader := { rest := cs } }

end Yaml

end ObjcLens
