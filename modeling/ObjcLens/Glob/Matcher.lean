import ObjcLens.Text.Rune

/-!
# Matchers

What patterns are compiled to. `Matcher.test` tells whether a matcher covers a whole text;
`Matcher.find` tells where in a text it can start and the lengths that it can have there.

A row of matchers takes at least one byte for each of them, even for one that has no length. Where
no byte is left for such a matcher the test has no answer, and neither has any test that asks for
it.

The length of a matcher, `Matcher.length?`, counts characters and steers the search. A choice
takes the length of its first alternative that has one, as long as no later alternative differs.
-/

namespace ObjcLens

/-- A test of texts. -/
inductive Matcher where
  /-- The empty text. -/
  | nothing
  /-- This text. -/
  | text (t : Text)
  /-- Any text. -/
  | anything
  /-- One character. -/
  | one
  /-- A character of a set, or outside of it. -/
  | oneOf (codes : List Nat) (negated : Bool)
  /-- A character between two others, or outside of them. -/
  | between (low high : Nat) (negated : Bool)
  /-- A number of characters or more. -/
  | atLeast (count : Nat)
  /-- A number of characters or fewer. -/
  | atMost (count : Nat)
  /-- A text that does not contain another. -/
  | without (part : Text)
  /-- A text that contains another. -/
  | containing (part : Text)
  /-- A text with a beginning. -/
  | starting (lead : Text)
  /-- A text with an end. -/
  | ending (tail : Text)
  /-- A text with a beginning and an end, which may overlap. -/
  | enclosed (lead tail : Text)
  /-- Matchers of fixed lengths, one behind the other. -/
  | row (parts : List Matcher)
  /-- All of several matchers. -/
  | all (parts : List Matcher)
  /-- One of several matchers. -/
  | choice (parts : List Matcher)
  /-- A matcher somewhere in the text, between what stands before and after it. -/
  | split (middle : Matcher) (before after : Option Matcher)
deriving Inhabited

namespace Matcher

mutual

/-- The number of characters that a matcher covers, if it is fixed. -/
def length? : Matcher → Option Nat
  | .nothing => some 0
  | .text t => some (Rune.count t)
  | .one | .oneOf .. | .between .. => some 1
  | .row parts => some (totalLength parts)
  | .choice parts => choiceLength none parts
  | .split middle before after =>
    match length? middle, partLength before, partLength after with
    | some m, some b, some a => some (b + m + a)
    | _, _, _ => none
  | _ => none

/-- The number of characters of matchers one behind the other. -/
def totalLength : List Matcher → Nat
  | [] => 0
  | m :: rest => (length? m).getD 0 + totalLength rest

/-- The length of a choice, given the length known from the alternatives before. -/
def choiceLength (known : Option Nat) : List Matcher → Option Nat
  | [] => known
  | m :: rest =>
    match known with
    | none => choiceLength (length? m) rest
    | some n => if length? m = some n then choiceLength (some n) rest else none

/-- The length of what stands beside a matcher, zero if nothing does. -/
def partLength : Option Matcher → Option Nat
  | none => some 0
  | some m => length? m

end

/-- Where a matcher can start, and the lengths in bytes that it can have there. -/
abbrev Finding := Option (Nat × List Nat)

/-- The characters of a text with the offsets at which they start. -/
def placed (s : Text) : List (Nat × Rune) :=
  let runes := Rune.ofText s
  (runes.foldl (fun (found, offset) r => ((offset, r) :: found, offset + r.width))
    (([], 0) : List (Nat × Rune) × Nat)).1.reverse

/-- The number of bytes of the code point of a character. That of a malformed byte is the width
of the replacement character. -/
def codeWidth (r : Rune) : Nat := (Rune.encode r.code).length

/-- The offset of the first occurrence of a text. -/
def offsetOf? (part s : Text) : Option Nat := (Text.cutText? part s).map (·.1.length)

/-- The first character that passes a test, as a finding. -/
def findRune (test : Nat → Bool) (s : Text) : Finding :=
  ((placed s).find? fun (_, r) => test r.code).map fun (offset, r) => (offset, [codeWidth r])

/-- The text is at most one character, and that passes a test. The empty text counts as the
replacement character. -/
def isRune (test : Nat → Bool) (s : Text) : Bool :=
  match s with
  | [] => test Rune.replacement
  | b :: rest =>
    let r := Rune.decode b rest
    s.length ≤ r.width && test r.code

/-- The ends of the occurrences of a text, from the left, without overlaps counted from the
right. The fuel bounds their number. -/
def occurrenceEnds (tail : Text) : Nat → Text → List Nat
  | 0, _ => []
  | fuel + 1, s =>
    match offsetOf? tail.reverse s.reverse with
    | none => []
    | some behind =>
      let stop := s.length - behind
      occurrenceEnds tail fuel (s.take (stop - tail.length)) ++ [stop]

/-- A code point passes the test of a set. -/
def inSet (codes : List Nat) (negated : Bool) (code : Nat) : Bool :=
  codes.contains code != negated

/-- A code point passes the test of a range. -/
def inRange (low high : Nat) (negated : Bool) (code : Nat) : Bool :=
  (low ≤ code && code ≤ high) != negated

/-- The number of bytes up to and with the first byte of the last of some characters; nothing if
the text has fewer. -/
def pieceLength (count : Nat) (s : Text) : Option Nat :=
  let starts := (placed s).map (·.1)
  if starts.length < count then none
  else if count = 0 then some ((starts.getLast?.getD 0) + 1)
  else some (starts.getD (count - 1) 0 + 1)

/-- The offsets that all lists of findings share: those of the first list, moved by a distance,
that are in the second. -/
def common (distance : Int) (current next : List Nat) : List Nat :=
  current.flatMap fun (length : Nat) =>
    next.filter fun other => (length : Int) + distance = (other : Int)

/-- The two lists as one, which is ascending and has each number once if both lists are so. -/
def merge : List Nat → List Nat → List Nat
  | [], b => b
  | a, [] => a
  | x :: a, y :: b =>
    if x = y then x :: merge a b
    else if x < y then x :: merge a (y :: b)
    else y :: merge (x :: a) b

/-- The first of some lengths, from the last one on, behind which a test passes is there. -/
def anyLength (after : Text → Option Bool) (s : Text) : List Nat → Option Bool
  | [] => some false
  | length :: rest => do
    if ← anyLength after s rest then return true else after (s.drop length)

/-- The search for a middle with fitting sides, from an offset on. The fuel bounds the number of
places that are tried. -/
def searchSplit (find : Text → Option Finding) (before after : Text → Option Bool) (s : Text)
    (limit : Nat) : Nat → Nat → Option Bool
  | 0, _ => some false
  | fuel + 1, offset =>
    if limit ≤ offset then some false
    else do
      match ← find ((s.take limit).drop offset) with
      | none => return false
      | some (index, lengths) =>
        let start := offset + index
        let fits ← if ← before (s.take start) then anyLength after (s.drop start) lengths
          else pure false
        if fits then return true
        else
          let step := match s.drop start with
            | [] => 0
            | b :: rest => (Rune.decode b rest).width
          searchSplit find before after s limit fuel (start + step)

/-- The first of some offsets from which on a test passes. The text must have as many bytes there as
the test covers characters. -/
def searchRow (test : Text → Option Bool) (total : Nat) (s : Text) : List Nat → Option Finding
  | [] => some none
  | offset :: rest =>
    if s.length - offset < total then some none
    else do
      if ← test (s.drop offset) then return some (offset, [total])
      else searchRow test total s rest

mutual

/-- The matcher covers the whole text; nothing if there is no answer. -/
def test : Matcher → Text → Option Bool
  | .nothing, s => some s.isEmpty
  | .text t, s => some (s = t)
  | .anything, _ => some true
  | .one, s => some (isRune (fun _ => true) s)
  | .oneOf codes negated, s => some (isRune (inSet codes negated) s)
  | .between low high negated, s => some (isRune (inRange low high negated) s)
  | .atLeast count, s => some (count ≤ Rune.count s && !s.isEmpty)
  | .atMost count, s => some (Rune.count s ≤ count)
  | .without part, s => some !(Text.isInfixOf part s)
  | .containing part, s => some (Text.isInfixOf part s)
  | .starting lead, s => some (lead.isPrefixOf s)
  | .ending tail, s => some (tail.isSuffixOf s)
  | .enclosed lead tail, s => some (lead.isPrefixOf s && tail.isSuffixOf s)
  | .row parts, s => if Rune.count s = totalLength parts then testRow parts s else some false
  | .all parts, s => testAll parts s
  | .choice parts, s => testAny parts s
  | .split middle before after, s =>
    if (length? (.split middle before after)).any (s.length < ·) then some false
    else
      let offset := (partLength before).getD 0
      let limit := match partLength after with
        | some n => if s.length < n then 0 else s.length - n
        | none => s.length
      searchSplit (find middle) (testPart before) (testPart after) s limit (s.length + 1) offset

/-- The matchers cover the beginning of the text, one behind the other. -/
def testRow : List Matcher → Text → Option Bool
  | [], _ => some true
  | m :: rest, s =>
    match pieceLength ((length? m).getD 0) s with
    | none => some false
    | some n =>
      if s.length < n then none
      else do
        if ← test m (s.take n) then testRow rest (s.drop n) else return false

/-- All matchers cover the text. -/
def testAll : List Matcher → Text → Option Bool
  | [], _ => some true
  | m :: rest, s => do
    if ← test m s then testAll rest s else return false

/-- Some matcher covers the text. -/
def testAny : List Matcher → Text → Option Bool
  | [], _ => some false
  | m :: rest, s => do
    if ← test m s then return true else testAny rest s

/-- What stands beside a matcher covers the text; the text is empty if nothing does. -/
def testPart : Option Matcher → Text → Option Bool
  | none, s => some s.isEmpty
  | some m, s => test m s

/-- Where the matcher can start first in a text; nothing if there is no answer. -/
def find : Matcher → Text → Option Finding
  | .nothing, _ => some (some (0, [0]))
  | .text t, s => some ((offsetOf? t s).map fun offset => (offset, [t.length]))
  | .anything, s => some (some (0, (placed s).map (·.1) ++ [s.length]))
  | .one, s => some (findRune (fun _ => true) s)
  | .oneOf codes negated, s => some (findRune (inSet codes negated) s)
  | .between low high negated, s => some (findRune (inRange low high negated) s)
  | .atLeast count, s =>
    let lengths := ((placed s).drop (count - 1)).map fun (offset, r) => offset + codeWidth r
    some (if lengths.isEmpty then none else some (0, lengths))
  | .atMost count, s =>
    some (some (0, 0 :: ((placed s).take count).map fun (offset, r) => offset + codeWidth r))
  | .without part, s =>
    let clear := match offsetOf? part s with
      | some offset => s.take offset
      | none => s
    some (some (0, (placed clear).map (·.1) ++ [clear.length]))
  | .containing part, s =>
    some ((offsetOf? part s).map fun offset =>
      let start := offset + part.length
      let rest := s.drop start
      (0, (placed rest).map (fun p => start + p.1) ++ [start + rest.length]))
  | .starting lead, s =>
    some ((offsetOf? lead s).map fun offset =>
      let rest := s.drop (offset + lead.length)
      (offset, lead.length ::
        (placed rest).map fun (start, r) => lead.length + start + codeWidth r))
  | .ending tail, s => some ((offsetOf? tail s).map fun offset => (0, [offset + tail.length]))
  | .enclosed lead tail, s =>
    match offsetOf? lead s with
    | none => some none
    | some offset =>
      let rest := s.drop offset
      let ends := occurrenceEnds tail rest.length rest
      some (if ends.isEmpty then none else some (offset, ends))
  | .row parts, s => searchRow (testRow parts) (totalLength parts) s ((placed s).map (·.1))
  | .all parts, s => findAll parts s 0 0 none
  | .choice parts, s => findAny parts s none
  | .split .., _ => some none

/-- The place at which all matchers can start. -/
def findAll : List Matcher → Text → Nat → Nat → Option (List Nat) → Option Finding
  | [], _, index, _, current => some (some (index, current.getD []))
  | m :: rest, s, index, offset, current => do
    match ← find m (s.drop index) with
    | none => return none
    | some (place, lengths) =>
      let shared := match current with
        | none => lengths
        | some current => common ((index : Int) - (place + offset : Nat)) current lengths
      if shared.isEmpty then return none
      else findAll rest s (place + offset) (offset + place) (some shared)

/-- The first place at which some matcher can start, with the lengths of all that can. -/
def findAny : List Matcher → Text → Finding → Option Finding
  | [], _, best => some best
  | m :: rest, s, best => do
    let better := match ← find m s, best with
      | none, best => best
      | found, none => found
      | some (place, lengths), some (place', lengths') =>
        if place < place' then some (place, lengths)
        else if place' < place then some (place', lengths')
        else some (place, merge lengths' lengths)
    findAny rest s better

end

end Matcher

end ObjcLens
