import ObjcLens.Glob.Matcher
import ObjcLens.Glob.Pattern

/-!
# Compiled patterns

A pattern becomes a matcher in three steps: parts that alternatives of a choice share are moved
out of it, neighbours that can be tested together are joined, and what remains is split at its
longest part of fixed length. `Glob.compile` does it for a written pattern and `Glob.test` tests a
name.
-/

namespace ObjcLens

namespace Matcher

/-- The characters that a part of a joined test excludes; nothing if the part cannot be joined. -/
def excluded? : Matcher → Option (List Nat)
  | .anything | .one => some []
  | .oneOf codes true => some codes
  | _ => none

/-- The matcher takes any text. -/
def isAnything : Matcher → Bool
  | .anything => true
  | _ => false

/-- Neighbours that only count characters, and exclude the same ones, as one test. -/
def joinCounting (parts : List Matcher) : Option Matcher := do
  let seps ← parts.mapM excluded?
  let sep ← seps.head?
  if parts.length ≤ 1 || seps.any (· ≠ sep) then none
  else
    let hasAnything := parts.any isAnything
    let least := (parts.filter fun m => !m.isAnything).length
    if least = 0 then some .anything
    else if hasAnything then some (.atLeast least)
    else
      let rest := if sep.isEmpty then [] else [.without (sep.flatMap Rune.encode)]
      some (.all (.atLeast least :: .atMost least :: rest))

/-- Neighbours of fixed lengths as one test. -/
def joinRow (parts : List Matcher) : Option Matcher :=
  if parts.length ≤ 1 || parts.any fun m => (length? m).isNone then none else some (.row parts)

/-- Neighbours as one test, if there is one. -/
def join? (parts : List Matcher) : Option Matcher := (joinCounting parts).or (joinRow parts)

/-- A join of neighbours: the test and the range of indices that it replaces. -/
structure Join where
  /-- The test. -/
  test : Matcher
  /-- The first index. -/
  first : Nat
  /-- The index behind the last. -/
  stop : Nat

/-- The ranges of a number of indices, by their first index and the longest ones first. -/
def ranges (count : Nat) : List (Nat × Nat) :=
  (List.range count).flatMap fun first =>
    (List.range (count - first)).map fun k => (first, count - k)

/-- The better of two joins: one that is longer in characters or replaces more parts. -/
def better (best : Option Join) (next : Join) : Option Join :=
  match best with
  | none => some next
  | some best =>
    let longer := match length? best.test, length? next.test with
      | some a, some b => decide (a < b)
      | _, _ => false
    if longer || best.stop - best.first < next.stop - next.first then some next else some best

/-- The best join of neighbours. -/
def bestJoin (parts : List Matcher) : Option Join :=
  (ranges parts.length).foldl (fun best (first, stop) =>
    match join? ((parts.take stop).drop first) with
    | none => best
    | some test => better best ⟨test, first, stop⟩) none

/-- The parts with neighbours joined as far as possible. The fuel bounds the number of joins. -/
def joinAll : Nat → List Matcher → List Matcher
  | 0, parts => parts
  | fuel + 1, parts =>
    match bestJoin parts with
    | none => parts
    | some j => joinAll fuel (parts.take j.first ++ [j.test] ++ parts.drop j.stop)

/-- The index of the longest part of fixed length, the last one if there are several. -/
def pivot? (parts : List Matcher) : Option Nat :=
  (parts.zipIdx.foldl (fun (best : Option (Nat × Nat)) (m, index) =>
    match length? m, best with
    | none, best => best
    | some n, none => some (n, index)
    | some n, some (longest, old) => if longest ≤ n then some (n, index) else some (longest, old))
    none).map (·.2)

/-- Parts one behind the other as one matcher. The fuel bounds the depth. -/
def ofParts : Nat → List Matcher → Matcher
  | 0, _ => .nothing
  | _, [] => .nothing
  | _, [m] => m
  | fuel + 1, m :: rest =>
    match join? (m :: rest) with
    | some joined => joined
    | none =>
      let side (parts : List Matcher) : Option Matcher :=
        if parts.isEmpty then none else some (ofParts fuel parts)
      match pivot? (m :: rest) with
      | none => .split m none (some (ofParts fuel rest))
      | some index =>
        let parts := m :: rest
        .split (parts.getD index .nothing) (side (parts.take index)) (side (parts.drop (index + 1)))

mutual

/-- The matcher in a simpler form, where there is one. -/
def simplify : Matcher → Matcher
  | .choice [m] => m
  | .oneOf [code] false => .text (Rune.encode code)
  | .split middle before after =>
    match middle, simplifyPart before, simplifyPart after with
    | .text t, none, none => .text t
    | .text t, some .anything, some .anything => .containing t
    | .text t, some .anything, none => .ending t
    | .text t, none, some .anything => .starting t
    | .text t, none, some (.ending tail) => .enclosed t tail
    | .text t, some (.starting lead), none => .enclosed lead t
    | middle, before, after => .split middle before after
  | m => m

/-- What stands beside a matcher in a simpler form. -/
def simplifyPart : Option Matcher → Option Matcher
  | none => none
  | some m => some (simplify m)

end

end Matcher

namespace Pattern

/-- The parts of a sequence. -/
def parts : Pattern → List Pattern
  | .sequence ps => ps
  | _ => []

/-- The pattern is a sequence. -/
def isSequence : Pattern → Bool
  | .sequence _ => true
  | _ => false

/-- How far common parts were found from the left and from the right. -/
structure Shared where
  /-- The number of common parts on the left. -/
  left : Nat := 0
  /-- The number of common parts on the right. -/
  right : Nat := 0
  /-- No more parts are common on the left. -/
  leftDone : Bool := false
  /-- No more parts are common on the right. -/
  rightDone : Bool := false

/-- One alternative compared with the shortest one, at a distance from both ends. -/
def Shared.compare (shortest : List Pattern) (distance : Nat) (shared : Shared)
    (other : List Pattern) : Shared :=
  if shared.leftDone && shared.rightDone then shared
  else
    let back := shortest.length - 1 - distance
    let part (ps : List Pattern) (index : Nat) : Pattern := ps.getD index .nothing
    let leftDone := shared.leftDone || !same (part shortest distance) (part other distance)
    let rightDone := shared.rightDone || (!leftDone && back ≤ distance) ||
      !same (part shortest back) (part other (back + other.length - shortest.length))
    { shared with leftDone, rightDone }

/-- The common parts of alternatives, looked for from both ends at once. The fuel bounds the
distance from the ends. -/
def shareFrom (shortest : List Pattern) (others : List (List Pattern)) :
    Nat → Nat → Shared → Shared
  | 0, _, shared => shared
  | fuel + 1, distance, shared =>
    if shortest.length ≤ shared.left + shared.right || shortest.length ≤ distance ||
        (shared.leftDone && shared.rightDone) then shared
    else
      let seen := others.foldl (Shared.compare shortest distance) shared
      shareFrom shortest others fuel (distance + 1) { seen with
        left := seen.left + (if seen.leftDone then 0 else 1)
        right := seen.right + (if seen.rightDone then 0 else 1) }

/-- The alternative with the fewest parts, the first one if there are several, and the others. -/
def shortest? : List Pattern → Option (List Pattern × List (List Pattern))
  | [] => none
  | alternatives =>
    let all := alternatives.map parts
    let least := (all.map List.length).foldl min (all.headD []).length
    match all.findIdx? (·.length = least) with
    | none => none
    | some index => some (all.getD index [], all.eraseIdx index)

/-- The patterns with repetitions left out. -/
def distinct (ps : List Pattern) : List Pattern :=
  ps.foldl (fun seen p => if seen.any (same p) then seen else seen ++ [p]) []

/-- A choice with the parts that its alternatives share moved out of it, if there are any. -/
def factor? (alternatives : List Pattern) : Option Pattern := do
  if alternatives.length ≤ 1 || !alternatives.all isSequence then none
  else
    let (shortest, others) ← shortest? alternatives
    let shared := shareFrom shortest others shortest.length 0 {}
    if shared.left = 0 && shared.right = 0 then none
    else
      let rest := distinct <| alternatives.map fun a =>
        let middle := (a.parts.take (a.parts.length - shared.right)).drop shared.left
        if middle.isEmpty then .nothing else .sequence middle
      let middle : List Pattern := match rest with
        | [.nothing] => []
        | [p] => [p]
        | ps => [.choice ps]
      let left : List Pattern :=
        if shared.left = 0 then [] else [.sequence (shortest.take shared.left)]
      let right : List Pattern :=
        if shared.right = 0 then []
        else [.sequence (shortest.drop (shortest.length - shared.right))]
      some (.sequence (left ++ middle ++ right))

mutual

/-- The number of nodes of a pattern. -/
def size : Pattern → Nat
  | .sequence ps | .choice ps => sizes ps + 1
  | _ => 1

/-- The number of nodes of patterns. -/
def sizes : List Pattern → Nat
  | [] => 0
  | p :: rest => size p + sizes rest

end

/-- The matcher of a pattern. The fuel bounds the depth, which moving shared parts out of choices
can increase. -/
def matcherFuel : Nat → Pattern → Matcher
  | 0, _ => .nothing
  | fuel + 1, p =>
    match p with
    | .nothing => .nothing
    | .text t => .text t
    | .any | .anyDeep => .anything
    | .one => .one
    | .oneOf codes negated => Matcher.simplify (.oneOf codes negated)
    | .between low high negated => .between low high negated
    | .sequence [] => .nothing
    | .sequence ps =>
      let ms := ps.map fun p => (matcherFuel fuel p).simplify
      let joined := Matcher.joinAll ms.length ms
      (Matcher.ofParts joined.length joined).simplify
    | .choice ps =>
      match factor? ps with
      | some factored => matcherFuel fuel factored
      | none => .choice (ps.map fun p => (matcherFuel fuel p).simplify)

/-- The matcher of a pattern. -/
def matcher (p : Pattern) : Matcher := matcherFuel (4 * p.size + 4) p

end Pattern

/-- A pattern that is ready for use. -/
structure Glob where
  /-- The test that it stands for. -/
  matcher : Matcher
deriving Inhabited

namespace Glob

/-- The pattern that a text stands for. -/
def compile (s : Text) : Except PatternError Glob := do
  return ⟨(← Pattern.parse s).matcher⟩

/-- The pattern covers the whole name; nothing if the test has no answer. -/
def test (g : Glob) (name : Text) : Option Bool := g.matcher.test name

/-- Some pattern covers the name. The patterns are tested in order, up to the first that does. -/
def testAny : List Glob → Text → Option Bool
  | [], _ => some false
  | g :: rest, name => do
    if ← g.test name then return true else testAny rest name

/-- Some pattern covers some name. The names are tested in order, up to the first that is
covered. -/
def testNames (globs : List Glob) : List Text → Option Bool
  | [] => some false
  | name :: rest => do
    if ← testAny globs name then return true else testNames globs rest

end Glob

end ObjcLens
