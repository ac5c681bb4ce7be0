import ObjcLens.Yaml.Value

/-!
# Settings of YAML documents

The nodes of a document become settings. References are followed, and the entries that a key `<<`
stands for are added to those beside it, unless there are such. Names are used once.

References can make a small document stand for an enormous one, so the steps are counted, and too
large a part of them below references is refused.
-/

namespace ObjcLens

namespace Yaml

/-- The steps that were made. -/
structure Effort where
  /-- All steps. -/
  all : Nat := 0
  /-- The steps below a reference. -/
  referred : Nat := 0

namespace Effort

/-- The steps below references are too large a part. What is allowed goes down from 99 to 10 of a
hundred while the steps go up from 400000 to 4000000. -/
def isExcessive (e : Effort) : Bool :=
  let low := 400000
  let high := 4000000
  let tooMany : Bool :=
    if e.all ≤ low then 99 * e.all < 100 * e.referred
    else if high ≤ e.all then e.all < 10 * e.referred
    else
      (99 * (high - low) - 89 * (e.all - low)) * e.all < 100 * (high - low) * e.referred
  100 < e.referred && 1000 < e.all && tooMany

end Effort

/-- A computation that counts its steps and can fail. -/
abbrev Decode := StateT Effort Option

/-- Counts a step, below a reference or not. -/
def step (isReferred : Bool) : Decode Unit := do
  modify fun e => ⟨e.all + 1, e.referred + (if isReferred then 1 else 0)⟩
  if (← get).isExcessive then failure

namespace Node

/-- The node stands for a scalar that asks for the entries of others. -/
def isMerge : Node → Bool
  | .scalar tag shown isPlain =>
    shown = Text.ofString "<<" && ((tag = none && isPlain) || tag = some "!!merge")
  | _ => false

/-- What tells two keys apart: the kind of node, and its text or its name. -/
def identity : Node → Nat × Text
  | .scalar _ shown _ => (0, shown)
  | .list _ => (1, [])
  | .entries _ => (2, [])
  | .reference name _ => (3, name)

/-- Two keys are the same. -/
def hasTwins (pairs : List (Node × Node)) : Bool :=
  match pairs with
  | [] => false
  | (key, _) :: rest => (rest.any fun pair => pair.1.identity = key.identity) || hasTwins rest

/-- The node, or the one that it refers to, holds entries. -/
def holdsEntries : Node → Bool
  | .entries _ => true
  | .reference _ (.entries _) => true
  | _ => false

/-- The name that a key stands for. The inner nothing is a key without one, which only the root
leaves out. The steps below references are counted. -/
def name (isRoot : Bool) : Bool → Node → Decode (Option Text)
  | isReferred, .scalar tag shown isPlain => do
    step isReferred
    match scalarValue? tag shown isPlain with
    | none => failure
    | some .null => return if isRoot then none else some []
    | some value =>
      if isRoot && tag != some "!!binary" then return some shown else return some value.toText
  | isReferred, .reference _ target => do
    step isReferred
    target.name isRoot true
  | _, _ => failure

mutual

/-- The value of a node. -/
def value : Bool → Node → Decode SettingValue
  | isReferred, .scalar tag shown isPlain => do
    step isReferred
    match scalarValue? tag shown isPlain with
    | some value => return value
    | none => failure
  | isReferred, .list items => do
    step isReferred
    return .list (← values isReferred items)
  | isReferred, .entries pairs => do
    step isReferred
    if hasTwins pairs then failure
    let (own, seen) ← ownEntries false false isReferred [] pairs
    return .entries (SettingValue.distinct own ++ (← mergedEntries false isReferred seen pairs).1)
  | isReferred, .reference _ target => do
    step isReferred
    value true target

/-- The values of nodes. -/
def values : Bool → List Node → Decode (List SettingValue)
  | _, [] => return []
  | isReferred, node :: rest => do
    let first ← value isReferred node
    return first :: (← values isReferred rest)

/-- The entries of keys that do not ask for others, and the names that were seen with theirs. Where
others ask for them, those whose names were seen are left out. -/
def ownEntries (isRoot isAsked : Bool) : Bool → List Text → List (Node × Node) →
    Decode (List (Text × SettingValue) × List Text)
  | _, seen, [] => return ([], seen)
  | isReferred, seen, (key, node) :: rest => do
    if key.isMerge then ownEntries isRoot isAsked isReferred seen rest
    else match ← key.name isRoot isReferred with
      | none => ownEntries isRoot isAsked isReferred seen rest
      | some name =>
        if isAsked && seen.contains name then ownEntries isRoot isAsked isReferred seen rest
        else
          let first ← value isReferred node
          let (others, seen) ← ownEntries isRoot isAsked isReferred (name :: seen) rest
          return ((name, first) :: others, seen)

/-- The entries that a key asks for whose names were not seen, and the names that were seen with
theirs. -/
def mergedEntries (isRoot : Bool) : Bool → List Text → List (Node × Node) →
    Decode (List (Text × SettingValue) × List Text)
  | _, seen, [] => return ([], seen)
  | isReferred, seen, (key, node) :: rest => do
    if key.isMerge then mergeFrom isRoot isReferred seen node
    else mergedEntries isRoot isReferred seen rest

/-- The entries of a node that others ask for: entries, a reference to some, or a list of those. -/
def mergeFrom (isRoot : Bool) : Bool → List Text → Node →
    Decode (List (Text × SettingValue) × List Text)
  | isReferred, seen, .entries pairs => do
    step isReferred
    if hasTwins pairs then failure
    let (own, seen) ← ownEntries isRoot true isReferred seen pairs
    let (merged, seen) ← mergedEntries isRoot isReferred seen pairs
    return (own ++ merged, seen)
  | isReferred, seen, .reference _ target => do
    step isReferred
    if !target.holdsEntries then failure
    mergeFrom isRoot true seen target
  | isReferred, seen, .list items => mergeAll isRoot isReferred seen items
  | _, _, .scalar .. => failure

/-- The entries of several nodes that others ask for. -/
def mergeAll (isRoot : Bool) : Bool → List Text → List Node →
    Decode (List (Text × SettingValue) × List Text)
  | _, seen, [] => return ([], seen)
  | isReferred, seen, node :: rest => do
    if !node.holdsEntries then failure
    let (first, seen) ← mergeFrom isRoot isReferred seen node
    let (others, seen) ← mergeAll isRoot isReferred seen rest
    return (first ++ others, seen)

end

/-- The settings of the root of a document, which holds entries or nothing. -/
def settings : Node → Decode SettingValue
  | .scalar tag shown isPlain => do
    step false
    match scalarValue? tag shown isPlain with
    | some .null => return .null
    | _ => failure
  | .entries pairs => do
    step false
    if hasTwins pairs then failure
    let (own, seen) ← ownEntries true false false [] pairs
    return .entries (SettingValue.distinct own ++ (← mergedEntries true false seen pairs).1)
  | _ => failure

end Node

/-- The settings that a text stands for. -/
def read? (s : Text) : Option SettingValue := do
  match ← Node.ofTokens? (Token.scan (← characters? s)) with
  | none => return .null
  | some root => return (← (root.settings.run { all := 1 })).1

end Yaml

end ObjcLens
