import ObjcLens.Bytes
import ObjcLens.Log
import ObjcLens.Quicksort
import ObjcLens.Renaming.Usage

/-!
# Replacement names

Every name that may be replaced gets a new one, in the order of names, so that the result
depends only on the set of uses. A new name is derived from a hash of the old one and a number
of attempts; it is taken if nobody uses it. A property takes its instance variable and its
setter along.
-/

namespace ObjcLens

namespace Renaming

/-- A name with its replacement. -/
structure Rename where
  /-- The old name. -/
  old : Text
  /-- The new name. -/
  new : Text
  /-- What it stands for. -/
  kind : SymbolKind
deriving DecidableEq, Repr

/-- The length of the longest generated names. -/
def maxNameLength : Nat := 14

/-- The letter in upper case. -/
def upperLetter (b : UInt8) : UInt8 := if 0x61 ≤ b && b ≤ 0x7A then b - 0x20 else b

/-- The name that a hash stands for: a letter, then digits of base 36. -/
def nameOfHash (length : Nat) (upper : Bool) (h : UInt64) : Text :=
  let letter := (0x61 + h.toNat % 26).toUInt8
  let digits := Text.zeroPad (maxNameLength - 1) (Text.inBase 36 (h.toNat / 26))
  (if upper then upperLetter letter else letter) :: digits.drop (digits.length - (length - 1))

/-- The name that is tried for a symbol at an attempt. -/
def candidate (rules : Rules) (name : Text) (attempt : Nat) (upper : Bool) : Text :=
  nameOfHash rules.nameLength upper (rules.hash (rules.seed + attempt.toUInt64) name)

/-- The setter of a property. -/
def setter (name : Text) : Text :=
  match name with
  | [] => "set"
  | b :: rest => "set" ++ upperLetter b :: rest

/-- The instance variable of a property. -/
def ivarOf (name : Text) : Text := byte '_' :: name

/-- What has been given away so far. -/
structure Ledger where
  /-- The names that must not be used again. -/
  reserved : List Text
  /-- The replacements, the last one first. -/
  renames : List Rename := []
  /-- Symbols for which no name was found, the last one first. -/
  failures : List Text := []
  /-- The log, the last entry first. -/
  log : List LogEntry := []
  /-- A test that had to be made has no answer. -/
  isInDoubt : Bool := false

/-- The name is free: nobody uses it, and it is neither a keyword nor ignored. -/
def Ledger.isFree (rules : Rules) (l : Ledger) (name : Text) : Bool :=
  !(l.reserved.contains name || keywords.contains name || rules.isIgnored name)

/-- It cannot be told whether some names are free. They are tested in order, up to the first that is
not free. -/
def Ledger.isDoubtful (rules : Rules) (l : Ledger) : List Text → Bool
  | [] => false
  | name :: rest =>
    if l.reserved.contains name || keywords.contains name then false
    else rules.isDoubtful name || (!rules.isIgnored name && l.isDoubtful rules rest)

/-- The name is given away. -/
def Ledger.commit (l : Ledger) (r : Rename) : Ledger :=
  { l with
    reserved := r.new :: l.reserved
    renames := r :: l.renames
    log := ⟨.debug, "renamed symbol", [("kind", r.kind.name), ("old", r.old), ("new", r.new)]⟩ ::
      l.log }

/-- The replacements that come with one of a symbol: those of the instance variable and the
setter of a property, if they are used. -/
def renamesOf (t : UsageTable) (name : Text) (u : Usage) (new : Text) : List Rename :=
  if !u.isProperty then [⟨name, new, u.kind⟩]
  else
    let ivar : List Rename :=
      if t.knows (ivarOf name) then [⟨ivarOf name, ivarOf new, .ivar⟩] else []
    let accessor : List Rename :=
      if t.knows (setter name) then [⟨setter name, setter new, .selector⟩] else []
    ⟨name, new, .property⟩ :: ivar ++ accessor

/-- The names that must be free for a symbol to get a new name. -/
def neededNames (u : Usage) (new : Text) : List Text :=
  if u.isProperty then [new, ivarOf new, setter new] else [new]

/-- The new name of a symbol at an attempt. Instance variables keep their underscore. -/
def newName (rules : Rules) (name : Text) (u : Usage) (attempt : Nat) : Text :=
  let new := candidate rules name attempt u.kind.isType
  if u.kind = .ivar && name.head? = some (byte '_') then ivarOf new else new

/-- The ledger with a name for a symbol, from an attempt on; nothing if none of the attempts that
are left gives a free one. -/
def tryNames (rules : Rules) (t : UsageTable) (name : Text) (u : Usage) (l : Ledger) :
    Nat → Nat → Option Ledger
  | 0, _ => none
  | left + 1, attempt =>
    let new := newName rules name u attempt
    if (neededNames u new).all (l.isFree rules) then
      some ((renamesOf t name u new).foldl Ledger.commit l)
    else tryNames rules t name u l left (attempt + 1)

/-- It cannot be told which name a symbol gets. -/
def isAttemptDoubtful (rules : Rules) (name : Text) (u : Usage) (l : Ledger) : Nat → Nat → Bool
  | 0, _ => false
  | left + 1, attempt =>
    let needed := neededNames u (newName rules name u attempt)
    l.isDoubtful rules needed ||
      (!needed.all (l.isFree rules) && isAttemptDoubtful rules name u l left (attempt + 1))

/-- The ledger with a name for a symbol, or with the failure to find one. -/
def assignOne (rules : Rules) (t : UsageTable) (l : Ledger) (name : Text) : Ledger :=
  match t.get? name with
  | none => l
  | some u =>
    let l := { l with
      isInDoubt := l.isInDoubt || isAttemptDoubtful rules name u l rules.maxAttempts 0 }
    match tryNames rules t name u l rules.maxAttempts 0 with
    | some l => l
    | none =>
      let error := Error.ambiguous name rules.maxAttempts
      { l with
        failures := name :: l.failures
        log := ⟨.warn, "keeping original name", [("error", error.message)]⟩ :: l.log }

/-- The names that may be replaced, in order. -/
def freeNames (t : UsageTable) : List Text :=
  Text.sort ((t.filter fun entry => entry.2.isFree).map (·.1))

/-- The name is that of a property. -/
def isProperty (t : UsageTable) (name : Text) : Bool := (t.get? name).any (·.isProperty)

/-- A name can follow a property: nobody uses it, or it may be replaced. -/
def canFollow (t : UsageTable) (name : Text) : Bool := !t.knows name || t.isFree name

/-- The property cannot be replaced because its instance variable or its setter cannot. -/
def isHeldBack (t : UsageTable) (name : Text) : Bool :=
  isProperty t name && !(canFollow t (ivarOf name) && canFollow t (setter name))

/-- The names that follow the properties among the given names. -/
def followers (t : UsageTable) (names : List Text) : List Text :=
  (names.filter fun name => isProperty t name && !isHeldBack t name).flatMap fun name =>
    [ivarOf name, setter name]

/-- The names that get a replacement of their own. -/
def leaders (t : UsageTable) : List Text :=
  let names := freeNames t
  let following := followers t names
  names.filter fun name => !following.contains name && !isHeldBack t name

/-- The number of names that are tried for padding. -/
def paddingLimit (rules : Rules) : Nat :=
  (signed64 (wrap64 (rules.padding * rules.maxAttempts))).toNat

/-- More unused names, the last one first, until there are enough. -/
def pad (rules : Rules) (l : Ledger) : Nat → Nat → List Text → List Text
  | 0, _, names => names
  | left + 1, index, names =>
    if rules.padding ≤ l.renames.length + names.length then names
    else
      let name := candidate rules ("padding" ++ Text.dec index) 0 false
      if l.isFree rules name && !names.contains name then
        pad rules l left (index + 1) (name :: names)
      else pad rules l left (index + 1) names

/-- It cannot be told which unused names there are. -/
def isPaddingDoubtful (rules : Rules) (l : Ledger) : Nat → Nat → List Text → Bool
  | 0, _, _ => false
  | left + 1, index, names =>
    if rules.padding ≤ l.renames.length + names.length then false
    else
      let name := candidate rules ("padding" ++ Text.dec index) 0 false
      if names.contains name then isPaddingDoubtful rules l left (index + 1) names
      else if l.isDoubtful rules [name] then true
      else if l.isFree rules name then isPaddingDoubtful rules l left (index + 1) (name :: names)
      else isPaddingDoubtful rules l left (index + 1) names

/-- The result of renaming. -/
structure Assignment where
  /-- The replacements in the order of the old names. -/
  renames : List Rename := []
  /-- Names that are defined as themselves. -/
  padding : List Text := []
  /-- Why symbols kept their names. -/
  errors : List Error := []
  /-- The log. -/
  log : List LogEntry := []
  /-- A test that had to be made has no answer. -/
  isInDoubt : Bool := false

/-- Replacements for the names of a table. -/
def assign (rules : Rules) (t : UsageTable) : Assignment :=
  let start : Ledger := { reserved := t.map (·.1) ++ rules.ignoredNames }
  let l := (leaders t).foldl (assignOne rules t) start
  { renames := Quicksort.sort (fun a b => Text.le a.old b.old) l.renames.reverse
    padding := (pad rules l (paddingLimit rules) 0 []).reverse
    errors := l.failures.reverse.map fun name => .ambiguous name rules.maxAttempts
    log := l.log.reverse
    isInDoubt := l.isInDoubt || isPaddingDoubtful rules l (paddingLimit rules) 0 [] }

/-- A survey of a model, and the replacements once it is finished. -/
structure Renamer where
  /-- What is known of the names. -/
  survey : Survey := {}
  /-- The replacements. -/
  result : Assignment := {}
  /-- A test that had to be made has no answer. -/
  isInDoubt : Bool := false

namespace Renamer

/-- The renamer after one more event. -/
def see (rules : Rules) (model : Model) (r : Renamer) (e : Event) : Renamer :=
  let survey := r.survey.see rules model e
  let isInDoubt := r.isInDoubt || r.survey.isDoubtful rules e
  match e with
  | .start => ⟨survey, {}, isInDoubt⟩
  | .finish =>
    let result := assign rules survey.table
    ⟨survey, result, isInDoubt || result.isInDoubt⟩
  | _ => { r with survey, isInDoubt }

/-- The renamer after a walk. -/
def seeAll (rules : Rules) (model : Model) (r : Renamer) (events : List Event) : Renamer :=
  events.foldl (see rules model) r

/-- The replacements after a walk, if all tests that had to be made have an answer. -/
def outcome (r : Renamer) : Except Error Assignment :=
  if r.isInDoubt then .error .undecided else .ok r.result

end Renamer

end Renaming

end ObjcLens
