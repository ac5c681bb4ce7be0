import ObjcLens.Model.Walk
import ObjcLens.ObjcType.Reference
import ObjcLens.Renaming.Reserved

/-!
# Uses of names

Before names can be replaced it must be known how each of them is used. A use by an entity that
may be changed makes a name eligible; a use that must not change blocks it for good. A `Usage`
sums up the uses of one name, a `UsageTable` those of all names that were seen on a walk.
-/

namespace ObjcLens

/-- What a name stands for. -/
inductive SymbolKind where
  | className
  | categoryName
  | protocolName
  | ivar
  | property
  | selector
deriving DecidableEq, Repr

namespace SymbolKind

/-- The name of a kind. -/
def name : SymbolKind → Text
  | .className => "class"
  | .categoryName => "category"
  | .protocolName => "protocol"
  | .ivar => "ivar"
  | .property => "property"
  | .selector => "selector"

/-- The kind is that of an entity. -/
def isType : SymbolKind → Bool
  | .className | .categoryName | .protocolName => true
  | _ => false

/-- The kind is that of a selector or property. -/
def isMember : SymbolKind → Bool
  | .property | .selector => true
  | _ => false

end SymbolKind

namespace Renaming

/-- What may be renamed and how. The hash and the tests of names are parameters. -/
structure Rules where
  /-- The name must stay as it is. -/
  isIgnored : Text → Bool
  /-- It cannot be told whether the name must stay. -/
  isDoubtful : Text → Bool
  /-- An entity that is known by these names is to be renamed. -/
  inScope : List Text → Bool
  /-- It cannot be told whether such an entity is to be renamed. -/
  isScopeDoubtful : List Text → Bool
  /-- Names that are never given to a symbol, whatever they match. -/
  ignoredNames : List Text
  /-- Properties and selectors are renamed too. -/
  renameMembers : Bool
  /-- The hash of a name under a seed. -/
  hash : UInt64 → Text → UInt64
  /-- The seed. -/
  seed : UInt64
  /-- The length of generated names. -/
  nameLength : Nat
  /-- How many names are tried for a symbol. -/
  maxAttempts : Nat
  /-- The least number of definitions. -/
  padding : Int

/-- The uses of a name. -/
structure Usage where
  /-- What the name stands for. -/
  kind : SymbolKind
  /-- The kind is that of a use and not only of a reference. -/
  isDefined : Bool := false
  /-- Some use allows the name to be replaced. -/
  isEligible : Bool := false
  /-- Some use forbids it. -/
  isBlocked : Bool := false
  /-- The name is that of a property. -/
  isProperty : Bool := false
deriving DecidableEq, Repr

/-- The name may be replaced. -/
def Usage.isFree (u : Usage) : Bool := u.isEligible && !u.isBlocked

/-- The uses of all names, each name once. -/
abbrev UsageTable := List (Text × Usage)

namespace UsageTable

/-- The uses of a name. -/
def get? (t : UsageTable) (name : Text) : Option Usage :=
  (t.find? fun entry => entry.1 = name).map (·.2)

/-- The name was seen. -/
def knows (t : UsageTable) (name : Text) : Bool := (t.get? name).isSome

/-- The name was seen and may be replaced. -/
def isFree (t : UsageTable) (name : Text) : Bool := (t.get? name).any (·.isFree)

/-- The table with the uses of a name changed. A name that was not seen before starts from the
given uses. -/
def update (t : UsageTable) (name : Text) (new : Usage) (change : Usage → Usage) : UsageTable :=
  if t.knows name then
    t.map fun entry => if entry.1 = name then (name, change entry.2) else entry
  else (name, change new) :: t

end UsageTable

/-- A name of this kind may be defined as another. Selectors of the runtime may not. -/
def isRenameable (name : Text) (kind : SymbolKind) : Bool :=
  !kind.isMember || (isIdentifier name && !runtimeSelectors.contains name)

/-- A name is used. -/
def use (rules : Rules) (name : Text) (kind : SymbolKind) (eligible : Bool) (t : UsageTable) :
    UsageTable :=
  if name.isEmpty then t
  else
    let allowed := eligible && !rules.isIgnored name && isRenameable name kind
    t.update name { kind } fun u =>
      { u with
        kind := if u.isDefined then u.kind else kind
        isDefined := true
        isEligible := u.isEligible || allowed
        isBlocked := u.isBlocked || !allowed }

/-- A name is referred to. One that the model does not define belongs to someone else and is
blocked. -/
def refer (rules : Rules) (name : Text) (kind : SymbolKind) (inModel : Bool) (t : UsageTable) :
    UsageTable :=
  if name.isEmpty then t
  else if !inModel then use rules name kind false t
  else t.update name { kind } id

/-- A name inside a type is referred to. -/
def referIn (rules : Rules) (model : Model) (t : UsageTable) : Reference → UsageTable
  | .ofClass name => refer rules name .className (model.hasClass name) t
  | .ofProtocol name => refer rules name .protocolName (model.hasProtocol name) t
  | .ofTag name =>
    if name = Text.ofString "?" then t else refer rules name .className false t
  | .ofMember name => refer rules name .ivar false t

/-- The names inside a type are referred to. -/
def referAll (rules : Rules) (model : Model) (refs : List Reference) (t : UsageTable) :
    UsageTable :=
  refs.foldl (referIn rules model) t

/-- The pieces of a selector. -/
def selectorPieces (name : Text) : List Text :=
  Text.splitOn (byte ':') (if name.getLast? = some (byte ':') then name.dropLast else name)

/-- The pieces of a selector are used. -/
def useSelector (rules : Rules) (name : Text) (eligible : Bool) (t : UsageTable) : UsageTable :=
  (selectorPieces name).foldl
    (fun t piece => use rules piece .selector (eligible && rules.renameMembers) t) t

/-- The instance variable behind a property. -/
def backingIvar (p : Property) : Text :=
  if p.attributes.ivar.isEmpty then byte '_' :: p.name else p.attributes.ivar

/-- An entity may be renamed: its own name is not ignored, and it is in scope by one of its
names. -/
def mayRename (rules : Rules) (name : Text) (otherNames : List Text) : Bool :=
  !rules.isIgnored name && rules.inScope (name :: otherNames)

/-- It cannot be told whether an entity may be renamed. -/
def isEntityDoubtful (rules : Rules) (name : Text) (otherNames : List Text) : Bool :=
  rules.isDoubtful name || (!rules.isIgnored name && rules.isScopeDoubtful (name :: otherNames))

/-- It cannot be told whether a selector has a piece that must stay. -/
def isSelectorDoubtful (rules : Rules) (name : Text) : Bool :=
  (selectorPieces name).any fun piece => !piece.isEmpty && rules.isDoubtful piece

/-- What is known in the middle of a walk. -/
structure Survey where
  /-- The open entity may be renamed. -/
  eligible : Bool := false
  /-- The uses so far. -/
  table : UsageTable := []

/-- A property is used, and its accessors are. -/
def useProperty (rules : Rules) (model : Model) (eligible : Bool) (p : Property)
    (t : UsageTable) : UsageTable :=
  let t := use rules p.name .property (eligible && rules.renameMembers) t
  let t := if t.knows p.name then
      t.update p.name { kind := .property } fun u =>
        { u with kind := .property, isProperty := true }
    else t
  let t := referAll rules model (ObjcType.references? p.type) t
  let t := if p.attributes.getter.isEmpty then t
    else useSelector rules p.attributes.getter eligible t
  let t := if p.attributes.setter.isEmpty then t
    else useSelector rules p.attributes.setter eligible t
  if rules.renameMembers then t else use rules (backingIvar p) .ivar false t

/-- What is known after one more event. -/
def Survey.see (rules : Rules) (model : Model) (s : Survey) : Event → Survey
  | .start => { s with table := [] }
  | .finish => s
  | .enterProtocol p =>
    let eligible := mayRename rules p.name []
    ⟨eligible, referAll rules model (p.protocols.map .ofProtocol)
      (use rules p.name .protocolName eligible s.table)⟩
  | .enterClass c =>
    let eligible := mayRename rules c.name []
    ⟨eligible, referAll rules model (.ofClass c.superclass :: c.protocols.map .ofProtocol)
      (use rules c.name .className eligible s.table)⟩
  | .enterCategory c =>
    let eligible := mayRename rules c.name [c.className]
    ⟨eligible, referAll rules model (.ofClass c.className :: c.protocols.map .ofProtocol)
      (use rules c.name .categoryName eligible s.table)⟩
  | .leaveProtocol _ | .leaveClass _ | .leaveCategory _ => { s with eligible := false }
  | .ivar v =>
    let table := use rules v.name .ivar s.eligible s.table
    { s with table := referAll rules model (ObjcType.references? v.type) table }
  | .method m _ =>
    let table := useSelector rules m.name s.eligible s.table
    { s with table := referAll rules model ((m.type.map (·.references)).getD []) table }
  | .property p _ => { s with table := useProperty rules model s.eligible p s.table }

/-- It cannot be told what is known after one more event: a test that has to be made has no answer.
Only names of entities that may be renamed are tested. -/
def Survey.isDoubtful (rules : Rules) (s : Survey) : Event → Bool
  | .enterProtocol p => isEntityDoubtful rules p.name []
  | .enterClass c => isEntityDoubtful rules c.name []
  | .enterCategory c => isEntityDoubtful rules c.name [c.className]
  | .ivar v => s.eligible && !v.name.isEmpty && rules.isDoubtful v.name
  | .method m _ => s.eligible && rules.renameMembers && isSelectorDoubtful rules m.name
  | .property p _ =>
    s.eligible && rules.renameMembers &&
      ((!p.name.isEmpty && rules.isDoubtful p.name) ||
        isSelectorDoubtful rules p.attributes.getter ||
        isSelectorDoubtful rules p.attributes.setter)
  | _ => false

end Renaming

end ObjcLens
