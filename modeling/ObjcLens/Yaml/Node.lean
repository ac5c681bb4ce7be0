import ObjcLens.Yaml.Token

/-!
# Nodes of YAML documents

The tokens of the first document of a text become a tree of scalars, lists and entries. A node can
have a name, by which later nodes refer to it: such a reference holds the node it stands for. A node
cannot refer to one that it is part of.

`Node.ofTokens?` gives the tree, nothing for a text without a document.
-/

namespace ObjcLens

namespace Yaml

/-- A node of a document. -/
inductive Node where
  /-- A scalar: its tag, its text, and whether it is written plainly. -/
  | scalar (tag : Option Text) (shown : Text) (isPlain : Bool)
  /-- A list. -/
  | list (items : List Node)
  /-- Keys with values. -/
  | entries (pairs : List (Node × Node))
  /-- Another node, by its name. -/
  | reference (name : Text) (target : Node)
deriving Repr

namespace Node

/-- The node of a place where nothing is written. -/
def empty : Node := .scalar none [] true

/-- A name for a node. While the node is read, it is not known. -/
structure Anchor where
  /-- The name. -/
  name : Text
  /-- The number of names given before. -/
  serial : Nat
  /-- The node. -/
  node : Option Node := none

/-- The tokens that are left, and what was read before. -/
structure Progress where
  /-- The tokens that are left. -/
  tokens : List Token
  /-- The names of nodes, the last one first. -/
  anchors : List Anchor := []
  /-- The short forms for the beginning of tags. -/
  handles : List (Text × Text) := []

/-- A reader of tokens. -/
abbrev Compose := StateT Progress Option

/-- The next token. -/
def peek : Compose Token := do
  match (← get).tokens with
  | t :: _ => pure t
  | [] => failure

/-- The next token is passed. -/
def pass : Compose Unit := modify fun p => { p with tokens := p.tokens.drop 1 }

/-- What stands in front of a node: its name and its tag, in any order. -/
structure Properties where
  /-- The name. -/
  anchor : Option Text := none
  /-- The short form and the rest of the tag. -/
  tag : Option (Text × Text) := none

/-- Reads what stands in front of a node. -/
def properties : Compose Properties := do
  match ← peek with
  | .anchor name =>
    pass
    match ← peek with
    | .tag handle suffix =>
      pass
      return { anchor := some name, tag := some (handle, suffix) }
    | _ => return { anchor := some name }
  | .tag handle suffix =>
    pass
    match ← peek with
    | .anchor name =>
      pass
      return { anchor := some name, tag := some (handle, suffix) }
    | _ => return { tag := some (handle, suffix) }
  | _ => return {}

/-- The tag without a short form. -/
def fullTag (handle suffix : Text) : Compose Text := do
  if handle.isEmpty then return suffix
  else match (← get).handles.find? fun known => known.1 = handle with
    | some (_, lead) => return lead ++ suffix
    | none => failure

/-- The name of the standard tags. -/
def standardLead : Text := "tag:yaml.org,2002:"

/-- The tag as it is compared: a standard one starts with two marks, and a single mark is no tag. -/
def shownTag (tag : Text) : Option Text :=
  if tag = Text.ofString "!" then none
  else if standardLead.isPrefixOf tag then some ("!!" ++ tag.drop standardLead.length)
  else some tag

/-- Gives a name to a node that is not known yet. -/
def announce (name : Text) : Compose Nat := do
  let serial := (← get).anchors.length
  modify fun p => { p with anchors := { name, serial } :: p.anchors }
  return serial

/-- The node that a name was given to is known. -/
def settle (serial : Nat) (node : Node) : Compose Unit :=
  modify fun p => { p with
    anchors := p.anchors.map fun a => if a.serial = serial then { a with node } else a }

/-- The node that a name stands for. -/
def referTo (name : Text) : Compose Node := do
  match ((← get).anchors.find? fun a => a.name = name).bind (·.node) with
  | some target => return .reference name target
  | none => failure

/-- The next token cannot start an item or an entry of a collection by indentation. -/
def isBlockGap (t : Token) : Bool := t = .key || t = .value || t = .blockEnd

/-- The next token cannot start an item or an entry between brackets that end so. -/
def isFlowGap (closing t : Token) : Bool := t = .comma || t = closing

mutual

/-- The node here. The flags tell whether collections by indentation can start here, and whether a
list can start at the indentation of its key. The fuel bounds the number of steps. -/
def read : Nat → Bool → Bool → Compose Node
  | 0, _, _ => failure
  | fuel + 1, block, indentless => do
    match ← peek with
    | .reference name =>
      pass
      referTo name
    | _ =>
      let p ← properties
      let tag ← match p.tag with
        | some (handle, suffix) => do pure (shownTag (← fullTag handle suffix))
        | none => pure none
      let serial ← match p.anchor with
        | some name => do pure (some (← announce name))
        | none => pure none
      let node ← content fuel block indentless (p.anchor.isSome || p.tag.isSome) tag
      match serial with
      | some serial => settle serial node
      | none => pure ()
      return node

/-- The node here behind its name and its tag. If there are any, it can be empty. -/
def content : Nat → Bool → Bool → Bool → Option Text → Compose Node
  | 0, _, _, _, _ => failure
  | fuel + 1, block, indentless, canBeEmpty, tag => do
    let other : Compose Node := if canBeEmpty then pure (.scalar tag [] true) else failure
    match ← peek with
    | .scalar shown isPlain =>
      pass
      return .scalar tag shown isPlain
    | .item => if indentless then return .list (← indentlessItems fuel) else other
    | .openBracket =>
      pass
      return .list (← flowItems fuel true)
    | .openBrace =>
      pass
      return .entries (← flowPairs fuel true)
    | .listStart =>
      if block then
        pass
        return .list (← blockItems fuel)
      else other
    | .entriesStart =>
      if block then
        pass
        return .entries (← blockPairs fuel)
      else other
    | _ => other

/-- The items of a list by indentation. -/
def blockItems : Nat → Compose (List Node)
  | 0 => failure
  | fuel + 1 => do
    match ← peek with
    | .item =>
      pass
      let t ← peek
      let item ← if t = .item || t = .blockEnd then pure empty else read fuel true false
      return item :: (← blockItems fuel)
    | .blockEnd =>
      pass
      return []
    | _ => failure

/-- The items of a list at the indentation of its key. -/
def indentlessItems : Nat → Compose (List Node)
  | 0 => failure
  | fuel + 1 => do
    match ← peek with
    | .item =>
      pass
      let t ← peek
      let item ← if t = .item || isBlockGap t then pure empty else read fuel true false
      return item :: (← indentlessItems fuel)
    | _ => return []

/-- The entries by indentation. -/
def blockPairs : Nat → Compose (List (Node × Node))
  | 0 => failure
  | fuel + 1 => do
    match ← peek with
    | .key =>
      pass
      let key ← if isBlockGap (← peek) then pure empty else read fuel true true
      let value ← if (← peek) = .value then do
          pass
          if isBlockGap (← peek) then pure empty else read fuel true true
        else pure empty
      return (key, value) :: (← blockPairs fuel)
    | .blockEnd =>
      pass
      return []
    | _ => failure

/-- The value of an entry between brackets that end so; there need not be one. -/
def flowValue : Nat → Token → Compose Node
  | 0, _ => failure
  | fuel + 1, closing => do
    if (← peek) = .value then
      pass
      if isFlowGap closing (← peek) then pure empty else read fuel false false
    else pure empty

/-- The items up to a closing bracket. A single entry can be an item. -/
def flowItems : Nat → Bool → Compose (List Node)
  | 0, _ => failure
  | fuel + 1, isFirst => do
    if (← peek) = .closeBracket then
      pass
      return []
    if !isFirst then
      if (← peek) = .comma then pass else failure
    match ← peek with
    | .closeBracket =>
      pass
      return []
    | .key =>
      pass
      let t ← peek
      let key ← if t = .value || isFlowGap .closeBracket t then do
          pass
          pure empty
        else read fuel false false
      let value ← flowValue fuel .closeBracket
      return .entries [(key, value)] :: (← flowItems fuel false)
    | _ =>
      let item ← read fuel false false
      return item :: (← flowItems fuel false)

/-- The entries up to a closing brace. -/
def flowPairs : Nat → Bool → Compose (List (Node × Node))
  | 0, _ => failure
  | fuel + 1, isFirst => do
    if (← peek) = .closeBrace then
      pass
      return []
    if !isFirst then
      if (← peek) = .comma then pass else failure
    match ← peek with
    | .closeBrace =>
      pass
      return []
    | .key =>
      pass
      let t ← peek
      let key ← if t = .value || isFlowGap .closeBrace t then pure empty else read fuel false false
      let value ← flowValue fuel .closeBrace
      return (key, value) :: (← flowPairs fuel false)
    | _ =>
      let key ← read fuel false false
      return (key, empty) :: (← flowPairs fuel false)

end

/-- Reads directives: the version is told once at most, and each short form, too. The fuel bounds
their number. -/
def directives : Nat → Bool → Compose Unit
  | 0, _ => failure
  | fuel + 1, hasVersion => do
    match ← peek with
    | .version major minor =>
      if hasVersion || major ≠ 1 || minor ≠ 1 then failure
      pass
      directives fuel true
    | .tagHandle handle lead =>
      if (← get).handles.any fun known => known.1 = handle then failure
      modify fun p => { p with handles := p.handles ++ [(handle, lead)] }
      pass
      directives fuel hasVersion
    | _ => pure ()

/-- The short forms that every document has, behind its own. -/
def standardHandles : List (Text × Text) := [("!", "!"), ("!!", standardLead)]

/-- The token stands between documents. -/
def isBetween : Token → Bool
  | .version .. | .tagHandle .. | .documentStart | .documentEnd | .streamEnd => true
  | _ => false

/-- The first document. -/
def document : Compose (Option Node) := do
  let fuel := 4 * (← get).tokens.length + 4
  let t ← peek
  if t = .streamEnd then return none
  directives fuel false
  modify fun p => { p with handles := p.handles ++ standardHandles }
  let isExplicit := isBetween t && t ≠ .documentEnd
  if isExplicit then
    if (← peek) = .documentStart then pass else failure
  let root ← if isExplicit && isBetween (← peek) then pure empty else read fuel true false
  let _ ← peek
  return some root

/-- The first document of tokens; an inner nothing if there is none. -/
def ofTokens? (tokens : List Token) : Option (Option Node) :=
  (document.run { tokens }).map (·.1)

end Node

end Yaml

end ObjcLens
