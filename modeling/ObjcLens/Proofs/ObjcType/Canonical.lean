import Mathlib
import ObjcLens.ObjcType.Decode

/-!
# Canonical types

Not every tree is read back from its encoding. The writer looks at one node at a time, but the
reader looks ahead: `^?` is a function and not a pointer, `@?` a block, quoted text behind `@` the
class of an object, and a colon with digits a width. `ObjcType.isCanonical` describes the trees
in which no part is mistaken for another.

* `ObjcType.height`: how deep a tree is nested; a tree without parts has height one.
* `ObjcType.parts`: the trees right below the root of a tree.
* `ObjcType.isCanonical`: the trees that are read back.
-/

namespace ObjcLens

namespace ObjcType

mutual

/-- The nesting of a type. -/
def height : ObjcType → Nat
  | .pointer _ elem | .array _ _ elem => elem.height + 1
  | .aggregate _ _ _ members => membersHeight members + 1
  | .signature _ result params => max result.height (allHeight params) + 1
  | _ => 1

/-- The nesting of the deepest member. -/
def membersHeight : List (Member ObjcType) → Nat
  | [] => 0
  | ⟨_, type, _⟩ :: rest => max type.height (membersHeight rest)

/-- The nesting of the deepest type of a list. -/
def allHeight : List ObjcType → Nat
  | [] => 0
  | type :: rest => max type.height (allHeight rest)

end

/-- Every type has a height. -/
theorem height_pos (t : ObjcType) : 0 < t.height := by
  cases t <;> simp [height]

theorem height_le_of_mem (types : List ObjcType) :
    ∀ t ∈ types, t.height ≤ allHeight types := by
  induction types with
  | nil => simp
  | cons t rest ih =>
    rw [allHeight]
    rintro u (_ | ⟨_, hu⟩)
    · exact Nat.le_max_left _ _
    · exact (ih u hu).trans (Nat.le_max_right _ _)

theorem height_le_of_mem_members (members : List (Member ObjcType)) :
    ∀ m ∈ members, m.type.height ≤ membersHeight members := by
  induction members with
  | nil => simp
  | cons m rest ih =>
    rw [membersHeight]
    rintro u (_ | ⟨_, hu⟩)
    · exact Nat.le_max_left _ _
    · exact (ih u hu).trans (Nat.le_max_right _ _)

/-- The types that a type is built from. -/
def parts : ObjcType → List ObjcType
  | .pointer _ elem | .array _ _ elem => [elem]
  | .aggregate _ _ _ members => members.map (·.type)
  | .signature _ result params => result :: params
  | _ => []

/-- A part of a type is less high than the type. -/
theorem height_lt_of_mem_parts {t u : ObjcType} (h : u ∈ t.parts) : u.height < t.height := by
  cases t with
  | pointer quals elem | array quals length elem =>
    rw [List.mem_singleton.1 h, height]
    exact Nat.lt_succ_self _
  | aggregate quals kind name members =>
    obtain ⟨m, hm, rfl⟩ := List.mem_map.1 h
    exact Nat.lt_succ_of_le (height_le_of_mem_members members m hm)
  | signature quals result params =>
    rcases List.mem_cons.1 h with rfl | h
    · exact Nat.lt_succ_of_le (Nat.le_max_left _ _)
    · exact Nat.lt_succ_of_le ((height_le_of_mem params u h).trans (Nat.le_max_right _ _))
  | _ => cases h

/-- What passes from the parts of a type to the type holds of all types. -/
theorem induction_parts {p : ObjcType → Prop} (node : ∀ t, (∀ u ∈ t.parts, p u) → p t)
    (t : ObjcType) : p t :=
  (measure height).wf.induction t fun t ih => node t fun u hu => ih u (height_lt_of_mem_parts hu)

/-- The type is the letter `?` without qualifiers. -/
def isBareQuestion : ObjcType → Bool
  | .primitive [] code => code = byte '?'
  | _ => false

/-- The type is an object without class and protocols, or a chain of pointers to one: its encoding
ends with `@`. -/
def endsInBareObject : ObjcType → Bool
  | .object _ name protocols => name.isEmpty && protocols.isEmpty
  | .pointer _ elem => elem.endsInBareObject
  | _ => false

/-- The type is a bit field, or a chain of pointers to one: its encoding ends with the digits of a
width. -/
def endsInBitfield : ObjcType → Bool
  | .bitfield _ _ => true
  | .pointer _ elem => elem.endsInBitfield
  | _ => false

/-- The type is a block whose signature is not told, or a chain of pointers to one: its encoding
ends with `@?`. -/
def endsInBareBlock : ObjcType → Bool
  | .block _ => true
  | .pointer _ elem => elem.endsInBareBlock
  | _ => false

/-- The type is a chain of pointers to an object without class and protocols. -/
def isChainToBareObject : ObjcType → Bool
  | .pointer _ elem => elem.endsInBareObject
  | _ => false

/-- The type is an object with a class or protocols. -/
def isQualifiedObject : ObjcType → Bool
  | .object _ name protocols => !(name.isEmpty && protocols.isEmpty)
  | _ => false

/-- The text has no quotation mark. -/
def isQuoteFree (s : Text) : Bool := !s.contains (byte '"')

/-- The name of an aggregate can be told from what follows it: it reaches neither an equals sign
nor the closing bracket outside angle brackets, and its angle brackets are balanced at the end. -/
def isTagName (closer : UInt8) (depth : Int) : Text → Bool
  | [] => depth = 0
  | c :: rest =>
    !(depth = 0 && (c = byte '=' || c = closer)) &&
      isTagName closer
        (if c = byte '<' then depth + 1 else if c = byte '>' then depth - 1 else depth) rest

/-- The name of a class inside quotation marks. -/
def isClassName (s : Text) : Bool := isQuoteFree s && !s.contains (byte '<')

/-- The byte is an angle bracket. -/
def isAngle (c : UInt8) : Bool := c = byte '<' || c = byte '>'

/-- The name of a protocol inside angle brackets. -/
def isProtocolName (s : Text) : Bool :=
  !s.isEmpty && isQuoteFree s && !s.head?.any isAngle && !s.getLast?.any isAngle &&
    !Text.isInfixOf "><" s

/-- A class name is a text with neither a quotation mark nor an angle bracket. -/
theorem isClassName_iff {s : Text} : isClassName s = true ↔ byte '"' ∉ s ∧ byte '<' ∉ s := by
  simp only [isClassName, isQuoteFree, Bool.and_eq_true, Bool.not_eq_true', List.contains_eq_mem,
    decide_eq_false_iff_not]

/-- A protocol name is some text without quotation marks that is neither trimmed at its ends nor
cut in its middle. -/
theorem isProtocolName_iff {s : Text} :
    isProtocolName s = true ↔ s ≠ [] ∧ byte '"' ∉ s ∧ s.head?.any isAngle = false ∧
      s.getLast?.any isAngle = false ∧ Text.cutText? "><" s = none := by
  simp only [isProtocolName, isQuoteFree, Text.isInfixOf, Bool.and_eq_true, Bool.not_eq_true',
    List.isEmpty_eq_false_iff, List.contains_eq_mem, decide_eq_false_iff_not,
    Option.isSome_eq_false_iff, Option.isNone_iff_eq_none, and_assoc]

/-- No element of a list clashes with the one behind it. -/
def hasNoClash {α : Type} (clash : α → α → Bool) : List α → Bool
  | a :: b :: rest => !clash a b && hasNoClash clash (b :: rest)
  | _ => true

/-- Two types in a row that are read as if the first were a block. -/
def clashes (a b : ObjcType) : Bool := a.endsInBareObject && b.isBareQuestion

/-- Two members in a row of which the types clash. A name or a width between them prevents it. -/
def memberClashes (a b : Member ObjcType) : Bool :=
  a.width = 0 && b.name.isEmpty && clashes a.type b.type

/-- The members of an aggregate can be told apart: all of them are named or none is, an object with
a class or protocols has no width if it is named, a named chain of pointers to a bare object is the
last member, and no two members clash. -/
def isMemberList (members : List (Member ObjcType)) : Bool :=
  (members.all (·.name.isEmpty) || members.all (!·.name.isEmpty)) &&
    members.all (fun m => isQuoteFree m.name && m.width < 2 ^ 63) &&
    members.all (fun m => m.name.isEmpty || !m.type.isQualifiedObject || m.width = 0) &&
    members.dropLast.all (fun m => m.name.isEmpty || !m.type.isChainToBareObject) &&
    hasNoClash memberClashes members

mutual

/-- The type is read back from its encoding, if it is not nested too deep. -/
def isCanonical : ObjcType → Bool
  | .unknown _ => false
  | .primitive quals code => quals.all isQualifier && (primitiveName? code).isSome
  | .pointer quals elem => quals.all isQualifier && !elem.isBareQuestion && elem.isCanonical
  | .array quals length elem => quals.all isQualifier && length < 2 ^ 63 && elem.isCanonical
  | .tag quals kind name => quals.all isQualifier && isTagName kind.closer 0 name
  | .aggregate quals kind name members =>
    quals.all isQualifier && isTagName kind.closer 0 name && isMemberList members &&
      areCanonicalMembers members
  | .bitfield quals bits => quals.all isQualifier && bits < 2 ^ 63
  | .function quals | .block quals | .selector quals | .classObject quals =>
    quals.all isQualifier
  | .signature quals result params =>
    quals.all isQualifier && hasNoClash clashes (result :: params) && result.isCanonical &&
      areCanonical params
  | .object quals name protocols =>
    quals.all isQualifier && isClassName name && protocols.all isProtocolName

/-- The types of all members are read back. -/
def areCanonicalMembers : List (Member ObjcType) → Bool
  | [] => true
  | ⟨_, type, _⟩ :: rest => type.isCanonical && areCanonicalMembers rest

/-- All types of a list are read back. -/
def areCanonical : List ObjcType → Bool
  | [] => true
  | type :: rest => type.isCanonical && areCanonical rest

end

end ObjcType

end ObjcLens
