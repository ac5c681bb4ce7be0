import ObjcLens.Text.Numeral

/-!
# Decoded types

Compilers describe the type of a variable or argument by a short text, the type encoding.
`ObjcType` is the tree behind such a text. Every node but an undecodable one carries the
qualifier letters that stood in front of it, in order.

* `ObjcType`: the tree.
* `ObjcType.isUnknown`: the node, or something it is built from, could not be decoded.
* `primitiveName?`, `qualifierWord?`: the two tables of letters.
-/

namespace ObjcLens

/-- The two kinds of aggregate. -/
inductive AggregateKind where
  | struct
  | union
deriving DecidableEq, Repr

/-- One member of an aggregate. -/
structure Member (α : Type) where
  /-- The name, empty for an unnamed member. -/
  name : Text
  /-- The type of the member. -/
  type : α
  /-- The bit width written after the type, zero if there is none. -/
  width : Nat
deriving BEq, DecidableEq, Repr

/-- A decoded type. The first field of a constructor holds the qualifier letters. -/
inductive ObjcType where
  /-- Text that is no type encoding, kept as it is. -/
  | unknown (raw : Text)
  /-- A type with a letter of its own. -/
  | primitive (quals : Text) (code : UInt8)
  /-- A pointer. -/
  | pointer (quals : Text) (elem : ObjcType)
  /-- An array of a fixed length. -/
  | array (quals : Text) (length : Nat) (elem : ObjcType)
  /-- An aggregate that is named but not described. -/
  | tag (quals : Text) (kind : AggregateKind) (name : Text)
  /-- An aggregate with its members. -/
  | aggregate (quals : Text) (kind : AggregateKind) (name : Text)
      (members : List (Member ObjcType))
  /-- A bit field of a width. -/
  | bitfield (quals : Text) (bits : Nat)
  /-- A pointer to a function. -/
  | function (quals : Text)
  /-- A block whose signature is not told. -/
  | block (quals : Text)
  /-- A block with its result and parameter types. -/
  | signature (quals : Text) (result : ObjcType) (params : List ObjcType)
  /-- An object, of a class if the name is not empty, that adopts protocols. -/
  | object (quals : Text) (name : Text) (protocols : List Text)
  /-- A selector. -/
  | selector (quals : Text)
  /-- A class object. -/
  | classObject (quals : Text)
deriving BEq, Repr, Inhabited

/-- The C names of the types that have a letter of their own. -/
def primitiveName? (code : UInt8) : Option String :=
  match Char.ofUInt8 code with
  | 'c' => some "char"
  | 'C' => some "unsigned char"
  | 's' => some "short"
  | 'S' => some "unsigned short"
  | 'i' => some "int"
  | 'I' => some "unsigned int"
  | 'l' => some "long"
  | 'L' => some "unsigned long"
  | 'q' => some "long long"
  | 'Q' => some "unsigned long long"
  | 't' => some "__int128"
  | 'T' => some "unsigned __int128"
  | 'f' => some "float"
  | 'd' => some "double"
  | 'D' => some "long double"
  | 'B' => some "BOOL"
  | 'v' => some "void"
  | '*' => some "char *"
  | '?' => some "void"
  | '%' => some "NXAtom"
  | _ => none

/-- The words of the qualifier letters. -/
def qualifierWord? (letter : UInt8) : Option String :=
  match Char.ofUInt8 letter with
  | 'r' => some "const"
  | 'n' => some "in"
  | 'N' => some "inout"
  | 'o' => some "out"
  | 'O' => some "bycopy"
  | 'R' => some "byref"
  | 'V' => some "oneway"
  | 'A' => some "_Atomic"
  | 'j' => some "_Complex"
  | '!' => some "__vector"
  | _ => none

/-- The letter qualifies the type that follows it. -/
def isQualifier (letter : UInt8) : Bool := (qualifierWord? letter).isSome

namespace ObjcType

mutual

/-- The node, or a part that its layout depends on, could not be decoded. The signature of a
block is no part of its layout. -/
def isUnknown : ObjcType → Bool
  | .unknown _ => true
  | .pointer _ elem | .array _ _ elem => elem.isUnknown
  | .aggregate _ _ _ members => anyUnknown members
  | _ => false

/-- The type of some member could not be decoded. -/
def anyUnknown : List (Member ObjcType) → Bool
  | [] => false
  | ⟨_, type, _⟩ :: rest => type.isUnknown || anyUnknown rest

end

/-- The names of the kinds of type, in the order of their numbers. -/
def kindNames : List String :=
  ["unknown", "primitive", "pointer", "array", "struct", "union", "bitfield", "block", "id",
   "selector", "class"]

/-- The name of the kind with a number. -/
def kindName (number : Nat) : Text :=
  match kindNames[number]? with
  | some name => Text.ofString name
  | none => "Kind(" ++ Text.dec number ++ ")"

/-- The number of the kind of a type. Functions count as blocks. -/
def kind : ObjcType → Nat
  | .unknown _ => 0
  | .primitive .. => 1
  | .pointer .. => 2
  | .array .. => 3
  | .tag _ .struct _ | .aggregate _ .struct _ _ => 4
  | .tag _ .union _ | .aggregate _ .union _ _ => 5
  | .bitfield .. => 6
  | .function _ | .block _ | .signature .. => 7
  | .object .. => 8
  | .selector _ => 9
  | .classObject _ => 10

/-- The width of a bit field, zero for any other type. -/
def bitWidth : ObjcType → Nat
  | .bitfield _ bits => bits
  | _ => 0

end ObjcType

/-- One argument of a method. -/
structure Param where
  /-- The type of the argument. -/
  type : ObjcType
  /-- Its offset in the argument frame. -/
  offset : Int
deriving Inhabited

/-- A decoded method signature. The receiver and the selector are the first two parameters. -/
structure MethodType where
  /-- The type of the result. -/
  result : ObjcType
  /-- The parameters in order. -/
  params : List Param
  /-- The size of the argument frame. -/
  stackSize : Nat
deriving Inhabited

end ObjcLens
