import ObjcLens.ObjcType.Basic

/-!
# C declarations

How types, variables and methods are written in a header. `ObjcType.render` writes a type;
`ObjcType.declare` writes the declaration of a name, with the members of aggregates written
out. A type that is absent is written `void`.
-/

namespace ObjcLens

namespace ObjcType

/-- A type and a name with a blank between them, the type alone if the name is empty. -/
def joinName (type name : Text) : Text := if name.isEmpty then type else type ++ " " ++ name

/-- The words of the qualifier letters, each followed by a blank. -/
def qualifierWords (quals : Text) : Text :=
  quals.flatMap fun letter => match qualifierWord? letter with
    | some word => Text.ofString word ++ " "
    | none => []

/-- The C type of an object with these class and protocol names. -/
def renderObject (name : Text) (protocols : List Text) : Text :=
  let adopted := "<" ++ Text.joinWith ", " protocols ++ ">"
  match name.isEmpty, protocols.isEmpty with
  | false, false => name ++ adopted ++ " *"
  | false, true => name ++ " *"
  | true, false => "id" ++ adopted
  | true, true => "id"

/-- The keyword and the name of an aggregate. A question mark stands for no name. -/
def renderTag (kind : AggregateKind) (name : Text) : Text :=
  let keyword : Text := match kind with
    | .struct => "struct"
    | .union => "union"
  if name = "?" then keyword else joinName keyword name

/-- The suffix of a declared bit width. -/
def widthSuffix (width : Nat) : Text := if width = 0 then [] else ":" ++ Text.dec width

mutual

/-- The C type of a node or, given a name, the C declaration of the name. The members of
aggregates are written only if `expand` is set. In a declaration the bounds of an array and the
width of a bit field stand behind the name, and the qualifiers of both are not shown. -/
def spell (expand : Bool) (name : Option Text) : ObjcType → Text
  | .array quals length elem =>
    let bounds := "[" ++ Text.dec length ++ "]"
    match name with
    | none => qualifierWords quals ++ spell expand none elem ++ bounds
    | some name => spell expand (some (name ++ bounds)) elem
  | .bitfield quals bits => match name with
    | none => qualifierWords quals ++ "unsigned int :" ++ Text.dec bits
    | some name => "unsigned int " ++ name ++ ":" ++ Text.dec bits
  | .unknown raw =>
    joinName ("void /* unknown type: " ++ Text.replaceAll "*/" "* /" raw ++ " */") (name.getD [])
  | .primitive quals code =>
    joinName (qualifierWords quals ++ Text.ofString ((primitiveName? code).getD "")) (name.getD [])
  | .pointer quals elem =>
    let target := spell expand none elem
    let star : Text := if target.getLast? = some (byte '*') then "*" else " *"
    joinName (qualifierWords quals ++ target ++ star) (name.getD [])
  | .tag quals kind label => joinName (qualifierWords quals ++ renderTag kind label) (name.getD [])
  | .aggregate quals kind label members =>
    let body : Text := if expand then " \x7b" ++ spellMembers expand 0 members ++ " \x7d" else []
    joinName (qualifierWords quals ++ renderTag kind label ++ body) (name.getD [])
  | .function quals =>
    joinName (qualifierWords quals ++ "void * /* function pointer */") (name.getD [])
  | .block quals => joinName (qualifierWords quals ++ "id /* block */") (name.getD [])
  | .signature quals _ _ => joinName (qualifierWords quals ++ "id /* block */") (name.getD [])
  | .object quals cls protocols =>
    joinName (qualifierWords quals ++ renderObject cls protocols) (name.getD [])
  | .selector quals => joinName (qualifierWords quals ++ "SEL") (name.getD [])
  | .classObject quals => joinName (qualifierWords quals ++ "Class") (name.getD [])

/-- The declarations of the members of an aggregate from an index on. Unnamed members are
called `x` and their index. -/
def spellMembers (expand : Bool) (index : Nat) : List (Member ObjcType) → Text
  | [] => []
  | ⟨name, type, width⟩ :: rest =>
    let name := if name.isEmpty then "x" ++ Text.dec index else name
    " " ++ spell expand (some name) type ++ widthSuffix width ++ ";" ++
      spellMembers expand (index + 1) rest

end

/-- The C type, without the members of aggregates. -/
def render (type : ObjcType) : Text := spell false none type

/-- The C declaration of a name, with the members of aggregates. Arrays and bit fields without a
name are declared as `x`. -/
def declare (name : Text) (type : ObjcType) : Text :=
  let name : Text := match type with
    | .array .. | .bitfield .. => if name.isEmpty then "x" else name
    | _ => name
  spell true (some name) type

/-- The C declaration of a name whose type may be missing. -/
def declare? (name : Text) : Option ObjcType → Text
  | none => joinName "void" name
  | some type => type.declare name

end ObjcType

namespace MethodType

/-- The parts of a method name, each with the C type and the name of its argument. Arguments
whose type is not known are objects. -/
def declareParts (index : Nat) : List Text → List Param → List Text
  | [], _ => []
  | piece :: pieces, args =>
    let type : Text := match args with
      | arg :: _ => arg.type.render
      | [] => "id"
    (piece ++ ":(" ++ type ++ ")arg" ++ Text.dec index) ::
      declareParts (index + 1) pieces (args.drop 1)

/-- A method as it is declared in an interface, without the sign in front. The name of a method
has one colon for every argument; the receiver and the selector are not shown. -/
def declare (name : Text) (type : Option MethodType) : Text :=
  let result : Text := match type with
    | some type => type.result.render
    | none => "id"
  let args := (type.map fun type => type.params.drop 2).getD []
  match Text.splitOn (byte ':') name with
  | [] | [_] => "(" ++ result ++ ")" ++ name
  | pieces => "(" ++ result ++ ")" ++ Text.joinWith " " (declareParts 1 pieces.dropLast args)

end MethodType

end ObjcLens
