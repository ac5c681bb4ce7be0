import ObjcLens.Model.Walk
import ObjcLens.ObjcType.Reference
import ObjcLens.Palette
import ObjcLens.Text.Columns

/-!
# Headers

The declarations of a model as source text. A `Header` is written while a model is walked:
`Header.see` takes the next event. `Header.text` puts the forward declarations of the names that
the model uses and does not define in front.
-/

namespace ObjcLens

/-- What a header shows. -/
structure HeaderStyle where
  /-- Addresses are shown in comments. -/
  addresses : Bool := false
  /-- There are no forward declarations. -/
  noForwardDeclarations : Bool := false
deriving DecidableEq, Repr

/-- A line of a declaration. -/
structure MemberLine where
  /-- The line. -/
  line : Text
  /-- It declares a method and not a property. -/
  isMethod : Bool
  /-- The member belongs to the class. -/
  ofClass : Bool
  /-- A protocol leaves the method to its adopters. -/
  isOptional : Bool

/-- A header that is being written. -/
structure Header where
  /-- What is shown. -/
  style : HeaderStyle := {}
  /-- The finished pieces of the declarations, the last one first. -/
  pieces : List Text := []
  /-- The instance variables of the open declaration, the last one first. -/
  ivars : List Text := []
  /-- The members of the open declaration, the last one first. -/
  members : List MemberLine := []
  /-- The comment of the open declaration. -/
  comment : Text := []
  /-- The classes that are used and not defined. -/
  classes : List Text := []
  /-- The protocols that are used and not defined. -/
  protocols : List Text := []

namespace Header

/-- The header with more text. -/
def write (h : Header) (s : Text) : Header := { h with pieces := s :: h.pieces }

/-- A name that the model does not define is declared in front. -/
def refer (model : Model) (h : Header) : Reference → Header
  | .ofClass name =>
    if name.isEmpty || model.hasClass name || h.classes.contains name then h
    else { h with classes := name :: h.classes }
  | .ofProtocol name =>
    if name.isEmpty || model.hasProtocol name || h.protocols.contains name then h
    else { h with protocols := name :: h.protocols }
  | _ => h

/-- All names that the model does not define are declared in front. -/
def referAll (model : Model) (refs : List Reference) (h : Header) : Header :=
  refs.foldl (refer model) h

/-- A new declaration is opened. -/
def reset (h : Header) : Header := { h with ivars := [], members := [], comment := [] }

/-- The comment with the address of a record. -/
def addressComment (palette : Palette) (h : Header) (addr : UInt64) : Text :=
  if h.style.addresses then " " ++ palette.comment ("// " ++ Text.hex0x addr.toNat) else []

/-- Lines under a title, and an empty line; nothing if there are no lines. -/
def sectionText (palette : Palette) (title : Text) (ms : List MemberLine) : Text :=
  let heading : Text :=
    if title.isEmpty then [] else palette.comment ("/* " ++ title ++ " */") ++ "\n"
  let lines := ms.flatMap fun m => m.line ++ Text.ofString "\n"
  if ms.isEmpty then [] else heading ++ lines ++ "\n"

/-- The class methods and then the instance methods. -/
def methodsText (palette : Palette) (kind : Text) (ms : List MemberLine) : Text :=
  sectionText palette (kind ++ "class methods") (ms.filter (·.ofClass)) ++
    sectionText palette (kind ++ "instance methods") (ms.filter fun m => !m.ofClass)

/-- The members of a class or category: properties first. -/
def membersText (palette : Palette) (ms : List MemberLine) : Text :=
  sectionText palette [] (ms.filter fun m => !m.isMethod) ++
    methodsText palette [] (ms.filter (·.isMethod))

/-- Methods under a keyword of a protocol. -/
def requirementText (palette : Palette) (word : Text) (ms : List MemberLine) : Text :=
  let shown := palette.keyword ("@" ++ word) ++ "\n" ++ methodsText palette (word ++ " ") ms
  if ms.isEmpty then [] else shown

/-- The members of a protocol: properties first, then required and optional methods. -/
def protocolText (palette : Palette) (ms : List MemberLine) : Text :=
  sectionText palette [] (ms.filter fun m => !m.isMethod) ++
    requirementText palette "required" (ms.filter fun m => m.isMethod && !m.isOptional) ++
    requirementText palette "optional" (ms.filter (·.isOptional))

/-- The instance variables of a class in braces, with the comment of the class. -/
def ivarsText (palette : Palette) (comment : Text) (ivars : List Text) : Text :=
  let lines := palette.comment "/* instance variables */" :: ivars
  let block := Text.alignColumns (lines.flatMap fun line => "    " ++ line ++ "\n")
  if ivars.isEmpty then comment ++ "\n\n"
  else " \x7b" ++ comment ++ "\n" ++ block ++ "\x7d\n\n"

/-- The end of a declaration. -/
def closing (palette : Palette) : Text := palette.keyword "@end" ++ "\n\n"

/-- The comment of a class: its address, and whether it was compiled by Swift. -/
def classComment (palette : Palette) (h : Header) (c : Class) : Text :=
  let comment := h.addressComment palette c.addr
  if !c.isSwift then comment
  else if comment.isEmpty then " " ++ palette.comment "// (Swift)"
  else comment ++ palette.comment " (Swift)"

/-- An instance variable is declared. -/
def addIvar (model : Model) (h : Header) (v : Ivar) : Header :=
  let note : Text := if h.style.addresses then
      "\t// +" ++ Text.hex0x v.size.toNat ++ " " ++ Text.hex0x v.offset.toNat
    else []
  let h := h.referAll model (ObjcType.references? v.type)
  { h with ivars := (v.declare ++ note) :: h.ivars }

/-- A method is declared. Those that the compiler adds are shown only with addresses. -/
def addMethod (palette : Palette) (model : Model) (h : Header) (m : Method)
    (isOptional : Bool) : Header :=
  if (Text.ofString ".cxx_").isPrefixOf m.name && !h.style.addresses then h
  else
    let refs := (m.type.map (·.references)).getD []
    let sign : Text := if m.isClassMethod then "+ " else "- "
    let note : Text := if h.style.addresses && m.imp ≠ 0 then
        palette.comment ("// " ++ Text.hex0x m.imp.toNat) ++ "\n"
      else []
    let h := h.referAll model refs
    { h with members :=
        ⟨note ++ sign ++ m.declare ++ ";", true, m.isClassMethod, isOptional⟩ :: h.members }

/-- A property is declared. -/
def addProperty (palette : Palette) (model : Model) (h : Header) (p : Property)
    (ofClass : Bool) : Header :=
  let attributes := (if ofClass then [Text.ofString "class"] else []) ++ p.attributes.list
  let list : Text :=
    if attributes.isEmpty then [] else "(" ++ Text.joinWith ", " attributes ++ ") "
  let line := palette.keyword "@property" ++ " " ++ list ++
    ObjcType.declare? p.name p.type ++ ";"
  let h := h.referAll model (ObjcType.references? p.type)
  { h with members := ⟨line, false, ofClass, false⟩ :: h.members }

/-- The header after one more event. -/
def see (palette : Palette) (model : Model) (h : Header) : Event → Header
  | .start => { h with pieces := [], classes := [], protocols := [] }
  | .finish => h
  | .enterProtocol p =>
    let h := h.reset.referAll model (p.protocols.map .ofProtocol)
    h.write (palette.keyword "@protocol" ++ " " ++ palette.name p.name ++
      adoptedList p.protocols ++ h.addressComment palette p.addr ++ "\n\n")
  | .leaveProtocol _ => h.write (protocolText palette h.members.reverse ++ closing palette)
  | .enterClass c =>
    let h := h.reset.referAll model (.ofClass c.superclass :: c.protocols.map .ofProtocol)
    let superclass : Text := if c.superclass.isEmpty then [] else " : " ++ c.superclass
    let h := h.write (palette.keyword "@interface" ++ " " ++ palette.name c.name ++
      superclass ++ adoptedList c.protocols)
    { h with comment := h.classComment palette c }
  | .leaveClass _ =>
    h.write (ivarsText palette h.comment h.ivars.reverse ++
      membersText palette h.members.reverse ++ closing palette)
  | .enterCategory c =>
    let h := h.reset.referAll model (.ofClass c.className :: c.protocols.map .ofProtocol)
    h.write (palette.keyword "@interface" ++ " " ++ palette.name c.className ++ " (" ++
      c.name ++ ")" ++ adoptedList c.protocols ++ h.addressComment palette c.addr ++ "\n\n")
  | .leaveCategory _ => h.write (membersText palette h.members.reverse ++ closing palette)
  | .ivar v => h.addIvar model v
  | .method m isOptional => h.addMethod palette model m isOptional
  | .property p ofClass => h.addProperty palette model p ofClass

/-- The header after a walk. -/
def seeAll (palette : Palette) (model : Model) (h : Header) (events : List Event) : Header :=
  events.foldl (see palette model) h

/-- A forward declaration of names; nothing if there are none. -/
def forward (palette : Palette) (word : Text) (names : List Text) : Text :=
  let shown :=
    palette.keyword word ++ " " ++ Text.joinWith ", " (Text.sort names) ++ Text.ofString ";\n"
  if names.isEmpty then [] else shown

/-- The forward declarations and an empty line; nothing if there are none. -/
def forwards (palette : Palette) (h : Header) : Text :=
  let lines := forward palette "@class" h.classes ++ forward palette "@protocol" h.protocols
  if h.style.noForwardDeclarations || lines.isEmpty then [] else lines ++ "\n"

/-- The text of a header. -/
def text (palette : Palette) (h : Header) : Text :=
  h.forwards palette ++ h.pieces.reverse.flatten

end Header

end ObjcLens
