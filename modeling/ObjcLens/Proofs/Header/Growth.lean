import Mathlib
import ObjcLens.Header
import ObjcLens.Proofs.Model.Visits

/-!
# How a header grows

Every event of a walk adds to the header that is being written: a line to the open declaration, a
finished piece of text, or names that have to be declared in front. This module says what each of
them adds.

## Main results

* `Header.referAll_eq`: references add names, and nothing else.
* `Header.see_of_mem_members`: what a member adds.
* `Header.foldl_see_members`: what all members of an entity add.
-/

namespace ObjcLens

/-- The method is one of those that the compiler adds, and these are not shown. -/
def HeaderStyle.hides (style : HeaderStyle) (m : Method) : Bool :=
  (Text.ofString ".cxx_").isPrefixOf m.name && !style.addresses

namespace Reference

/-- The name of a class that is referred to. -/
def className? : Reference → Option Text
  | .ofClass name => some name
  | _ => none

/-- The name of a protocol that is referred to. -/
def protocolName? : Reference → Option Text
  | .ofProtocol name => some name
  | _ => none

end Reference

namespace Header

/-- The declarations that are finished. -/
def body (h : Header) : Text := h.pieces.reverse.flatten

theorem text_eq (palette : Palette) (h : Header) : h.text palette = h.forwards palette ++ h.body :=
  rfl

/-- The line of an instance variable. -/
def ivarLine (style : HeaderStyle) (v : Ivar) : Text :=
  let note : Text := if style.addresses then
      "\t// +" ++ Text.hex0x v.size.toNat ++ " " ++ Text.hex0x v.offset.toNat
    else []
  v.declare ++ note

/-- The line of a method, with the address of its code above it. -/
def methodLine (palette : Palette) (style : HeaderStyle) (m : Method) : Text :=
  let sign : Text := if m.isClassMethod then "+ " else "- "
  let note : Text := if style.addresses && m.imp ≠ 0 then
      palette.comment ("// " ++ Text.hex0x m.imp.toNat) ++ "\n"
    else []
  note ++ sign ++ m.declare ++ ";"

/-- The line of a property. -/
def propertyLine (palette : Palette) (p : Property) (ofClass : Bool) : Text :=
  let attributes := (if ofClass then [Text.ofString "class"] else []) ++ p.attributes.list
  let list : Text :=
    if attributes.isEmpty then [] else "(" ++ Text.joinWith ", " attributes ++ ") "
  palette.keyword "@property" ++ " " ++ list ++ ObjcType.declare? p.name p.type ++ ";"

/-- The names of a list with one more, unless it is empty, known or there already. -/
def addName (isKnown : Text → Bool) (names : List Text) (name : Text) : List Text :=
  if name.isEmpty || isKnown name || names.contains name then names else name :: names

end Header

namespace Event

/-- The line that an event adds to the instance variables. -/
def ivarLine? (style : HeaderStyle) : Event → Option Text
  | .ivar v => some (Header.ivarLine style v)
  | _ => none

/-- The line that an event adds to the methods and properties. -/
def memberLine? (palette : Palette) (style : HeaderStyle) : Event → Option MemberLine
  | .method m isOptional =>
    if style.hides m then none
    else some ⟨Header.methodLine palette style m, true, m.isClassMethod, isOptional⟩
  | .property p ofClass => some ⟨Header.propertyLine palette p ofClass, false, ofClass, false⟩
  | _ => none

/-- The names that an event refers to, in order. Hidden methods refer to nothing. -/
def references (style : HeaderStyle) : Event → List Reference
  | .enterProtocol p => p.protocols.map .ofProtocol
  | .enterClass c => .ofClass c.superclass :: c.protocols.map .ofProtocol
  | .enterCategory k => .ofClass k.className :: k.protocols.map .ofProtocol
  | .ivar v => ObjcType.references? v.type
  | .method m _ => if style.hides m then [] else (m.type.map (·.references)).getD []
  | .property p _ => ObjcType.references? p.type
  | _ => []

end Event

namespace Header

variable {palette : Palette} {model : Model}

/-- The classes that references add to those that are declared in front. -/
def addClasses (model : Model) (refs : List Reference) (names : List Text) : List Text :=
  (refs.filterMap Reference.className?).foldl (addName model.hasClass) names

/-- The protocols that references add to those that are declared in front. -/
def addProtocols (model : Model) (refs : List Reference) (names : List Text) : List Text :=
  (refs.filterMap Reference.protocolName?).foldl (addName model.hasProtocol) names

/-- Class names are collected one reference after the other. -/
theorem addClasses_append (refs refs' : List Reference) (names : List Text) :
    addClasses model (refs ++ refs') names =
      addClasses model refs' (addClasses model refs names) := by
  rw [addClasses, List.filterMap_append, List.foldl_append]
  rfl

/-- So are the names of protocols. -/
theorem addProtocols_append (refs refs' : List Reference) (names : List Text) :
    addProtocols model (refs ++ refs') names =
      addProtocols model refs' (addProtocols model refs names) := by
  rw [addProtocols, List.filterMap_append, List.foldl_append]
  rfl

/-- References add names to what is declared in front, and nothing else. -/
theorem referAll_eq (model : Model) (refs : List Reference) (h : Header) :
    h.referAll model refs =
      { h with
        classes := addClasses model refs h.classes
        protocols := addProtocols model refs h.protocols } := by
  induction refs generalizing h with
  | nil => rfl
  | cons ref rest ih =>
    have hfirst : refer model h ref =
        { h with
          classes := addClasses model [ref] h.classes
          protocols := addProtocols model [ref] h.protocols } := by
      -- a class and a protocol each go to their own list; tags and members are not declared forward
      cases ref with
      | ofClass name =>
        show (if _ then _ else _) = { h with classes := addName model.hasClass h.classes name }
        rw [addName]
        split <;> rfl
      | ofProtocol name =>
        show (if _ then _ else _) =
          { h with protocols := addName model.hasProtocol h.protocols name }
        rw [addName]
        split <;> rfl
      | ofTag name | ofMember name => rfl
    have hcons : ref :: rest = [ref] ++ rest := rfl
    rw [referAll, List.foldl_cons, hfirst, ← referAll, ih, hcons, addClasses_append,
      addProtocols_append]

/-- What a member adds to a header: its line, and the names that it refers to. -/
theorem see_of_mem_members (palette : Palette) (model : Model) (b : Block) :
    ∀ e ∈ b.members, ∀ h : Header,
      h.see palette model e =
        { h.referAll model (e.references h.style) with
          ivars := (e.ivarLine? h.style).toList ++ h.ivars
          members := (e.memberLine? palette h.style).toList ++ h.members } := by
  refine b.forall_mem_members ?_ ?_ ?_
  · intro v h
    simp only [see, addIvar, referAll_eq]
    rfl
  · intro m isOptional _ h
    show (if h.style.hides m then h else _) = _
    cases hhides : h.style.hides m with
    | true =>
      -- a hidden method adds neither a line nor a name
      simp only [Event.references, Event.memberLine?, hhides, if_true, referAll_eq]
      rfl
    | false =>
      simp only [Event.references, Event.memberLine?, hhides, Bool.false_eq_true, if_false,
        referAll_eq]
      rfl
  · intro p ofClass h
    simp only [see, addProperty, referAll_eq]
    rfl

/-- What all members of an entity add to a header. -/
theorem foldl_see_members {es : List Event}
    (hes : ∀ e ∈ es, ∀ h : Header,
      h.see palette model e =
        { h.referAll model (e.references h.style) with
          ivars := (e.ivarLine? h.style).toList ++ h.ivars
          members := (e.memberLine? palette h.style).toList ++ h.members })
    (h : Header) :
    es.foldl (see palette model) h =
      { h with
        ivars := (es.filterMap (·.ivarLine? h.style)).reverse ++ h.ivars
        members := (es.filterMap (·.memberLine? palette h.style)).reverse ++ h.members
        classes := addClasses model (es.flatMap (·.references h.style)) h.classes
        protocols := addProtocols model (es.flatMap (·.references h.style)) h.protocols } := by
  induction es generalizing h with
  | nil => rfl
  | cons e rest ih =>
    rw [List.foldl_cons, hes e List.mem_cons_self, referAll_eq,
      ih fun e' he' => hes e' (List.mem_cons_of_mem _ he')]
    -- lines are kept last first, so the new one stands in front of what is there
    simp only [List.flatMap_cons, addClasses_append, addProtocols_append, List.filterMap_cons]
    cases e.ivarLine? h.style <;> cases e.memberLine? palette h.style <;> simp

end Header

end ObjcLens
