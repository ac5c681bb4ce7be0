import Mathlib
import ObjcLens.Proofs.Header.Growth

/-!
# Declarations

A header shows every entity that a walk visits as a declaration: an opening, the lines of the
members, and a closing. Properties come first, then methods, those of the class in front of those of
instances and required ones in front of optional ones. `Block.declaration` gives the declaration of
an entity from the entity alone.

## Main results

* `Block.lines_perm`: a declaration shows every member in exactly one place.
* `Header.grows_block`: a visit adds the declaration of the entity, and the names that it refers to.
* `Header.grows_blocks`: so does any number of visits.
* `Header.text_of_walkIn`: the text of a header after a walk.
-/

namespace ObjcLens

/-- Where a member stands in a declaration. -/
inductive MemberPlace where
  /-- Among the properties. -/
  | property
  /-- Among the methods of the class or of instances that are required or optional. -/
  | method (isClassMethod isOptional : Bool)
deriving DecidableEq

namespace Event

/-- Where an event puts a line. -/
def place? : Event → Option MemberPlace
  | .method m isOptional => some (.method m.isClassMethod isOptional)
  | .property _ _ => some .property
  | _ => none

/-- The line of a method that is not hidden, or of a property. -/
def line? (palette : Palette) (style : HeaderStyle) : Event → Option Text
  | .method m _ => if style.hides m then none else some (Header.methodLine palette style m)
  | .property p ofClass => some (Header.propertyLine palette p ofClass)
  | _ => none

end Event

namespace Block

variable (palette : Palette) (style : HeaderStyle)

/-- The places of a declaration in order. -/
def places : Block → List MemberPlace
  | .ofProtocol _ =>
    [.property, .method true false, .method false false, .method true true, .method false true]
  | _ => [.property, .method true false, .method false false]

/-- The lines that stand at a place, in the order in which the members are visited. -/
def linesAt (b : Block) (place : MemberPlace) : List Text :=
  (b.members.filter fun e => e.place? = some place).filterMap (·.line? palette style)

/-- All lines of a declaration in order. -/
def lines (b : Block) : List Text := b.places.flatMap (b.linesAt palette style)

/-- A comment on a line of its own. -/
def title (text : Text) : Text := palette.comment ("/* " ++ text ++ " */") ++ "\n"

/-- What a protocol says of its methods: it requires them, or leaves them to its adopters. -/
def requirement (isOptional : Bool) : Text := if isOptional then "optional" else "required"

/-- What stands above the lines at a place. In a protocol a keyword stands above the first methods
that it covers. -/
def heading (b : Block) (place : MemberPlace) : Text :=
  match place, b with
  | .property, _ => []
  | .method isClassMethod isOptional, .ofProtocol _ =>
    let keyword : Text := palette.keyword ("@" ++ requirement isOptional) ++ "\n"
    let isFirst := isClassMethod || (b.linesAt palette style (.method true isOptional)).isEmpty
    let kind : Text := if isClassMethod then " class methods" else " instance methods"
    (if isFirst then keyword else []) ++ title palette (requirement isOptional ++ kind)
  | .method isClassMethod _, _ =>
    title palette (if isClassMethod then "class methods" else "instance methods")

/-- Lines under a heading, and an empty line; nothing if there are no lines. -/
def group (heading : Text) (lines : List Text) : Text :=
  if lines.isEmpty then []
  else heading ++ (lines.flatMap fun line => line ++ Text.ofString "\n") ++ "\n"

/-- What a declaration starts with: the names of the entity, of those that it inherits from or
adopts, and the instance variables. -/
def opening : Block → Text
  | .ofProtocol p =>
    palette.keyword "@protocol" ++ " " ++ palette.name p.name ++ adoptedList p.protocols ++
      ({ style } : Header).addressComment palette p.addr ++ "\n\n"
  | .ofClass c =>
    let superclass : Text := if c.superclass.isEmpty then [] else " : " ++ c.superclass
    palette.keyword "@interface" ++ " " ++ palette.name c.name ++ superclass ++
      adoptedList c.protocols ++
      Header.ivarsText palette (({ style } : Header).classComment palette c)
        (c.ivars.map (Header.ivarLine style))
  | .ofCategory k =>
    palette.keyword "@interface" ++ " " ++ palette.name k.className ++ " (" ++ k.name ++ ")" ++
      adoptedList k.protocols ++ ({ style } : Header).addressComment palette k.addr ++ "\n\n"

/-- The lines of all members under their headings. -/
def sections (b : Block) : Text :=
  b.places.flatMap fun place =>
    group (b.heading palette style place) (b.linesAt palette style place)

/-- The declaration of an entity. -/
def declaration (b : Block) : Text :=
  b.opening palette style ++ b.sections palette style ++ palette.keyword "@end" ++ "\n\n"

/-- The names that an entity and its members refer to. -/
def references (b : Block) : List Reference :=
  b.enter.references style ++ b.members.flatMap (·.references style)

/-- A declaration shows every member in exactly one place, hidden methods apart. -/
theorem lines_perm (b : Block) :
    (b.lines palette style).Perm (b.members.filterMap (·.line? palette style)) := by
  let isLeft (e : Event) : Bool := e.place? ∉ b.places.map some
  have hisLeft (e : Event) : isLeft e = true ↔ e.place? ∉ b.places.map some :=
    decide_eq_true_iff
  have hnodup : (b.places.map some).Nodup := by
    cases b <;> simp [places]
  have hleft : (b.members.filter isLeft).filterMap (·.line? palette style) = [] := by
    refine List.filterMap_eq_nil_iff.2 fun e he => ?_
    obtain ⟨hmem, he⟩ := List.mem_filter.1 he
    have hnone : ∀ e ∈ b.members, isLeft e = true → e.line? palette style = none := by
      refine b.forall_mem_members (fun v _ => rfl) ?_ ?_
      · intro m isOptional hprotocol h
        have hplace : some (.method m.isClassMethod isOptional) ∈ b.places.map some := by
          cases isOptional with
          | false => cases b <;> cases m.isClassMethod <;> simp [places]
          | true =>
            obtain ⟨p, rfl⟩ := hprotocol rfl
            cases m.isClassMethod <;> simp [places]
        exact absurd hplace (of_decide_eq_true h)
      · intro p ofClass h
        have hplace : some .property ∈ b.places.map some := by
          cases b <;> simp [places]
        exact absurd hplace (of_decide_eq_true h)
    exact hnone e hmem he
  have hgroups := flatMap_filter_append_perm Event.place? hnodup hisLeft b.members
  have hlines := hgroups.filterMap (·.line? palette style)
  rw [List.filterMap_append, hleft, List.append_nil, List.filterMap_flatMap, List.flatMap_map]
    at hlines
  exact hlines

end Block

/-- The place of a line. -/
def MemberLine.place (line : MemberLine) : MemberPlace :=
  if line.isMethod then .method line.ofClass line.isOptional else .property

namespace MemberLine

/-- What is no method is a property. -/
theorem place_eq_property_iff (line : MemberLine) :
    line.place = .property ↔ line.isMethod = false := by
  cases h : line.isMethod <;> simp [place, h]

/-- A method has its place by its marks. -/
theorem place_eq_method_iff (line : MemberLine) (isClassMethod isOptional : Bool) :
    line.place = .method isClassMethod isOptional ↔
      line.isMethod = true ∧ line.ofClass = isClassMethod ∧ line.isOptional = isOptional := by
  cases h : line.isMethod <;> simp [place, h]

end MemberLine

namespace Event

variable {palette : Palette} {style : HeaderStyle}

/-- The text of the line of a member. -/
theorem map_line_memberLine? (e : Event) :
    (e.memberLine? palette style).map (·.line) = e.line? palette style := by
  cases e with
  | method m isOptional =>
    show ((if style.hides m then none else some _ : Option MemberLine).map _) = _
    rw [line?]
    split <;> rfl
  | start | finish | enterProtocol | leaveProtocol | enterClass | leaveClass | enterCategory
  | leaveCategory | ivar | property => rfl

/-- A member has a line in the place that its event tells. -/
theorem place?_of_memberLine? {e : Event} {line : MemberLine}
    (h : e.memberLine? palette style = some line) : e.place? = some line.place := by
  cases e with
  | method m isOptional =>
    rw [memberLine?] at h
    split at h
    · cases h
    · cases h
      rfl
  | property p ofClass =>
    cases h
    rfl
  | start | finish | enterProtocol | leaveProtocol | enterClass | leaveClass | enterCategory
  | leaveCategory | ivar => cases h

end Event

namespace Block

variable {palette : Palette} {style : HeaderStyle}

/-- The lines of the members of an entity, with what is known of each. -/
def memberLines (palette : Palette) (style : HeaderStyle) (b : Block) : List MemberLine :=
  b.members.filterMap (·.memberLine? palette style)

/-- Only methods are optional, and only those of protocols. -/
theorem isOptional_of_mem_memberLines (b : Block) :
    ∀ line ∈ b.memberLines palette style, line.isOptional = true →
      line.isMethod = true ∧ ∃ p, b = .ofProtocol p := by
  have hmembers : ∀ e ∈ b.members, ∀ line, e.memberLine? palette style = some line →
      line.isOptional = true → line.isMethod = true ∧ ∃ p, b = .ofProtocol p := by
    refine b.forall_mem_members ?_ ?_ ?_
    · intro v line hline
      cases hline
    · intro m isOptional hprotocol line hline hoptional
      rw [Event.memberLine?] at hline
      split at hline
      · cases hline
      · cases hline
        exact ⟨rfl, hprotocol hoptional⟩
    · intro p ofClass line hline hoptional
      cases hline
      cases hoptional
  intro line hline
  obtain ⟨e, he, hsome⟩ := List.mem_filterMap.1 hline
  exact hmembers e he line hsome

variable (palette style) in
/-- A test of lines picks the lines at a place if it is true of these and of no others. -/
theorem map_line_filter_eq (b : Block) (place : MemberPlace) (test : MemberLine → Bool)
    (h : ∀ line ∈ b.memberLines palette style, test line = true ↔ line.place = place) :
    ((b.memberLines palette style).filter test).map (·.line) = b.linesAt palette style place := by
  rw [memberLines, List.filter_filterMap, List.map_filterMap, linesAt, List.filterMap_filter]
  refine List.filterMap_congr fun e he => ?_
  rw [← Event.map_line_memberLine?]
  cases hmember : e.memberLine? palette style with
  | none => simp
  | some line =>
    -- the member has a line, so its own place is the one the line tells
    have htest := h line (List.mem_filterMap.2 ⟨e, he, hmember⟩)
    rw [Event.place?_of_memberLine? hmember]
    by_cases hplace : line.place = place
    · simp [hplace, htest.2 hplace]
    · have hfalse : test line = false := by
        rw [← Bool.not_eq_true]
        exact mt htest.1 hplace
      simp [hplace, hfalse]

end Block

namespace Header

variable {palette : Palette} {style : HeaderStyle}

/-- Lines under a title are a group. -/
theorem sectionText_eq_group {title : Text} (htitle : title ≠ []) (ms : List MemberLine) :
    sectionText palette title ms =
      Block.group (Block.title palette title) (ms.map (·.line)) := by
  have hnonempty : title.isEmpty = false := List.isEmpty_eq_false_iff.2 htitle
  simp only [sectionText, Block.group, List.isEmpty_map, List.flatMap_map, hnonempty]
  rfl

/-- Properties stand in front of everything else without a title. -/
theorem sectionText_properties (b : Block) :
    sectionText palette [] ((b.memberLines palette style).filter fun m => !m.isMethod) =
      Block.group (b.heading palette style .property) (b.linesAt palette style .property) := by
  have hlines := b.map_line_filter_eq palette style .property (fun m => !m.isMethod)
    fun line _ => by
      rw [line.place_eq_property_iff, Bool.not_eq_true']
  rw [← hlines, Block.heading]
  simp only [sectionText, Block.group, List.isEmpty_map, List.flatMap_map]
  rfl

/-- The members of a class or category: properties, methods of the class, methods of instances. -/
theorem membersText_eq_sections (b : Block) (hb : ∀ p, b ≠ .ofProtocol p) :
    membersText palette (b.memberLines palette style) = b.sections palette style := by
  -- outside of protocols no method is optional, so the tests for required ones pick them all
  have hrequired : ∀ line ∈ b.memberLines palette style, line.isOptional = false := by
    intro line hline
    rw [← Bool.not_eq_true]
    intro hoptional
    obtain ⟨-, p, hp⟩ := b.isOptional_of_mem_memberLines line hline hoptional
    exact hb p hp
  have hofClass := b.map_line_filter_eq palette style (.method true false)
    (fun m => m.ofClass && m.isMethod) fun line hline => by
      rw [line.place_eq_method_iff, Bool.and_eq_true]
      simp [hrequired line hline, and_comm]
  have hofInstance := b.map_line_filter_eq palette style (.method false false)
    (fun m => !m.ofClass && m.isMethod) fun line hline => by
      rw [line.place_eq_method_iff, Bool.and_eq_true]
      simp [hrequired line hline, and_comm]
  rw [membersText, methodsText, List.nil_append, List.nil_append, sectionText_properties,
    sectionText_eq_group (by decide), sectionText_eq_group (by decide), List.filter_filter,
    List.filter_filter, hofClass, hofInstance]
  cases b with
  | ofProtocol p => exact absurd rfl (hb p)
  | ofClass c | ofCategory k =>
    simp only [Block.sections, Block.places, List.flatMap_cons, List.flatMap_nil, List.append_nil]
    rfl

/-- Two groups under a keyword that stands above the first of them. -/
private theorem group_append_group (keyword first second : Text) (ls ls' : List Text) :
    Block.group (keyword ++ first) ls ++
        Block.group ((if ls.isEmpty then keyword else []) ++ second) ls' =
      if ls.isEmpty && ls'.isEmpty then []
      else keyword ++ (Block.group first ls ++ Block.group second ls') := by
  cases ls <;> cases ls' <;> simp [Block.group]

/-- A list is empty if there is nothing in it of which a test is true, and nothing of which it is
not. -/
private theorem isEmpty_eq_and {α : Type} (p : α → Bool) (l : List α) :
    l.isEmpty = ((l.filter p).isEmpty && (l.filter fun a => !p a).isEmpty) := by
  cases l with
  | nil => rfl
  | cons a rest => cases hp : p a <;> simp [hp]

variable (palette style) in
/-- The methods of a protocol under one of its keywords. -/
theorem requirementText_eq (p : Protocol) (isOptional : Bool) (test : MemberLine → Bool)
    (htest : ∀ line ∈ (Block.ofProtocol p).memberLines palette style,
      test line = true ↔ line.isMethod = true ∧ line.isOptional = isOptional) :
    requirementText palette (Block.requirement isOptional)
        (((Block.ofProtocol p).memberLines palette style).filter test) =
      Block.group ((Block.ofProtocol p).heading palette style (.method true isOptional))
          ((Block.ofProtocol p).linesAt palette style (.method true isOptional)) ++
        Block.group ((Block.ofProtocol p).heading palette style (.method false isOptional))
          ((Block.ofProtocol p).linesAt palette style (.method false isOptional)) := by
  let b := Block.ofProtocol p
  have hofClass := b.map_line_filter_eq palette style (.method true isOptional)
    (fun m => m.ofClass && test m) fun line hline => by
      rw [line.place_eq_method_iff, Bool.and_eq_true, htest line hline]
      tauto
  have hofInstance := b.map_line_filter_eq palette style (.method false isOptional)
    (fun m => !m.ofClass && test m) fun line hline => by
      rw [line.place_eq_method_iff, Bool.and_eq_true, htest line hline, Bool.not_eq_true']
      tauto
  have hempty : ((b.memberLines palette style).filter test).isEmpty =
      ((b.linesAt palette style (.method true isOptional)).isEmpty &&
        (b.linesAt palette style (.method false isOptional)).isEmpty) := by
    rw [← hofClass, ← hofInstance, List.isEmpty_map, List.isEmpty_map, ← List.filter_filter,
      ← List.filter_filter, ← isEmpty_eq_and]
  let word := Block.requirement isOptional
  let keyword : Text := palette.keyword ("@" ++ word) ++ "\n"
  have hfirst : b.heading palette style (.method true isOptional) =
      keyword ++ Block.title palette (word ++ " class methods") := rfl
  have hsecond : b.heading palette style (.method false isOptional) =
      (if (b.linesAt palette style (.method true isOptional)).isEmpty then keyword else []) ++
        Block.title palette (word ++ " instance methods") := rfl
  have htitle (kind whole : Text) (hwhole : Text.ofString " " ++ kind = whole) (hkind : whole ≠ [])
      (ms : List MemberLine) : sectionText palette (word ++ " " ++ kind) ms =
        Block.group (Block.title palette (word ++ whole)) (ms.map (·.line)) := by
    rw [List.append_assoc, hwhole, sectionText_eq_group]
    simp [hkind]
  rw [hfirst, hsecond, group_append_group, requirementText, hempty, methodsText,
    htitle "class methods" " class methods" (by decide) (by decide),
    htitle "instance methods" " instance methods" (by decide) (by decide), List.filter_filter,
    List.filter_filter, hofClass, hofInstance]

/-- The members of a protocol: properties, then its required and its optional methods. -/
theorem protocolText_eq_sections (p : Protocol) :
    protocolText palette ((Block.ofProtocol p).memberLines palette style) =
      (Block.ofProtocol p).sections palette style := by
  have hrequired := requirementText_eq palette style p false
    (fun m => m.isMethod && !m.isOptional) fun line _ => by
      simp
  have hoptional := requirementText_eq palette style p true (·.isOptional) fun line hline => by
    have hmethod := (Block.ofProtocol p).isOptional_of_mem_memberLines line hline
    exact ⟨fun h => ⟨(hmethod h).1, h⟩, fun h => h.2⟩
  change requirementText palette "required" _ = _ at hrequired
  change requirementText palette "optional" _ = _ at hoptional
  rw [protocolText, sectionText_properties, hrequired, hoptional]
  simp only [Block.sections, Block.places, List.flatMap_cons, List.flatMap_nil, List.append_nil,
    List.append_assoc]

end Header

namespace Block

variable (palette : Palette) (style : HeaderStyle)

/-- What is written of an entity when it is entered. -/
def head : Block → Text
  | .ofProtocol p => (Block.ofProtocol p).opening palette style
  | .ofClass c =>
    let superclass : Text := if c.superclass.isEmpty then [] else " : " ++ c.superclass
    palette.keyword "@interface" ++ " " ++ palette.name c.name ++ superclass ++
      adoptedList c.protocols
  | .ofCategory k => (Block.ofCategory k).opening palette style

/-- The comment that is kept until the members of an entity were seen. -/
def comment : Block → Text
  | .ofClass c => ({ style } : Header).classComment palette c
  | _ => []

/-- What is written of an entity when it is left. -/
def tail (b : Block) (comment : Text) (ivars : List Text) (members : List MemberLine) : Text :=
  match b with
  | .ofProtocol _ => Header.protocolText palette members ++ Header.closing palette
  | .ofClass _ => Header.ivarsText palette comment ivars ++ Header.membersText palette members ++
      Header.closing palette
  | .ofCategory _ => Header.membersText palette members ++ Header.closing palette

/-- The instance variables are among the members, in their order. -/
theorem filterMap_ivarLine?_members (c : Class) :
    c.members.filterMap (·.ivarLine? style) = c.ivars.map (Header.ivarLine style) := by
  have hmethods (ms : List Method) :
      (Event.methods false ms).filterMap (·.ivarLine? style) = [] := by
    simp [Event.methods, List.filterMap_map, Event.ivarLine?]
  have hproperties (ofClass : Bool) (ps : List Property) :
      (Event.properties ofClass ps).filterMap (·.ivarLine? style) = [] := by
    simp [Event.properties, List.filterMap_map, Event.ivarLine?]
  simp only [Class.members, List.filterMap_append, hmethods, hproperties, List.append_nil,
    List.filterMap_map]
  exact congrFun List.filterMap_eq_map' c.ivars

/-- What is written of an entity is its declaration. -/
theorem declaration_eq (b : Block) :
    b.head palette style ++
        b.tail palette (b.comment palette style) (b.members.filterMap (·.ivarLine? style))
          (b.memberLines palette style) =
      b.declaration palette style := by
  cases b with
  | ofProtocol p =>
    rw [tail, Header.protocolText_eq_sections, declaration]
    simp only [List.append_assoc]
    rfl
  | ofClass c =>
    rw [tail, Header.membersText_eq_sections (.ofClass c) (by simp), members,
      filterMap_ivarLine?_members, declaration]
    simp only [head, opening, comment, Header.closing, List.append_assoc]
  | ofCategory k =>
    rw [tail, Header.membersText_eq_sections (.ofCategory k) (by simp), declaration]
    simp only [List.append_assoc]
    rfl

end Block

/-- A header has grown by a text and by the names of references. -/
structure Header.Grows (model : Model) (h h' : Header) (text : Text) (refs : List Reference) :
    Prop where
  style : h'.style = h.style
  body : h'.body = h.body ++ text
  classes : h'.classes = addClasses model refs h.classes
  protocols : h'.protocols = addProtocols model refs h.protocols

namespace Header

variable (palette : Palette) (model : Model)

theorem Grows.refl (h : Header) : Grows model h h [] [] :=
  ⟨rfl, (List.append_nil _).symm, rfl, rfl⟩

variable {model} in
/-- Growth adds up. -/
theorem Grows.trans {h h' h'' : Header} {text text' : Text} {refs refs' : List Reference}
    (first : Grows model h h' text refs) (second : Grows model h' h'' text' refs') :
    Grows model h h'' (text ++ text') (refs ++ refs') where
  style := second.style.trans first.style
  body := by rw [second.body, first.body, List.append_assoc]
  classes := by rw [second.classes, first.classes, addClasses_append]
  protocols := by rw [second.protocols, first.protocols, addProtocols_append]

/-- Entering an entity starts its declaration, and forgets the one before. -/
theorem see_enter (b : Block) (h : Header) :
    h.see palette model b.enter =
      { h with
        pieces := b.head palette h.style :: h.pieces
        ivars := []
        members := []
        comment := b.comment palette h.style
        classes := addClasses model (b.enter.references h.style) h.classes
        protocols := addProtocols model (b.enter.references h.style) h.protocols } := by
  cases b <;> simp only [Block.enter, see, referAll_eq] <;> rfl

/-- Leaving an entity finishes its declaration. -/
theorem see_leave (b : Block) (h : Header) :
    h.see palette model b.leave =
      h.write (b.tail palette h.comment h.ivars.reverse h.members.reverse) := by
  cases b <;> rfl

/-- A visit adds the declaration of the entity, and the names that it refers to. -/
theorem grows_block (b : Block) (h : Header) :
    Grows model h (b.events.foldl (see palette model) h) (b.declaration palette h.style)
      (b.references h.style) := by
  rw [Block.events_eq, List.foldl_cons, List.foldl_append, List.foldl_cons, List.foldl_nil,
    see_enter, foldl_see_members (see_of_mem_members palette model b), see_leave]
  refine ⟨rfl, ?_, ?_, ?_⟩
  -- lines were kept the last one first, and they are written in the order of the visits
  · simp only [List.append_nil, List.reverse_reverse, write, body, List.reverse_cons,
      List.flatten_append, List.flatten_singleton, List.append_assoc]
    rw [← b.declaration_eq]
    rfl
  · exact (addClasses_append _ _ _).symm
  · exact (addProtocols_append _ _ _).symm

/-- Visits add the declarations of the entities in order. -/
theorem grows_blocks (bs : List Block) (h : Header) :
    Grows model h ((bs.flatMap Block.events).foldl (see palette model) h)
      (bs.flatMap (·.declaration palette h.style)) (bs.flatMap (·.references h.style)) := by
  induction bs generalizing h with
  | nil => exact Grows.refl model h
  | cons b rest ih =>
    have hfirst := grows_block palette model b h
    have hrest := ih (b.events.foldl (see palette model) h)
    rw [hfirst.style] at hrest
    rw [List.flatMap_cons, List.foldl_append, List.flatMap_cons, List.flatMap_cons]
    exact hfirst.trans hrest

/-- A walk forgets what was written before, and adds the declarations of the visited entities. -/
theorem grows_walk {m : Model} (plan : WalkPlan m) (visible : Entity → Bool) (h : Header) :
    Grows m { h with pieces := [], classes := [], protocols := [] }
      (h.seeAll palette m (plan.events visible))
      ((plan.visits visible).flatMap (·.declaration palette h.style))
      ((plan.visits visible).flatMap (·.references h.style)) := by
  rw [seeAll, plan.events_eq_visits, List.foldl_cons, List.foldl_append, List.foldl_cons,
    List.foldl_nil]
  exact grows_blocks palette m (plan.visits visible)
    { h with pieces := [], classes := [], protocols := [] }

/-- The text of a header after a walk without colours: the forward declarations, and behind them
one declaration for every visit, in the order of the visits. A declaration has the lines of all
members of its entity that are not hidden, and no others; it shows each of them once, in the section
where it belongs. Where class names are distinct, every visible entity is visited once. -/
theorem text_of_walkIn {m : Model} {scope : Scope} {force : List Glob}
    (hforce : Scope.compileAll "force pattern" scope.force = .ok force) {visible : Entity → Bool}
    (hvisible : ∀ e ∈ m.entities, Scope.sees scope.keep force e = some (visible e))
    (h : Header) :
    ∃ (events : List Event) (visits : List Block), m.walkIn scope = .ok events ∧
      events = .start :: (visits.flatMap Block.events ++ [.finish]) ∧
      (∀ b, b ∈ visits ↔ b ∈ m.blocks ∧ visible b.entity = true) ∧
      (m.classNames.Nodup → visits.Perm (m.blocks.filter (visible ·.entity))) ∧
      (h.seeAll {} m events).text {} =
        (h.seeAll {} m events).forwards {} ++ visits.flatMap (·.declaration {} h.style) ∧
      ∀ b ∈ visits, (b.lines {} h.style).Perm (b.members.filterMap (·.line? {} h.style)) := by
  refine ⟨m.plan.events visible, m.plan.visits visible, Model.walkIn_eq_ok hforce hvisible,
    m.plan.events_eq_visits visible, m.plan.mem_visits_iff visible, ?_, ?_, ?_⟩
  · intro hnames
    exact (m.plan.blocks_perm hnames).filter _
  · rw [text_eq, (grows_walk {} m.plan visible h).body]
    rfl
  · intro b _
    exact b.lines_perm {} h.style

/-- A method without arguments that returns an object of a class. -/
def sampleMethod (isClassMethod : Bool) (name className : Text) : Method where
  name := name
  types := "@16@0:8"
  type := some ⟨.object [] className [], [⟨.object [] [] [], 0⟩, ⟨.selector [], 8⟩], 16⟩
  isClassMethod := isClassMethod
  imp := 0x4000

/-- A protocol, a class with a method that the compiler added, and a category. -/
def sampleGarden : Model where
  protocols :=
    [{  name := "Alpha"
        protocols := ["Copying"]
        instanceMethods := [sampleMethod false "leaf" "Leaf"]
        optionalClassMethods := [sampleMethod true "seed" "Seed"] }]
  classes :=
    [{  name := "Root"
        superclass := "Plant"
        ivars :=
          [⟨"_tips", "^\x7bTips=@\"Tip<Growing>\"\x7d",
            some (.pointer []
              (.aggregate [] .struct "Tips" [⟨[], .object [] "Tip" ["Growing"], 0⟩])),
            8, 8, 8⟩]
        classMethods := [sampleMethod true "root" "Root"]
        instanceMethods :=
          [sampleMethod false ".cxx_destruct" "Hidden", sampleMethod false "seed" "Seed"] }]
  categories :=
    [{  name := "Extras"
        className := "Leaf"
        instanceMethods := [sampleMethod false "vein" "Vein"] }]

/-- The header of a garden with a hidden class. -/
theorem text_of_walkIn_sampleGarden :
    Scope.compileAll "force pattern" Model.sampleScope.force = .ok [⟨.starting "Ro"⟩] ∧
      (∀ e ∈ sampleGarden.entities,
        Scope.sees Model.sampleScope.keep [⟨.starting "Ro"⟩] e = some (Model.sampleVisible e)) ∧
      ∃ (events : List Event) (visits : List Block),
        sampleGarden.walkIn Model.sampleScope = .ok events ∧
        events = .start :: (visits.flatMap Block.events ++ [.finish]) ∧
        (∀ b, b ∈ visits ↔ b ∈ sampleGarden.blocks ∧ Model.sampleVisible b.entity = true) ∧
        (sampleGarden.classNames.Nodup →
          visits.Perm (sampleGarden.blocks.filter (Model.sampleVisible ·.entity))) ∧
        (({} : Header).seeAll {} sampleGarden events).text {} =
          (({} : Header).seeAll {} sampleGarden events).forwards {} ++
            visits.flatMap (·.declaration {} {}) ∧
        ∀ b ∈ visits, (b.lines {} {}).Perm (b.members.filterMap (·.line? {} {})) :=
  ⟨rfl, by decide, text_of_walkIn rfl (by decide) {}⟩

-- the destructor of C++ members is hidden
example : sampleGarden.classes.map (fun c => (Block.ofClass c).lines {} {}) =
    [[Text.ofString "+ (Root *)root;", Text.ofString "- (Seed *)seed;"]] := by
  decide +kernel

end Header

end ObjcLens
