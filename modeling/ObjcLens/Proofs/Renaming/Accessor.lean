import Mathlib
import ObjcLens.Proofs.Renaming.Collision
import ObjcLens.Proofs.Renaming.Free
import ObjcLens.Proofs.Text.Numeral

/-!
# Accessors follow their property

The compiler derives two names from that of a property: the name of its instance variable and that
of its setter. When the property is replaced by a new name, the two must be replaced by what the
compiler derives from the new name, and when it stays they must stay.

Replacements do this as long as a property stands alone, that is, no other property that is replaced
takes one of its names along, and as long as its names stand together, that is, an accessor may be
replaced only if the property and its other accessor may be.

## Main results

* `mem_map_of_forall`, `exists_mem_map_iff`: what is looked up in the map of an assignment.
* `Chosen.name_eq_of_follows`: a replaced accessor comes from its property.
* `accessors_follow`: a property that stands alone and whose names stand together.
-/

namespace ObjcLens.Renaming

namespace Assignment

/-- The map with one more replacement. A later one of the same name counts. -/
private def enter (pairs : List (Text × Text)) (r : Rename) : List (Text × Text) :=
  (pairs.filter fun pair => pair.1 ≠ r.old) ++ [(r.old, r.new)]

/-- Entering a rename replaces what was known of its old name. -/
private theorem mem_enter_iff {pairs : List (Text × Text)} {r : Rename} {old new : Text} :
    (old, new) ∈ enter pairs r ↔
      ((old, new) ∈ pairs ∧ old ≠ r.old) ∨ (old = r.old ∧ new = r.new) := by
  simp [enter, Prod.ext_iff]

/-- A pair of the map is a replacement, or it was there before. -/
private theorem mem_foldl_enter {renames : List Rename} {pairs : List (Text × Text)}
    {old new : Text} (h : (old, new) ∈ renames.foldl enter pairs) :
    (old, new) ∈ pairs ∨ ∃ r ∈ renames, r.old = old ∧ r.new = new := by
  induction renames generalizing pairs with
  | nil => exact .inl h
  | cons r rest ih =>
    rcases ih h with hpairs | ⟨s, hs, hsame⟩
    · rcases mem_enter_iff.1 hpairs with ⟨hbefore, -⟩ | ⟨hold, hnew⟩
      · exact .inl hbefore
      · exact .inr ⟨r, List.mem_cons_self, hold.symm, hnew.symm⟩
    · exact .inr ⟨s, List.mem_cons_of_mem r hs, hsame⟩

/-- A name that is entered stays in the map, if not with the same new name. -/
private theorem exists_mem_foldl_enter {renames : List Rename} {pairs : List (Text × Text)}
    {old : Text} (h : (∃ new, (old, new) ∈ pairs) ∨ ∃ r ∈ renames, r.old = old) :
    ∃ new, (old, new) ∈ renames.foldl enter pairs := by
  induction renames generalizing pairs with
  | nil => simpa using h
  | cons r rest ih =>
    refine ih ?_
    by_cases hold : r.old = old
    · exact .inl ⟨r.new, mem_enter_iff.2 (.inr ⟨hold.symm, rfl⟩)⟩
    · rcases h with ⟨new, hnew⟩ | ⟨s, hs, hsame⟩
      · exact .inl ⟨new, mem_enter_iff.2 (.inl ⟨hnew, Ne.symm hold⟩)⟩
      · rcases List.mem_cons.1 hs with rfl | hrest
        · exact absurd hsame hold
        · exact .inr ⟨s, hrest, hsame⟩

/-- The pairs of the map are replacements. -/
theorem exists_rename_of_mem_map {a : Assignment} {old new : Text} (h : (old, new) ∈ a.map) :
    ∃ r ∈ a.renames, r.old = old ∧ r.new = new :=
  (mem_foldl_enter h).resolve_left List.not_mem_nil

/-- The map has all names that are replaced, and no others. -/
theorem exists_mem_map_iff {a : Assignment} {old : Text} :
    (∃ new, (old, new) ∈ a.map) ↔ ∃ r ∈ a.renames, r.old = old := by
  constructor
  · rintro ⟨new, hnew⟩
    obtain ⟨r, hr, hold, -⟩ := exists_rename_of_mem_map hnew
    exact ⟨r, hr, hold⟩
  · exact fun h => exists_mem_foldl_enter (.inr h)

/-- If all replacements of a name agree, the map has them. -/
theorem mem_map_of_forall {a : Assignment} {old new : Text} (h : ∃ r ∈ a.renames, r.old = old)
    (hagree : ∀ r ∈ a.renames, r.old = old → r.new = new) : (old, new) ∈ a.map := by
  obtain ⟨found, hfound⟩ := exists_mem_map_iff.2 h
  obtain ⟨r, hr, hold, hnew⟩ := exists_rename_of_mem_map hfound
  rwa [← hagree r hr hold, hnew]

end Assignment

open Assignment (mem_map_of_forall exists_mem_map_iff exists_rename_of_mem_map)

/-! ## New names are identifiers -/

/-- The digits of a generated name can stand in an identifier. -/
private theorem isIdentifierByte_digitByte {d : Nat} (hd : d < 36) :
    (startsIdentifier (Text.digitByte d) || Text.isDigit (Text.digitByte d)) = true := by
  have hall : ∀ d < 36,
      (startsIdentifier (Text.digitByte d) || Text.isDigit (Text.digitByte d)) = true := by
    decide
  exact hall d hd

/-- A generated name starts with a letter. -/
private theorem startsIdentifier_letter (upper : Bool) (h : UInt64) :
    startsIdentifier (if upper then upperLetter (0x61 + h.toNat % 26).toUInt8
      else (0x61 + h.toNat % 26).toUInt8) = true := by
  have hall : ∀ k < 26, startsIdentifier (upperLetter (0x61 + k).toUInt8) = true ∧
      startsIdentifier (0x61 + k).toUInt8 = true := by
    decide
  obtain ⟨hupper, hlower⟩ := hall _ (Nat.mod_lt h.toNat (by decide : 26 > 0))
  cases upper
  · exact hlower
  · exact hupper

/-- A generated name is an identifier. -/
theorem isIdentifier_candidate (rules : Rules) (name : Text) (attempt : Nat) (upper : Bool) :
    isIdentifier (candidate rules name attempt upper) = true := by
  rw [candidate, nameOfHash, isIdentifier, Bool.and_eq_true, List.all_eq_true]
  refine ⟨startsIdentifier_letter upper _, fun b hb => ?_⟩
  -- a byte behind the letter is a digit of the number or a zero in front of it
  rcases List.mem_append.1 (List.mem_of_mem_drop hb) with hzero | hdigit
  · rw [List.eq_of_mem_replicate hzero]
    rfl
  · obtain ⟨d, hd, rfl⟩ := List.mem_map.1 hdigit
    exact isIdentifierByte_digitByte
      (Text.lt_of_mem_digitsRev (by decide) _ _ d (List.mem_reverse.1 hd))

/-- The variable of a property with an identifier for a name has one too. -/
theorem isIdentifier_ivarOf {name : Text} (h : isIdentifier name = true) :
    isIdentifier (ivarOf name) = true := by
  cases name with
  | nil => rfl
  | cons b rest =>
    rw [isIdentifier, Bool.and_eq_true] at h
    rw [ivarOf, isIdentifier, List.all_cons, h.1, h.2]
    rfl

/-- An identifier that starts with a capital is one still. -/
private theorem startsIdentifier_upperLetter {b : UInt8} (h : startsIdentifier b = true) :
    startsIdentifier (upperLetter b) = true := by
  have hall : ∀ b : Fin 256, startsIdentifier (UInt8.ofNat b) = true →
      startsIdentifier (upperLetter (UInt8.ofNat b)) = true := by
    decide +kernel
  have hb := hall ⟨b.toNat, b.toNat_lt⟩
  rw [UInt8.ofNat_toNat] at hb
  exact hb h

/-- The setter of a property with an identifier for a name has one too. -/
theorem isIdentifier_setter {name : Text} (h : isIdentifier name = true) :
    isIdentifier (setter name) = true := by
  cases name with
  | nil => cases h
  | cons b rest =>
    rw [isIdentifier, Bool.and_eq_true] at h
    have hset : setter (b :: rest) = byte 's' :: byte 'e' :: byte 't' :: upperLetter b :: rest :=
      rfl
    simp only [hset, isIdentifier, List.all_cons, h.2, startsIdentifier_upperLetter h.1]
    rfl

/-- The new name of a symbol is an identifier. -/
theorem isIdentifier_newName (rules : Rules) (name : Text) (u : Usage) (attempt : Nat) :
    isIdentifier (newName rules name u attempt) = true := by
  unfold newName
  dsimp only
  split
  · exact isIdentifier_ivarOf (isIdentifier_candidate ..)
  · exact isIdentifier_candidate ..

/-! ## Accessors -/

/-- What the compiler derives from the name of a property. -/
inductive Accessor where
  /-- The name of the instance variable behind it. -/
  | ofIvar
  /-- The name of its setter. -/
  | ofSetter

namespace Accessor

/-- The name of an accessor of a property, by the way in which setters are spelled. -/
def nameOf (setterOf : Text → Text) (a : Accessor) (name : Text) : Text :=
  match a with
  | .ofIvar => ivarOf name
  | .ofSetter => setterOf name

/-- An instance variable starts with an underscore, a setter does not. -/
theorem ivarOf_ne_setter (p q : Text) : ivarOf p ≠ setter q := by
  intro h
  have hhead : (setter q).head? = some (byte 's') := by cases q <;> rfl
  rw [← h, ivarOf, List.head?_cons] at hhead
  exact absurd hhead (by decide)

theorem nameOf_ne_nil (a : Accessor) (p : Text) : a.nameOf setter p ≠ [] := by
  intro h
  have hlength := congrArg List.length h
  cases a with
  | ofIvar => simp [nameOf, ivarOf] at hlength
  | ofSetter => simp [nameOf, length_setter] at hlength

theorem nameOf_congr {setterOf : Text → Text} {p : Text} (h : setterOf p = setter p)
    (a : Accessor) : a.nameOf setterOf p = a.nameOf setter p := by
  cases a
  · rfl
  · exact h

theorem isIdentifier_nameOf {p : Text} (h : isIdentifier p = true) (a : Accessor) :
    isIdentifier (a.nameOf setter p) = true := by
  cases a
  · exact isIdentifier_ivarOf h
  · exact isIdentifier_setter h

/-- Accessors that share a name are of one kind. -/
theorem eq_of_nameOf_eq {a b : Accessor} {p q : Text} (h : a.nameOf setter p = b.nameOf setter q) :
    a = b := by
  cases a <;> cases b
  · rfl
  · exact absurd h (ivarOf_ne_setter p q)
  · exact absurd h.symm (ivarOf_ne_setter q p)
  · rfl

end Accessor

open Accessor (nameOf_ne_nil nameOf_congr eq_of_nameOf_eq)

variable {rules : Rules} {t : UsageTable}

/-- The followers of a free property that is not held back are its accessors. -/
theorem nameOf_mem_followers (hnodup : t.names.Nodup) {p : Text} (hfree : t.isFree p = true)
    (hproperty : isProperty t p = true) (hheld : isHeldBack t p = false) (a : Accessor) :
    a.nameOf setter p ∈ followers t (freeNames t) := by
  refine (mem_followers_freeNames_iff hnodup).2 ⟨p, hfree, hproperty, hheld, ?_⟩
  cases a
  · exact .inl rfl
  · exact .inr rfl

/-- A property is not held back if its accessors can follow. -/
theorem isHeldBack_eq_false {p : Text}
    (h : ∀ a : Accessor, t.knows (a.nameOf setter p) = true → t.isFree (a.nameOf setter p) = true) :
    isHeldBack t p = false := by
  have hfollow (a : Accessor) : canFollow t (a.nameOf setter p) = true := by
    rw [canFollow, Bool.or_eq_true, Bool.not_eq_true']
    cases hknown : t.knows (a.nameOf setter p) with
    | false => exact .inl rfl
    | true => exact .inr (h a hknown)
  have hivar : canFollow t (ivarOf p) = true := hfollow .ofIvar
  have hsetter : canFollow t (setter p) = true := hfollow .ofSetter
  rw [isHeldBack, hivar, hsetter]
  simp

namespace Choice

variable {c : Choice}

/-- Each choice renames the name it was made for. -/
theorem exists_rename_name (t : UsageTable) (c : Choice) : ∃ r ∈ c.renames t, r.old = c.name := by
  rw [Choice.renames, renamesOf]
  split <;> simp

/-- A property takes its known accessors along. -/
theorem exists_rename_nameOf (hproperty : c.usage.isProperty = true) {a : Accessor}
    (hknown : t.knows (a.nameOf setter c.name) = true) :
    ∃ r ∈ c.renames t, r.old = a.nameOf setter c.name := by
  rw [Choice.renames, renamesOf, if_neg (by simp [hproperty])]
  cases a with
  | ofIvar =>
    have hivar : t.knows (ivarOf c.name) = true := hknown
    exact ⟨⟨ivarOf c.name, ivarOf c.new, .ivar⟩, by simp [hivar], rfl⟩
  | ofSetter =>
    have hsetter : t.knows (setter c.name) = true := hknown
    exact ⟨⟨setter c.name, setter c.new, .selector⟩, by simp [hsetter], rfl⟩

/-- A choice replaces its name, or an accessor of its name by the same accessor of the new one. -/
theorem eq_name_or_nameOf {r : Rename} (h : r ∈ c.renames t) :
    (r.old = c.name ∧ r.new = c.new) ∨ (c.usage.isProperty = true ∧
      ∃ a : Accessor, r.old = a.nameOf setter c.name ∧ r.new = a.nameOf setter c.new) := by
  rcases Choice.mem_renames h with hname | ⟨hproperty, -, hivar | hsetter⟩
  · exact .inl hname
  · exact .inr ⟨hproperty, .ofIvar, hivar⟩
  · exact .inr ⟨hproperty, .ofSetter, hsetter⟩

end Choice

/-- No chosen property takes a name of another property along. -/
private structure Choice.Spare (choices : List Choice) (p : Text) : Prop where
  /-- The property is no accessor of a chosen one. -/
  ne_nameOf : ∀ c ∈ choices, c.usage.isProperty = true → ∀ a : Accessor, p ≠ a.nameOf setter c.name
  /-- It shares its accessors with no chosen one but itself. -/
  name_eq : ∀ c ∈ choices, c.usage.isProperty = true →
    ∀ a : Accessor, a.nameOf setter c.name = a.nameOf setter p → c.name = p

namespace Chosen

variable {choices : List Choice} {p : Text} (h : Chosen rules t choices)

include h

/-- A choice is in the map. -/
theorem exists_mem_map {c : Choice} (hc : c ∈ choices) :
    ∃ new, (c.name, new) ∈ (assign rules t).map := by
  obtain ⟨r, hr, hold⟩ := c.exists_rename_name t
  exact exists_mem_map_iff.2 ⟨r, h.mem_renames_iff.2 ⟨c, hc, hr⟩, hold⟩

/-- The property of the map that nobody takes along is a choice. -/
private theorem exists_choice (hspare : Choice.Spare choices p) {q : Text}
    (hmap : (p, q) ∈ (assign rules t).map) : ∃ c ∈ choices, c.name = p ∧ c.new = q := by
  obtain ⟨r, hr, rfl, rfl⟩ := exists_rename_of_mem_map hmap
  obtain ⟨c, hc, hrc⟩ := h.mem_renames_iff.1 hr
  rcases Choice.eq_name_or_nameOf hrc with ⟨hold, hnew⟩ | ⟨hproperty, a, hold, -⟩
  · exact ⟨c, hc, hold.symm, hnew.symm⟩
  · exact absurd hold (hspare.ne_nameOf c hc hproperty a)

/-- An accessor that is not picked for itself is replaced with its own property only. -/
private theorem name_eq_of_follows (hnodup : t.names.Nodup) (hspare : Choice.Spare choices p)
    {a : Accessor} (hfollows : a.nameOf setter p ∈ followers t (freeNames t)) {c : Choice}
    (hc : c ∈ choices) {r : Rename} (hr : r ∈ c.renames t) (hold : r.old = a.nameOf setter p) :
    c.name = p ∧ r.new = a.nameOf setter c.new := by
  rcases Choice.eq_name_or_nameOf hr with ⟨hname, -⟩ | ⟨hproperty, b, hname, hnew⟩
  · obtain ⟨-, hleads, -⟩ := (mem_leaders_iff hnodup).1 (h.name_mem_leaders hc)
    rw [← hname, hold] at hleads
    exact absurd hfollows hleads
  · obtain rfl := eq_of_nameOf_eq (hname.symm.trans hold)
    exact ⟨hspare.name_eq c hc hproperty b (hname.symm.trans hold), hnew⟩

/-- A property of the map takes its accessors to those of its new name. -/
private theorem mem_map_nameOf (hnodup : t.names.Nodup) (hspare : Choice.Spare choices p)
    (hproperty : isProperty t p = true) {q : Text} (hmap : (p, q) ∈ (assign rules t).map)
    {a : Accessor} (hknown : t.knows (a.nameOf setter p) = true) :
    (a.nameOf setter p, a.nameOf setter q) ∈ (assign rules t).map := by
  obtain ⟨c, hc, rfl, rfl⟩ := h.exists_choice hspare hmap
  obtain ⟨hfree, -, hheld⟩ := (mem_leaders_iff hnodup).1 (h.name_mem_leaders hc)
  have hfollows := nameOf_mem_followers hnodup hfree hproperty hheld a
  rw [h.isProperty_name hc] at hproperty
  obtain ⟨r, hr, hold⟩ := Choice.exists_rename_nameOf hproperty hknown
  refine mem_map_of_forall ⟨r, h.mem_renames_iff.2 ⟨c, hc, hr⟩, hold⟩ fun s hs hsold => ?_
  -- any other replacement of the accessor comes from the same choice
  obtain ⟨d, hd, hsd⟩ := h.mem_renames_iff.1 hs
  obtain ⟨hname, hnew⟩ := h.name_eq_of_follows hnodup hspare hfollows hd hsd hsold
  have hsame : d = c := List.inj_on_of_nodup_map
    (h.name_sublist.nodup (nodup_leaders hnodup)) hd hc hname
  rw [hnew, hsame]

/-- If all names of a property are free, an accessor is in the map only if the property is. -/
private theorem exists_mem_map_of_nameOf (hnodup : t.names.Nodup)
    (hspare : Choice.Spare choices p) (hfree : t.isFree p = true)
    (hproperty : isProperty t p = true)
    (htogether : ∀ a : Accessor, t.knows (a.nameOf setter p) = true →
      t.isFree (a.nameOf setter p) = true)
    {a : Accessor} {new : Text} (hmap : (a.nameOf setter p, new) ∈ (assign rules t).map) :
    ∃ q, (p, q) ∈ (assign rules t).map := by
  have hfollows :=
    nameOf_mem_followers hnodup hfree hproperty (isHeldBack_eq_false htogether) a
  obtain ⟨r, hr, hold, -⟩ := exists_rename_of_mem_map hmap
  obtain ⟨c, hc, hrc⟩ := h.mem_renames_iff.1 hr
  obtain ⟨rfl, -⟩ := h.name_eq_of_follows hnodup hspare hfollows hc hrc hold
  exact h.exists_mem_map hc

end Chosen

/-! ## Properties of a model -/

/-- The name is used. -/
def IsUsed (uses : List NameUse) (name : Text) : Prop := ∃ x ∈ uses, x.name? = some name

/-- The name is used for a property. -/
def IsPropertyName (uses : List NameUse) (name : Text) : Prop :=
  ∃ x ∈ uses, x.name? = some name ∧ x.isProperty = true

/-- The use is for a property or a piece of a selector. -/
def NameUse.isMember : NameUse → Bool
  | .property _ _ | .selectorPiece _ _ => true
  | _ => false

/-- The name is used for a property or a piece of a selector. -/
def IsMemberName (uses : List NameUse) (name : Text) : Prop :=
  ∃ x ∈ uses, x.name? = some name ∧ x.isMember = true

/-- No other property of the map takes a name of this one along. -/
structure StandsAlone (uses : List NameUse) (setterOf : Text → Text) (map : List (Text × Text))
    (p : Text) : Prop where
  /-- The property is no accessor of a property of the map. -/
  ne_nameOf : ∀ q new, IsPropertyName uses q → (q, new) ∈ map →
    ∀ a : Accessor, p ≠ a.nameOf setterOf q
  /-- It shares its accessors with no property of the map but itself. -/
  eq_of_nameOf_eq : ∀ q new, IsPropertyName uses q → (q, new) ∈ map →
    ∀ a : Accessor, a.nameOf setterOf q = a.nameOf setterOf p → q = p

/-- An accessor of a property may be replaced only if the property and all its accessors that are
used may be replaced. -/
def StandsTogether (rules : Rules) (model : Model) (uses : List NameUse) (setterOf : Text → Text)
    (p : Text) : Prop :=
  (∃ a : Accessor, MayReplace rules model uses (a.nameOf setterOf p)) →
    MayReplace rules model uses p ∧ ∀ a : Accessor,
      IsUsed uses (a.nameOf setterOf p) → MayReplace rules model uses (a.nameOf setterOf p)

section Model

variable {model : Model} {uses : List NameUse}

/-- A property or a piece of a selector that may be replaced is an identifier. -/
theorem isIdentifier_of_isMemberName {p : Text} (hmember : IsMemberName uses p)
    (h : MayReplace rules model uses p) : isIdentifier p = true := by
  obtain ⟨x, hx, hname, hp⟩ := hmember
  have hblocks := h.not_blocked x hx hname
  cases x with
  | property owner name | selectorPiece owner name =>
    obtain rfl : name = p := Option.some_inj.1 hname
    simp only [NameUse.blocks, NameUse.isMemberName, Bool.or_eq_false_iff, Bool.not_eq_false',
      Bool.and_eq_true] at hblocks
    exact hblocks.2.1.2
  | entity | ivar | backingIvar | reference => simp [NameUse.isMember] at hp

/-- A property that may be replaced has an identifier for its name. -/
theorem isIdentifier_of_mayReplace {p : Text} (hproperty : IsPropertyName uses p)
    (h : MayReplace rules model uses p) : isIdentifier p = true := by
  apply isIdentifier_of_isMemberName _ h
  obtain ⟨x, hx, hname, hp⟩ := hproperty
  refine ⟨x, hx, hname, ?_⟩
  cases x with
  | property owner name => rfl
  | entity | ivar | selectorPiece | backingIvar | reference => cases hp

variable (htells : Tells rules model uses t)

include htells

/-- The table knows the names that are used. -/
theorem Tells.knows_iff {name : Text} (hne : name ≠ []) :
    t.knows name = true ↔ IsUsed uses name := by
  rw [UsageTable.knows_iff, htells.mem_names_iff]
  exact and_iff_right hne

/-- The table knows which of the names are properties. -/
theorem Tells.isProperty_iff_isPropertyName {name : Text} (hne : name ≠ []) :
    isProperty t name = true ↔ IsPropertyName uses name := by
  rw [isProperty, Option.any_eq_true]
  constructor
  · rintro ⟨u, hu, hmarked⟩
    exact (htells.isProperty_iff name u hu).1 hmarked
  · intro hproperty
    have hused : IsUsed uses name := hproperty.imp fun _ hx => ⟨hx.1, hx.2.1⟩
    obtain ⟨u, hu⟩ := Option.isSome_iff_exists.1 ((htells.knows_iff hne).2 hused)
    exact ⟨u, hu, (htells.isProperty_iff name u hu).2 hproperty⟩

/-- The names of the map may be replaced. -/
theorem Tells.mayReplace_of_mem_map {old new : Text} (h : (old, new) ∈ (assign rules t).map) :
    old ≠ [] ∧ MayReplace rules model uses old := by
  obtain ⟨r, hr, rfl, -⟩ := exists_rename_of_mem_map h
  exact htells.isFree_iff.1 (isFree_of_mem_renames htells.nodup hr)

/-- A property that stands alone is spared by the choices. -/
private theorem Tells.spare {choices : List Choice} (h : Chosen rules t choices)
    {setterOf : Text → Text}
    (hsetter : ∀ name, isIdentifier name = true → setterOf name = setter name) {p : Text}
    (hp : isIdentifier p = true) (halone : StandsAlone uses setterOf (assign rules t).map p) :
    Choice.Spare choices p := by
  -- the property of a choice is one of the map, so the premise speaks of it
  have hchosen {c : Choice} (hc : c ∈ choices) (hmarked : c.usage.isProperty = true) :
      ∃ new, IsPropertyName uses c.name ∧ (c.name, new) ∈ (assign rules t).map ∧
        setterOf c.name = setter c.name := by
    obtain ⟨new, hmap⟩ := h.exists_mem_map hc
    obtain ⟨hne, hmay⟩ := htells.mayReplace_of_mem_map hmap
    rw [← h.isProperty_name hc, htells.isProperty_iff_isPropertyName hne] at hmarked
    exact ⟨new, hmarked, hmap, hsetter _ (isIdentifier_of_mayReplace hmarked hmay)⟩
  constructor
  · intro c hc hmarked a
    obtain ⟨new, hproperty, hmap, hspelled⟩ := hchosen hc hmarked
    rw [← nameOf_congr hspelled]
    exact halone.ne_nameOf c.name new hproperty hmap a
  · intro c hc hmarked a hsame
    obtain ⟨new, hproperty, hmap, hspelled⟩ := hchosen hc hmarked
    rw [← nameOf_congr hspelled, ← nameOf_congr (hsetter p hp)] at hsame
    exact halone.eq_of_nameOf_eq c.name new hproperty hmap a hsame

end Model

/-- Accessors follow their property. Take a property that no other property of the map takes a name
along from. If the map sends it to a new name, it sends its accessors, as far as they are used, to
those of the new name. If the map leaves it out, it leaves them out too, provided that an accessor
may be replaced only if all names of the property may.

The spelling of setters is that of the renaming for identifiers. Other properties are not replaced,
so any spelling will do for them. -/
theorem accessors_follow (rules : Rules) (model : Model) (visible : Entity → Bool)
    (renamer : Renamer) (setterOf : Text → Text)
    (hsetter : ∀ name, isIdentifier name = true → setterOf name = setter name) (p : Text)
    (hproperty : IsPropertyName (usesIn rules model visible) p)
    (halone : StandsAlone (usesIn rules model visible) setterOf
      (renamer.seeAll rules model (model.walk visible)).result.map p) :
    let uses := usesIn rules model visible
    let map := (renamer.seeAll rules model (model.walk visible)).result.map
    (∀ q, (p, q) ∈ map → ∀ a : Accessor, IsUsed uses (a.nameOf setterOf p) →
        (a.nameOf setterOf p, a.nameOf setterOf q) ∈ map) ∧
      (StandsTogether rules model uses setterOf p → (∀ q, (p, q) ∉ map) →
        ∀ (a : Accessor) (new : Text), (a.nameOf setterOf p, new) ∉ map) := by
  intro uses map
  obtain ⟨t, hresult, htells⟩ := seeAll_tells rules model visible renamer
  obtain ⟨choices, hchosen⟩ := exists_chosen rules t
  have hmap : map = (assign rules t).map := congrArg Assignment.map hresult
  rw [hresult] at halone
  rw [hmap]
  constructor
  · intro q hq a hused
    obtain ⟨hne, hmay⟩ := htells.mayReplace_of_mem_map hq
    have hp := isIdentifier_of_mayReplace hproperty hmay
    have hspare := htells.spare hchosen hsetter hp halone
    -- the new name is a generated one, so its setter is spelled as that of an identifier
    obtain ⟨c, hc, -, rfl⟩ := hchosen.exists_choice hspare hq
    obtain ⟨attempt, hnew⟩ := hchosen.new_eq c hc
    have hidentifier : isIdentifier c.new = true := hnew ▸ isIdentifier_newName ..
    rw [nameOf_congr (hsetter p hp)] at hused ⊢
    rw [nameOf_congr (hsetter c.new hidentifier)]
    exact hchosen.mem_map_nameOf htells.nodup hspare
      ((htells.isProperty_iff_isPropertyName hne).2 hproperty) hq
      ((htells.knows_iff (nameOf_ne_nil a p)).2 hused)
  · intro htogether hnone a new hnew
    obtain ⟨hmay, hothers⟩ := htogether ⟨a, (htells.mayReplace_of_mem_map hnew).2⟩
    have hp := isIdentifier_of_mayReplace hproperty hmay
    have hne : p ≠ [] := by
      rintro rfl
      cases hp
    have hspare := htells.spare hchosen hsetter hp halone
    simp only [nameOf_congr (hsetter p hp)] at hnew hothers
    have hfree (b : Accessor) (hknown : t.knows (b.nameOf setter p) = true) :
        t.isFree (b.nameOf setter p) = true :=
      htells.isFree_iff.2 ⟨nameOf_ne_nil b p,
        hothers b ((htells.knows_iff (nameOf_ne_nil b p)).1 hknown)⟩
    obtain ⟨q, hq⟩ := hchosen.exists_mem_map_of_nameOf htells.nodup hspare
      (htells.isFree_iff.2 ⟨hne, hmay⟩) ((htells.isProperty_iff_isPropertyName hne).2 hproperty)
      hfree hnew
    exact hnone q hq

/-- An instance variable of one word. -/
def sampleIvar (name : Text) : Ivar where
  name := name
  encoding := "Q"
  type := some (.primitive [] (byte 'Q'))
  offset := 0
  size := 8
  alignment := 8

/-- A property of one word. -/
def sampleProperty (name : Text) : Property where
  name := name
  encoded := "TQ"
  attributes := { type := some (.primitive [] (byte 'Q')), typeEncoding := "Q" }

/-- A property, one whose name is that of its instance variable, and one with a setter. -/
def sampleCounter : Model where
  classes :=
    [{  name := "Counter"
        ivars := ["__count", "_count", "_limit"].map fun name => sampleIvar (Text.ofString name)
        instanceMethods := [⟨"setLimit:", "v24@0:8Q16", none, false, 0⟩]
        properties :=
          ["count", "_count", "limit"].map fun name => sampleProperty (Text.ofString name) }]

/-- The counter keeps the property `limit` and the variable of `_count`, but not `setLimit`. -/
private theorem renames_sampleCounter :
    (({} : Renamer).seeAll (.ignoring ["_limit"] true) sampleCounter
        (sampleCounter.walk fun _ => true)).result.renames =
      [⟨"Counter", "Bml77qpddw", .className⟩, ⟨"_count", "_tkzmj7jhy2", .ivar⟩,
        ⟨"count", "tkzmj7jhy2", .property⟩, ⟨"setLimit", "x86lcccffg", .selector⟩] := by
  let rules := Rules.ignoring ["_limit"] true
  let inner := sampleCounter.classes.flatMap Model.visitClass
  have hwalk : sampleCounter.walk (fun _ => true) = .start :: (inner ++ [.finish]) := by cbv
  have hfree : freeNames (tableOf rules sampleCounter inner) =
      ["Counter", "__count", "_count", "count", "limit", "setLimit"].map Text.ofString :=
    freeNames_eq_sort
      (["limit", "count", "setLimit", "_count", "__count", "Counter"].map Text.ofString)
      (by decide +kernel) (by cbv)
  rw [renames_seeAll_eq_sort
    [⟨"Counter", "Bml77qpddw", .className⟩, ⟨"count", "tkzmj7jhy2", .property⟩,
      ⟨"_count", "_tkzmj7jhy2", .ivar⟩, ⟨"setLimit", "x86lcccffg", .selector⟩]
    hwalk hfree (by decide +kernel)]
  cbv

private theorem map_sampleCounter :
    (({} : Renamer).seeAll (.ignoring ["_limit"] true) sampleCounter
        (sampleCounter.walk fun _ => true)).result.map =
      [(Text.ofString "Counter", Text.ofString "Bml77qpddw"),
        (Text.ofString "_count", Text.ofString "_tkzmj7jhy2"),
        (Text.ofString "count", Text.ofString "tkzmj7jhy2"),
        (Text.ofString "setLimit", Text.ofString "x86lcccffg")] := by
  rw [Assignment.map, renames_sampleCounter]
  decide

/-- A property that follows another one leaves its own instance variable behind, and one that is
held back by its instance variable loses its setter. -/
theorem accessors_left_behind :
    let uses := usesIn (.ignoring ["_limit"] true) sampleCounter fun _ => true
    let map := (({} : Renamer).seeAll (.ignoring ["_limit"] true) sampleCounter
      (sampleCounter.walk fun _ => true)).result.map
    (IsPropertyName uses "_count" ∧ (Text.ofString "_count", Text.ofString "_tkzmj7jhy2") ∈ map ∧
        IsUsed uses (ivarOf "_count") ∧ ∀ new, (ivarOf "_count", new) ∉ map) ∧
      (IsPropertyName uses "limit" ∧ (∀ new, (Text.ofString "limit", new) ∉ map) ∧
        (setter "limit", Text.ofString "x86lcccffg") ∈ map) := by
  intro uses map
  have hmap : map = _ := map_sampleCounter
  have hivar : ∀ pair ∈ map, pair.1 ≠ ivarOf "_count" := by rw [hmap]; decide
  have hlimit : ∀ pair ∈ map, pair.1 ≠ Text.ofString "limit" := by rw [hmap]; decide
  refine ⟨⟨?_, ?_, ?_, fun new hnew => hivar _ hnew rfl⟩, ?_, fun new hnew => hlimit _ hnew rfl, ?_⟩
  · unfold IsPropertyName
    decide +kernel
  · rw [hmap]
    decide
  · unfold IsUsed
    decide +kernel
  · unfold IsPropertyName
    decide +kernel
  · rw [hmap]
    decide

/-- The first property takes its instance variable along. -/
theorem accessors_follow_sampleCounter :
    (ivarOf "count", ivarOf "tkzmj7jhy2") ∈
      (({} : Renamer).seeAll (.ignoring ["_limit"] true) sampleCounter
        (sampleCounter.walk fun _ => true)).result.map := by
  have halone : ∀ pair ∈ (({} : Renamer).seeAll (.ignoring ["_limit"] true) sampleCounter
        (sampleCounter.walk fun _ => true)).result.map,
      ("count" ≠ ivarOf pair.1 ∧ "count" ≠ setter pair.1) ∧
        (ivarOf pair.1 = ivarOf "count" → pair.1 = "count") ∧
          (setter pair.1 = setter "count" → pair.1 = "count") := by
    rw [map_sampleCounter]
    decide
  refine (accessors_follow (.ignoring ["_limit"] true) sampleCounter (fun _ => true) {} setter
    (fun _ _ => rfl) "count" ?_ ⟨?_, ?_⟩).1 "tkzmj7jhy2" ?_ .ofIvar ?_
  · unfold IsPropertyName
    decide +kernel
  · rintro q new - hmem (_ | _)
    · exact (halone _ hmem).1.1
    · exact (halone _ hmem).1.2
  · rintro q new - hmem (_ | _)
    · exact (halone _ hmem).2.1
    · exact (halone _ hmem).2.2
  · rw [map_sampleCounter]
    decide
  · unfold IsUsed
    decide +kernel

end ObjcLens.Renaming
