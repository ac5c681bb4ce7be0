import Mathlib
import ObjcLens.Proofs.Renaming.Accessor

/-!
# Names that are replaced twice

Replacements are committed on two paths: that of a leader, and with it those of its instance
variable and its setter if it is a property. Leaders have different names, and a name that follows a
property is no leader, so the two paths never meet. Instance variables tell their properties apart
as well. Setters do not: those of `size` and `Size` are both `setSize`, and if the setter is used,
both properties commit a replacement of it.

This is the only way in which a name is replaced twice. As long as it does not happen, the list of
replacements, the map and the definitions say the same.

## Main results

* `Assignment.length_map_eq_iff`, `Assignment.map_eq_of_nodup`: the map against the list of
  replacements.
* `Chosen.nodup_old_iff`: what two choices may have in common.
* `nodup_old_iff_not_sharesSetter`: no name is replaced twice, the map is complete and the
  definitions agree with it, if and only if no two replaced properties share a setter.
* `setter_defined_twice`: two properties that do.
-/

namespace ObjcLens.Renaming

namespace Assignment

/-- Old names that are entered once stay in the order in which they are entered. -/
private theorem foldl_enter_eq (renames : List Rename) (pairs : List (Text × Text))
    (h : (pairs.map Prod.fst ++ renames.map (·.old)).Nodup) :
    renames.foldl (fun pairs r =>
        (pairs.filter fun pair => pair.1 ≠ r.old) ++ [(r.old, r.new)]) pairs =
      pairs ++ renames.map fun r => (r.old, r.new) := by
  induction renames generalizing pairs with
  | nil => simp
  | cons r rest ih =>
    have hnew : ∀ pair ∈ pairs, pair.1 ≠ r.old := by
      intro pair hpair hsame
      exact (List.nodup_append.1 h).2.2 pair.1 (List.mem_map_of_mem hpair) r.old (by simp) hsame
    have hkept : (pairs.filter fun pair => pair.1 ≠ r.old) = pairs := by
      rw [List.filter_eq_self]
      simpa using hnew
    rw [List.foldl_cons, hkept, ih _ (by simpa using h)]
    simp

/-- Entering a rename leaves no old name twice. -/
private theorem nodup_foldl_enter (renames : List Rename) (pairs : List (Text × Text))
    (h : (pairs.map Prod.fst).Nodup) :
    ((renames.foldl (fun pairs r =>
      (pairs.filter fun pair => pair.1 ≠ r.old) ++ [(r.old, r.new)]) pairs).map
        Prod.fst).Nodup := by
  induction renames generalizing pairs with
  | nil => exact h
  | cons r rest ih =>
    apply ih
    rw [List.map_append, List.nodup_append]
    refine ⟨(List.filter_sublist.map _).nodup h, List.nodup_singleton _, ?_⟩
    rintro old hold _ hentered rfl
    obtain ⟨pair, hpair, rfl⟩ := List.mem_map.1 hold
    have hsame : pair.1 = r.old := by simpa using hentered
    simp [hsame] at hpair

/-- The map has one pair for each old name. -/
theorem length_map (a : Assignment) : a.map.length = (a.renames.map (·.old)).dedup.length := by
  have hnodup : (a.map.map Prod.fst).Nodup := nodup_foldl_enter a.renames [] List.nodup_nil
  have hperm : (a.map.map Prod.fst).Perm (a.renames.map (·.old)).dedup := by
    rw [List.perm_ext_iff_of_nodup hnodup (List.nodup_dedup _)]
    intro old
    rw [List.mem_dedup, List.mem_map, List.mem_map, ← exists_mem_map_iff]
    simp
  simpa using hperm.length_eq

/-- The map is as long as the list of renames exactly when no name is renamed twice. -/
theorem length_map_eq_iff (a : Assignment) :
    a.map.length = a.renames.length ↔ (a.renames.map (·.old)).Nodup := by
  rw [length_map, ← List.dedup_eq_self]
  constructor
  · intro h
    exact (List.dedup_sublist _).eq_of_length (by rw [h, List.length_map])
  · intro h
    rw [h, List.length_map]

/-- If no name is replaced twice, the map lists the replacements. -/
theorem map_eq_of_nodup {a : Assignment} (h : (a.renames.map (·.old)).Nodup) :
    a.map = a.renames.map fun r => (r.old, r.new) :=
  foldl_enter_eq a.renames [] (by simpa using h)

end Assignment

open Accessor (eq_of_nameOf_eq)

/-! ## What two choices have in common -/

variable {rules : Rules} {t : UsageTable}

/-- One choice renames no name twice. -/
theorem Choice.nodup_old (t : UsageTable) (c : Choice) : ((c.renames t).map (·.old)).Nodup :=
  (renamesOf_sublist t c.name c.usage c.new).1.nodup (nodup_neededNames c.usage c.name)

/-- The choices are properties that have a setter in common, which is used. -/
structure Choice.ShareSetter (t : UsageTable) (c d : Choice) : Prop where
  left : c.usage.isProperty = true
  right : d.usage.isProperty = true
  setter_eq : setter c.name = setter d.name
  knows_setter : t.knows (setter c.name) = true

namespace Chosen

variable {choices : List Choice} (h : Chosen rules t choices) (hnodup : t.names.Nodup)

include h hnodup

theorem nodup_choices : (choices.map (·.name)).Nodup := h.name_sublist.nodup (nodup_leaders hnodup)

/-- What follows a choice is no leader, so it is not the name of a choice. -/
theorem name_ne_nameOf {c d : Choice} (hc : c ∈ choices) (hd : d ∈ choices)
    (hproperty : d.usage.isProperty = true) (a : Accessor) : c.name ≠ a.nameOf setter d.name := by
  intro hname
  obtain ⟨hfree, -, hheld⟩ := (mem_leaders_iff hnodup).1 (h.name_mem_leaders hd)
  rw [← h.isProperty_name hd] at hproperty
  have hfollows := nameOf_mem_followers hnodup hfree hproperty hheld a
  rw [← hname] at hfollows
  exact ((mem_leaders_iff hnodup).1 (h.name_mem_leaders hc)).2.1 hfollows

/-- Two choices replace the same name only if they share a setter. -/
theorem shareSetter_of_old_eq {c d : Choice} (hc : c ∈ choices) (hd : d ∈ choices) (hne : c ≠ d)
    {r s : Rename} (hr : r ∈ c.renames t) (hs : s ∈ d.renames t) (hold : r.old = s.old) :
    Choice.ShareSetter t c d := by
  have hnames : c.name ≠ d.name := fun hname =>
    hne (List.inj_on_of_nodup_map (h.nodup_choices hnodup) hc hd hname)
  rcases Choice.eq_name_or_nameOf hr with ⟨hrname, -⟩ | ⟨hcp, a, hra, -⟩ <;>
    rcases Choice.eq_name_or_nameOf hs with ⟨hsname, -⟩ | ⟨hdp, b, hsb, -⟩
  · exact absurd (hrname.symm.trans (hold.trans hsname)) hnames
  · exact absurd (hrname.symm.trans (hold.trans hsb)) (h.name_ne_nameOf hnodup hc hd hdp b)
  · exact absurd (hsname.symm.trans (hold.symm.trans hra)) (h.name_ne_nameOf hnodup hd hc hcp a)
  · -- two accessors of one name are of one kind, and an instance variable tells its property
    have hsame : a.nameOf setter c.name = b.nameOf setter d.name :=
      hra.symm.trans (hold.trans hsb)
    obtain rfl := eq_of_nameOf_eq hsame
    cases a with
    | ofIvar => exact absurd (List.cons.inj hsame).2 hnames
    | ofSetter =>
      refine ⟨hcp, hdp, hsame, ?_⟩
      rcases Choice.mem_renames hr with ⟨hrname, -⟩ | ⟨-, hknown, -⟩
      · exact absurd (hrname.symm.trans hra) (h.name_ne_nameOf hnodup hc hc hcp .ofSetter)
      · rwa [hra] at hknown

/-- No name is replaced twice if and only if no two choices share a setter. -/
theorem nodup_old_iff : ((assign rules t).renames.map (·.old)).Nodup ↔
    ∀ c ∈ choices, ∀ d ∈ choices, Choice.ShareSetter t c d → c = d := by
  have hchoices : choices.Nodup := (h.nodup_choices hnodup).of_map
  have : Std.Symm (Function.onFun List.Disjoint fun c => (Choice.renames t c).map (·.old)) :=
    ⟨fun _ _ hapart => hapart.symm⟩
  rw [(h.renames_perm.map (·.old)).nodup_iff, List.map_flatMap, List.nodup_flatMap,
    ← hchoices.pairwise_coe]
  constructor
  · rintro ⟨-, hdisjoint⟩ c hc d hd hshare
    by_contra hne
    have hapart := hdisjoint hc hd hne
    obtain ⟨r, hr, hrold⟩ :=
      Choice.exists_rename_nameOf hshare.left (a := .ofSetter) hshare.knows_setter
    obtain ⟨s, hs, hsold⟩ := Choice.exists_rename_nameOf (t := t) hshare.right (a := .ofSetter)
      (show t.knows (setter d.name) = true from hshare.setter_eq ▸ hshare.knows_setter)
    have hold : r.old = s.old := hrold.trans (hshare.setter_eq.trans hsold.symm)
    exact hapart (List.mem_map_of_mem hr) (hold ▸ List.mem_map_of_mem hs)
  · intro hshare
    refine ⟨fun c _ => c.nodup_old t, fun c hc d hd hne old hcold hdold => ?_⟩
    obtain ⟨r, hr, rfl⟩ := List.mem_map.1 hcold
    obtain ⟨s, hs, hsold⟩ := List.mem_map.1 hdold
    exact hne (hshare c hc d hd (h.shareSetter_of_old_eq hnodup hc hd hne hr hs hsold.symm))

end Chosen

/-! ## Shared setters in the result -/

/-- Two different properties are replaced, each for its own sake and not as an accessor of another
one, and a setter that they have in common is used. -/
def SharesSetter (uses : List NameUse) (renames : List Rename) : Prop :=
  ∃ r ∈ renames, ∃ s ∈ renames, r.kind = .property ∧ s.kind = .property ∧
    IsPropertyName uses r.old ∧ IsPropertyName uses s.old ∧ r.old ≠ s.old ∧
    setter r.old = setter s.old ∧ IsUsed uses (setter r.old)

/-- A property that is replaced for its own sake is a choice. -/
private theorem Choice.isProperty_and_old_eq {c : Choice} {r : Rename} (hr : r ∈ c.renames t)
    (hkind : r.kind = .property) (hproperty : isProperty t r.old = true)
    (hname : isProperty t c.name = c.usage.isProperty) :
    c.usage.isProperty = true ∧ r.old = c.name := by
  rw [Choice.renames, renamesOf] at hr
  split at hr
  · obtain rfl := List.mem_singleton.1 hr
    exact ⟨hname.symm.trans hproperty, rfl⟩
  -- the accessors that come with a property are no properties by their kind
  · rename_i hmarked
    refine ⟨by simpa using hmarked, ?_⟩
    simp only [List.cons_append, List.mem_cons, List.mem_append, List.mem_ite_nil_right,
      List.not_mem_nil, or_false] at hr
    rcases hr with rfl | ⟨-, rfl⟩ | ⟨-, rfl⟩
    · rfl
    · cases hkind
    · cases hkind

private theorem Choice.mem_renames_self {c : Choice} (hproperty : c.usage.isProperty = true) :
    ⟨c.name, c.new, .property⟩ ∈ c.renames t := by
  rw [Choice.renames, renamesOf, if_neg (by simp [hproperty])]
  exact List.mem_cons_self

/-- In terms of the model: two choices share a setter if and only if two replaced properties do. -/
private theorem Chosen.sharesSetter_iff {choices : List Choice} (h : Chosen rules t choices)
    {model : Model} {uses : List NameUse} (htells : Tells rules model uses t) :
    SharesSetter uses (assign rules t).renames ↔
      ∃ c ∈ choices, ∃ d ∈ choices, Choice.ShareSetter t c d ∧ c ≠ d := by
  have hne {r : Rename} (hr : r ∈ (assign rules t).renames) : r.old ≠ [] :=
    (htells.isFree_iff.1 (isFree_of_mem_renames htells.nodup hr)).1
  have hknows (p : Text) : t.knows (setter p) = true ↔ IsUsed uses (setter p) :=
    htells.knows_iff (Accessor.nameOf_ne_nil .ofSetter p)
  constructor
  · rintro ⟨r, hr, s, hs, hrkind, hskind, hrp, hsp, hdiff, hsetter, hused⟩
    obtain ⟨c, hc, hrc⟩ := h.mem_renames_iff.1 hr
    obtain ⟨d, hd, hsd⟩ := h.mem_renames_iff.1 hs
    obtain ⟨hcp, hrold⟩ := Choice.isProperty_and_old_eq hrc hrkind
      ((htells.isProperty_iff_isPropertyName (hne hr)).2 hrp) (h.isProperty_name hc)
    obtain ⟨hdp, hsold⟩ := Choice.isProperty_and_old_eq hsd hskind
      ((htells.isProperty_iff_isPropertyName (hne hs)).2 hsp) (h.isProperty_name hd)
    rw [hrold, hsold] at hdiff hsetter
    rw [hrold] at hused
    exact ⟨c, hc, d, hd, ⟨hcp, hdp, hsetter, (hknows c.name).2 hused⟩,
      fun hcd => hdiff (congrArg Choice.name hcd)⟩
  · rintro ⟨c, hc, d, hd, hshare, hdiff⟩
    -- a choice of a property is a replacement of its own
    have hmem {e : Choice} (he : e ∈ choices) (hproperty : e.usage.isProperty = true) :
        ⟨e.name, e.new, .property⟩ ∈ (assign rules t).renames ∧ IsPropertyName uses e.name := by
      have hself := h.mem_renames_iff.2 ⟨e, he, Choice.mem_renames_self (t := t) hproperty⟩
      rw [← h.isProperty_name he] at hproperty
      exact ⟨hself, (htells.isProperty_iff_isPropertyName (hne hself)).1 hproperty⟩
    obtain ⟨hcmem, hcp⟩ := hmem hc hshare.left
    obtain ⟨hdmem, hdp⟩ := hmem hd hshare.right
    have hnames : c.name ≠ d.name := fun hname =>
      hdiff (List.inj_on_of_nodup_map (h.nodup_choices htells.nodup) hc hd hname)
    exact ⟨_, hcmem, _, hdmem, rfl, rfl, hcp, hdp, hnames, hshare.setter_eq,
      (hknows c.name).1 hshare.knows_setter⟩

/-- A name is replaced once, unless it is the setter of two replaced properties. After a walk under
any rules, three things are the same: the old names are pairwise distinct, the map has as many
entries as there are replacements, and no two replaced properties share a setter that is used. If
they hold, the map lists the replacements, and the definitions are one line for each of its entries,
then the padding. -/
theorem nodup_old_iff_not_sharesSetter (rules : Rules) (model : Model) (visible : Entity → Bool)
    (renamer : Renamer) :
    let result := (renamer.seeAll rules model (model.walk visible)).result
    ((result.renames.map (·.old)).Nodup ↔
        ¬SharesSetter (usesIn rules model visible) result.renames) ∧
      (result.map.length = result.renames.length ↔
        ¬SharesSetter (usesIn rules model visible) result.renames) ∧
      (¬SharesSetter (usesIn rules model visible) result.renames →
        result.map = result.renames.map (fun r => (r.old, r.new)) ∧
        result.defines = result.map.flatMap (fun pair => Assignment.define pair.1 pair.2) ++
          result.padding.flatMap fun name => Assignment.define name name) := by
  intro result
  obtain ⟨t, hresult, htells⟩ := seeAll_tells rules model visible renamer
  obtain ⟨choices, hchosen⟩ := exists_chosen rules t
  have hnodup : (result.renames.map (·.old)).Nodup ↔
      ¬SharesSetter (usesIn rules model visible) result.renames := by
    rw [show result = assign rules t from hresult, hchosen.nodup_old_iff htells.nodup,
      hchosen.sharesSetter_iff htells]
    push Not
    rfl
  refine ⟨hnodup, result.length_map_eq_iff.trans hnodup, fun hnone => ?_⟩
  -- without repetitions no entry of the map replaces another
  have hmap := Assignment.map_eq_of_nodup (hnodup.2 hnone)
  refine ⟨hmap, ?_⟩
  rw [hmap, List.flatMap_map]
  rfl

/-- Two properties with one setter. -/
def sampleSizes : Model where
  classes :=
    [{  name := "Panel"
        instanceMethods := [⟨"setSize:", "v24@0:8Q16", none, false, 0⟩]
        properties := ["size", "Size"].map fun name => sampleProperty (Text.ofString name) }]

/-- Properties that differ in the case of their first letter share a setter, which is renamed twice.
-/
private theorem renames_sampleSizes :
    (({} : Renamer).seeAll (.ignoring [] true) sampleSizes
        (sampleSizes.walk fun _ => true)).result.renames =
      [⟨"Panel", "T9u9mvyibv", .className⟩, ⟨"Size", "okw2vhbtom", .property⟩,
        ⟨"setSize", "setOkw2vhbtom", .selector⟩, ⟨"setSize", "setQcgas6rk89", .selector⟩,
        ⟨"size", "qcgas6rk89", .property⟩] := by
  let rules := Rules.ignoring [] true
  let inner := sampleSizes.classes.flatMap Model.visitClass
  have hwalk : sampleSizes.walk (fun _ => true) = .start :: (inner ++ [.finish]) := by cbv
  have hfree : freeNames (tableOf rules sampleSizes inner) =
      ["Panel", "Size", "setSize", "size"].map Text.ofString :=
    freeNames_eq_sort (["Size", "size", "setSize", "Panel"].map Text.ofString) (by decide +kernel)
      (by cbv)
  rw [renames_seeAll_eq_sort
    [⟨"Panel", "T9u9mvyibv", .className⟩, ⟨"Size", "okw2vhbtom", .property⟩,
      ⟨"setSize", "setOkw2vhbtom", .selector⟩, ⟨"size", "qcgas6rk89", .property⟩,
      ⟨"setSize", "setQcgas6rk89", .selector⟩]
    hwalk hfree (by decide +kernel)]
  cbv

/-- The setter is defined by both properties, as two different names, of which the map has only
one. -/
theorem setter_defined_twice :
    let result := (({} : Renamer).seeAll (.ignoring [] true) sampleSizes
      (sampleSizes.walk fun _ => true)).result
    ¬(result.renames.map (·.old)).Nodup ∧
      result.map.length < result.renames.length ∧
      ⟨"setSize", "setOkw2vhbtom", .selector⟩ ∈ result.renames ∧
      ⟨"setSize", "setQcgas6rk89", .selector⟩ ∈ result.renames ∧
      (Text.ofString "setSize", Text.ofString "setOkw2vhbtom") ∉ result.map ∧
      (Text.ofString "setSize", Text.ofString "setQcgas6rk89") ∈ result.map := by
  dsimp only
  rw [Assignment.map, renames_sampleSizes]
  decide

end ObjcLens.Renaming
