import Mathlib
import ObjcLens.Proofs.Renaming.Survey
import ObjcLens.Renaming.Output

/-!
# Only free names are replaced

A name gets a replacement on one of two paths. A leader is a free name that gets one of its own. The
instance variable and the setter of a property follow their leader. They are not looked at again
when they are replaced, so they must have been free when the leaders were picked: a property whose
followers cannot be replaced is held back.

`Choice` records a leader with its replacement. What is replaced in the end is the list of
replacements of all choices.

## Main results

* `mem_leaders_iff`: a leader is free, follows nobody and is not held back.
* `exists_chosen`: the replacements of an assignment are those of choices among its leaders.
* `mayReplace_of_mem_renames`: a name with a replacement has a use that allows it, and no use that
  blocks it.
-/

namespace ObjcLens.Renaming

namespace UsageTable

variable {t : UsageTable}

/-- In a table with one entry for each name, the uses of a name are those of its entry. -/
theorem get?_eq_some_iff (h : t.names.Nodup) {name : Text} {u : Usage} :
    t.get? name = some u ↔ (name, u) ∈ t := by
  induction t with
  | nil => simp [get?]
  | cons entry rest ih =>
    rw [names, List.map_cons, List.nodup_cons] at h
    by_cases hname : entry.1 = name
    · have hrest : (name, u) ∉ rest := fun hmem =>
        h.1 (List.mem_map.2 ⟨(name, u), hmem, hname.symm⟩)
      simp [get?, hname, hrest, Prod.ext_iff, eq_comm]
    · have hother : (name, u) ≠ entry := fun he => hname (congrArg Prod.fst he.symm)
      have hget : get? (entry :: rest) name = get? rest name := by simp [get?, hname]
      rw [hget, ih h.2, List.mem_cons, or_iff_right hother]

/-- A free name has uses that leave it free. -/
theorem isFree_iff {name : Text} :
    t.isFree name = true ↔ ∃ u, t.get? name = some u ∧ u.isFree = true := by
  rw [isFree, Option.any_eq_true]

end UsageTable

open UsageTable (isFree_iff get?_eq_some_iff)

variable {rules : Rules} {t : UsageTable}

/-- The free names of a table are those of its names that no use holds back. -/
theorem mem_freeNames_iff (h : t.names.Nodup) {name : Text} :
    name ∈ freeNames t ↔ t.isFree name = true := by
  rw [freeNames, Text.sort, List.mem_mergeSort, isFree_iff]
  simp [get?_eq_some_iff h]

theorem nodup_freeNames (h : t.names.Nodup) : (freeNames t).Nodup := by
  rw [freeNames, Text.sort, (List.mergeSort_perm _ _).nodup_iff]
  exact (List.filter_sublist.map _).nodup h

/-- The names that follow are the instance variables and setters of free properties that are not
held back. -/
theorem mem_followers_freeNames_iff (h : t.names.Nodup) {name : Text} :
    name ∈ followers t (freeNames t) ↔
      ∃ p, t.isFree p = true ∧ isProperty t p = true ∧ isHeldBack t p = false ∧
        (name = ivarOf p ∨ name = setter p) := by
  simp [followers, mem_freeNames_iff h, and_assoc]

/-- A leader is free, follows nobody and is not held back. -/
theorem mem_leaders_iff (h : t.names.Nodup) {name : Text} :
    name ∈ leaders t ↔ t.isFree name = true ∧ name ∉ followers t (freeNames t) ∧
      isHeldBack t name = false := by
  simp [leaders, mem_freeNames_iff h]

theorem nodup_leaders (h : t.names.Nodup) : (leaders t).Nodup :=
  List.filter_sublist.nodup (nodup_freeNames h)

/-- What follows a property that is not held back is free if it is known. -/
theorem isFree_of_not_isHeldBack {name follower : Text} (hproperty : isProperty t name = true)
    (hheld : isHeldBack t name = false)
    (hfollower : follower = ivarOf name ∨ follower = setter name)
    (hknown : t.knows follower = true) : t.isFree follower = true := by
  simp only [isHeldBack, hproperty, Bool.true_and, Bool.not_eq_false', Bool.and_eq_true, canFollow,
    Bool.or_eq_true, Bool.not_eq_true'] at hheld
  obtain ⟨hivar, hsetter⟩ := hheld
  rcases hfollower with rfl | rfl
  · exact hivar.resolve_left (by simp [hknown])
  · exact hsetter.resolve_left (by simp [hknown])

/-- A leader that got a new name. -/
structure Choice where
  /-- The old name. -/
  name : Text
  /-- Its uses. -/
  usage : Usage
  /-- The new name. -/
  new : Text

/-- The replacements that come with a choice. -/
def Choice.renames (t : UsageTable) (c : Choice) : List Rename := renamesOf t c.name c.usage c.new

/-- Renames are committed in their order. -/
theorem renames_foldl_commit (renames : List Rename) (l : Ledger) :
    (renames.foldl Ledger.commit l).renames.reverse = l.renames.reverse ++ renames := by
  induction renames generalizing l with
  | nil => simp
  | cons r rest ih => simp [ih, Ledger.commit]

private theorem failures_foldl_commit (renames : List Rename) (l : Ledger) :
    (renames.foldl Ledger.commit l).failures = l.failures := by
  induction renames generalizing l with
  | nil => rfl
  | cons r rest ih => exact ih (l.commit r)

/-- If some attempt gives a free name, the ledger gets the replacements of a choice. -/
theorem renames_tryNames {name : Text} {u : Usage} {l l' : Ledger} {left attempt : Nat}
    (h : tryNames rules t name u l left attempt = some l') :
    l'.failures = l.failures ∧ ∃ used, l'.renames.reverse =
      l.renames.reverse ++ Choice.renames t ⟨name, u, newName rules name u used⟩ := by
  induction left generalizing attempt with
  | zero => simp [tryNames] at h
  | succ left ih =>
    simp only [tryNames] at h
    split at h
    · cases h
      exact ⟨failures_foldl_commit _ l, _, renames_foldl_commit _ l⟩
    · exact ih h

/-- A known symbol adds the replacements of a choice, or it is noted that no name was found. -/
theorem assignOne_cases (rules : Rules) (l : Ledger) {name : Text} (hknown : t.knows name = true) :
    (∃ u used, t.get? name = some u ∧
        (assignOne rules t l name).failures = l.failures ∧
        (assignOne rules t l name).renames.reverse =
          l.renames.reverse ++ Choice.renames t ⟨name, u, newName rules name u used⟩) ∨
      ((assignOne rules t l name).failures = name :: l.failures ∧
        (assignOne rules t l name).renames = l.renames) := by
  obtain ⟨u, hu⟩ := Option.isSome_iff_exists.1 hknown
  rw [assignOne, hu]
  dsimp only
  split
  · rename_i hfound
    obtain ⟨hfailures, used, hused⟩ := renames_tryNames hfound
    exact .inl ⟨u, used, rfl, hfailures, hused⟩
  · exact .inr ⟨rfl, rfl⟩

/-- Symbols add the replacements of choices among them, in their order. For the other symbols it is
noted that no name was found. -/
theorem foldl_assignOne_cases (rules : Rules) {symbols : List Text}
    (hknown : ∀ name ∈ symbols, t.knows name = true) (l : Ledger) :
    ∃ (choices : List Choice) (failed : List Text),
      (symbols.foldl (assignOne rules t) l).renames.reverse =
        l.renames.reverse ++ choices.flatMap (Choice.renames t) ∧
      (symbols.foldl (assignOne rules t) l).failures.reverse = l.failures.reverse ++ failed ∧
      (choices.map (·.name) ++ failed).Perm symbols ∧
      (choices.map (·.name)).Sublist symbols ∧
      (∀ c ∈ choices, t.get? c.name = some c.usage) ∧
      ∀ c ∈ choices, ∃ attempt, c.new = newName rules c.name c.usage attempt := by
  induction symbols generalizing l with
  | nil => exact ⟨[], [], by simp⟩
  | cons name rest ih =>
    rw [List.forall_mem_cons] at hknown
    obtain ⟨choices, failed, hrenames, hfailures, hperm, hsub, husage, hnew⟩ :=
      ih hknown.2 (assignOne rules t l name)
    rcases assignOne_cases rules l hknown.1 with
      ⟨u, used, hu, hsame, hmore⟩ | ⟨hmore, hsame⟩
    · refine ⟨⟨name, u, newName rules name u used⟩ :: choices, failed, ?_, ?_, hperm.cons name,
        hsub.cons_cons name, ?_, ?_⟩
      · rw [List.foldl_cons, hrenames, hmore, List.flatMap_cons, List.append_assoc]
      · rw [List.foldl_cons, hfailures, hsame]
      · exact List.forall_mem_cons.2 ⟨hu, husage⟩
      · exact List.forall_mem_cons.2 ⟨⟨used, rfl⟩, hnew⟩
    · refine ⟨choices, name :: failed, ?_, ?_, ?_, hsub.cons name, husage, hnew⟩
      · rw [List.foldl_cons, hrenames, hsame]
      · rw [List.foldl_cons, hfailures, hmore, List.reverse_cons, List.append_assoc]
        rfl
      · exact List.perm_middle.trans (hperm.cons name)

/-- The choices that were made for an assignment. -/
structure Chosen (rules : Rules) (t : UsageTable) (choices : List Choice) : Prop where
  /-- The replacements are those of the choices. -/
  renames_perm : (assign rules t).renames.Perm (choices.flatMap (Choice.renames t))
  /-- The choices are among the leaders, each at most once. -/
  name_sublist : (choices.map (·.name)).Sublist (leaders t)
  /-- A choice knows how its name is used. -/
  get?_name : ∀ c ∈ choices, t.get? c.name = some c.usage
  /-- The new name was found at some attempt. -/
  new_eq : ∀ c ∈ choices, ∃ attempt, c.new = newName rules c.name c.usage attempt

private theorem knows_of_mem_leaders {name : Text} (h : name ∈ leaders t) :
    t.knows name = true := by
  have hfree : name ∈ freeNames t := (List.mem_filter.1 h).1
  rw [freeNames, Text.sort, List.mem_mergeSort] at hfree
  exact (t.knows_iff name).2 ((List.filter_sublist.map _).subset hfree)

/-- The replacements of an assignment are those of choices among its leaders, and its errors are
those of the other leaders. -/
theorem exists_chosen_failed (rules : Rules) (t : UsageTable) :
    ∃ (choices : List Choice) (failed : List Text), Chosen rules t choices ∧
      (assign rules t).errors = failed.map (fun name => .ambiguous name rules.maxAttempts) ∧
      (choices.map (·.name) ++ failed).Perm (leaders t) := by
  have hknown : ∀ name ∈ leaders t, t.knows name = true := fun _ => knows_of_mem_leaders
  obtain ⟨choices, failed, hrenames, hfailures, hperm, hsub, husage, hnew⟩ :=
    foldl_assignOne_cases rules hknown { reserved := t.names ++ rules.ignoredNames }
  rw [List.reverse_nil, List.nil_append] at hrenames hfailures
  refine ⟨choices, failed, ⟨?_, hsub, husage, hnew⟩, ?_, hperm⟩
  · -- the replacements are sorted at the end, which the order of the choices is not
    rw [← hrenames]
    exact Quicksort.sort_perm _ _
  · rw [← hfailures]
    rfl

/-- The replacements of an assignment are those of choices among its leaders. -/
theorem exists_chosen (rules : Rules) (t : UsageTable) :
    ∃ choices : List Choice, Chosen rules t choices := by
  obtain ⟨choices, _, h, -, -⟩ := exists_chosen_failed rules t
  exact ⟨choices, h⟩

/-- A choice replaces its leader and, if that is a property, what follows it as far as it is
known. -/
theorem Choice.mem_renames {c : Choice} {r : Rename} (h : r ∈ c.renames t) :
    (r.old = c.name ∧ r.new = c.new) ∨
      (c.usage.isProperty = true ∧ t.knows r.old = true ∧
        ((r.old = ivarOf c.name ∧ r.new = ivarOf c.new) ∨
          (r.old = setter c.name ∧ r.new = setter c.new))) := by
  rw [Choice.renames, renamesOf] at h
  split at h
  · rw [List.mem_singleton] at h
    exact .inl (h ▸ ⟨rfl, rfl⟩)
  · rename_i hproperty
    simp only [List.cons_append, List.mem_cons, List.mem_append, List.mem_ite_nil_right,
      List.not_mem_nil, or_false] at h
    have hmarked : c.usage.isProperty = true := by simpa using hproperty
    rcases h with rfl | ⟨hknown, rfl⟩ | ⟨hknown, rfl⟩
    · exact .inl ⟨rfl, rfl⟩
    · exact .inr ⟨hmarked, hknown, .inl ⟨rfl, rfl⟩⟩
    · exact .inr ⟨hmarked, hknown, .inr ⟨rfl, rfl⟩⟩

namespace Chosen

variable {choices : List Choice} (h : Chosen rules t choices)

include h

/-- Every rename comes from one of the choices. -/
theorem mem_renames_iff {r : Rename} :
    r ∈ (assign rules t).renames ↔ ∃ c ∈ choices, r ∈ c.renames t := by
  rw [h.renames_perm.mem_iff, List.mem_flatMap]

/-- A choice is a leader. -/
theorem name_mem_leaders {c : Choice} (hc : c ∈ choices) : c.name ∈ leaders t :=
  h.name_sublist.subset (List.mem_map_of_mem hc)

/-- A choice is that of a property if its name is. -/
theorem isProperty_name {c : Choice} (hc : c ∈ choices) :
    isProperty t c.name = c.usage.isProperty := by
  rw [isProperty, h.get?_name c hc, Option.any_some]

end Chosen

/-- The names of a table that are replaced are free. -/
theorem isFree_of_mem_renames (hnodup : t.names.Nodup) {r : Rename}
    (hr : r ∈ (assign rules t).renames) : t.isFree r.old = true := by
  obtain ⟨choices, h⟩ := exists_chosen rules t
  obtain ⟨c, hc, hrc⟩ := h.mem_renames_iff.1 hr
  obtain ⟨hfree, -, hheld⟩ := (mem_leaders_iff hnodup).1 (h.name_mem_leaders hc)
  rcases Choice.mem_renames hrc with ⟨hname, -⟩ | ⟨hproperty, hknown, hfollower⟩
  · rwa [hname]
  · rw [← h.isProperty_name hc] at hproperty
    exact isFree_of_not_isHeldBack hproperty hheld (hfollower.imp And.left And.left) hknown

/-- The name may be replaced: some use allows that, and no use blocks it. -/
structure MayReplace (rules : Rules) (model : Model) (uses : List NameUse) (name : Text) :
    Prop where
  /-- Some use allows the name to be replaced. -/
  allowed : ∃ x ∈ uses, x.name? = some name ∧ x.allows rules = true
  /-- No use blocks it. -/
  not_blocked : ∀ x ∈ uses, x.name? = some name → x.blocks rules model = false

/-- The free names of a table that tells of all uses are those that may be replaced. -/
theorem Tells.isFree_iff {model : Model} {uses : List NameUse} (h : Tells rules model uses t)
    {name : Text} : t.isFree name = true ↔ name ≠ [] ∧ MayReplace rules model uses name := by
  rw [UsageTable.isFree_iff]
  constructor
  · rintro ⟨u, hu, hfree⟩
    rw [Usage.isFree, Bool.and_eq_true, h.isEligible_iff name u hu, Bool.not_eq_true'] at hfree
    refine ⟨h.ne_nil hu, ⟨hfree.1, fun x hx hname => ?_⟩⟩
    by_contra hblocks
    have hblocked := (h.isBlocked_iff name u hu).2 ⟨x, hx, hname, by simpa using hblocks⟩
    simp [hblocked] at hfree
  · rintro ⟨hne, ⟨hallowed, hnone⟩⟩
    -- a use that allows the name makes it known, so the table has an entry to ask
    have hused : ∃ x ∈ uses, x.name? = some name := hallowed.imp fun _ hx => ⟨hx.1, hx.2.1⟩
    have hknown : t.knows name = true :=
      (t.knows_iff name).2 ((h.mem_names_iff name).2 ⟨hne, hused⟩)
    obtain ⟨u, hu⟩ := Option.isSome_iff_exists.1 hknown
    refine ⟨u, hu, ?_⟩
    have hblocked : u.isBlocked = false := by
      rw [← Bool.not_eq_true, h.isBlocked_iff name u hu]
      rintro ⟨y, hy, hyname, hblocks⟩
      simp [hnone y hy hyname] at hblocks
    rw [Usage.isFree, hblocked, (h.isEligible_iff name u hu).2 hallowed]
    rfl

/-- Only free names are replaced. A name that has a replacement after a walk, under any rules and
whatever the walk sees of the model, may be replaced: it is used in a way that allows that, and none
of its uses blocks it. -/
theorem mayReplace_of_mem_renames (rules : Rules) (model : Model) (visible : Entity → Bool)
    (renamer : Renamer) (r : Rename)
    (hr : r ∈ (renamer.seeAll rules model (model.walk visible)).result.renames) :
    MayReplace rules model (usesIn rules model visible) r.old := by
  obtain ⟨t, hresult, htells⟩ := seeAll_tells rules model visible renamer
  rw [hresult] at hr
  exact (htells.isFree_iff.1 (isFree_of_mem_renames htells.nodup hr)).2

/-- The rules by which all names may be replaced but some. -/
def Rules.ignoring (names : List Text) (renameMembers : Bool) : Rules where
  isIgnored name := names.contains name
  isDoubtful _ := false
  inScope _ := true
  isScopeDoubtful _ := false
  ignoredNames := names
  renameMembers := renameMembers
  hash := Murmur.hash
  seed := 0
  nameLength := defaultNameLength
  maxAttempts := defaultMaxAttempts
  padding := 0

/-- A class that stays as it is, with an anonymous aggregate for an instance variable. -/
def sampleSecret : Class where
  name := "Secret"
  superclass := "Base"
  ivars :=
    [{  name := "point"
        encoding := "\x7b?=i\x7d"
        type := some (.aggregate [] .struct "?" [⟨[], .primitive [] (byte 'i'), 0⟩])
        offset := 0
        size := 4
        alignment := 4 }]

/-- The class that stays, its superclass, and a class with the name of all anonymous aggregates. -/
def sampleHierarchy : Model where
  classes := [{ name := "?" }, { name := "Base" }, sampleSecret]

/-- The table of a first walk with some events. -/
def tableOf (rules : Rules) (model : Model) (inner : List Event) : UsageTable :=
  (inner.foldl (Survey.see rules model) {}).table

/-- The names that may be replaced, first as they stand in the table, then sorted. -/
theorem freeNames_eq_sort (names : List Text) {free : List Text}
    (hnames : (t.filter fun entry => entry.2.isFree).map (·.1) = names)
    (hsort : Text.sort names = free) : freeNames t = free := by
  rw [freeNames, hnames, hsort]

/-- The replacements of a first walk, step by step: the events, the names that may be replaced, and
what they are replaced by. Sorting is kept apart, since it does not reduce. -/
theorem renames_seeAll_eq_sort {model : Model} {visible : Entity → Bool} {inner : List Event}
    {free : List Text} (renames : List Rename)
    (hwalk : model.walk visible = .start :: (inner ++ [.finish]))
    (hfree : freeNames (tableOf rules model inner) = free)
    (hrenames : ((free.filter fun name =>
        !(followers (tableOf rules model inner) free).contains name &&
          !isHeldBack (tableOf rules model inner) name).foldl
        (assignOne rules (tableOf rules model inner))
        { reserved := (tableOf rules model inner).names ++ rules.ignoredNames }).renames.reverse =
      renames) :
    (({} : Renamer).seeAll rules model (model.walk visible)).result.renames =
      Quicksort.sort (fun a b => Text.le a.old b.old) renames := by
  subst hfree hrenames
  rw [hwalk, seeAll_eq_assign]
  rfl

/-- The class named by a question mark and the base are replaced, the ignored one is not. -/
private theorem renames_sampleHierarchy :
    (({} : Renamer).seeAll (.ignoring ["Secret"] false) sampleHierarchy
        (sampleHierarchy.walk fun _ => true)).result.renames =
      [⟨"?", "Gd0gtm6ccf", .className⟩, ⟨"Base", "Jxid9hs5s3", .className⟩] := by
  let rules := Rules.ignoring ["Secret"] false
  let inner := sampleHierarchy.classes.flatMap Model.visitClass
  have hwalk : sampleHierarchy.walk (fun _ => true) = .start :: (inner ++ [.finish]) := by cbv
  have hfree : freeNames (tableOf rules sampleHierarchy inner) =
      ["?", "Base"].map Text.ofString :=
    freeNames_eq_sort (["Base", "?"].map Text.ofString) (by decide +kernel) (by cbv)
  rw [renames_seeAll_eq_sort [⟨"?", "Gd0gtm6ccf", .className⟩, ⟨"Base", "Jxid9hs5s3", .className⟩]
    hwalk hfree (by decide +kernel)]
  cbv

/-- A class that stays may refer to one that does not, and the tag of an anonymous aggregate is not
a name, so neither of them keeps a name from being replaced. -/
theorem renames_despite_ignored_subclass_and_anonymous_tag :
    let rules := Rules.ignoring ["Secret"] false
    let result := (({} : Renamer).seeAll rules sampleHierarchy
      (sampleHierarchy.walk fun _ => true)).result
    sampleSecret ∈ sampleHierarchy.classes ∧ mayRename rules sampleSecret.name [] = false ∧
      sampleSecret.superclass = "Base" ∧
      (∃ v ∈ sampleSecret.ivars, .ofTag "?" ∈ ObjcType.references? v.type) ∧
      result.renames.map (·.old) = [Text.ofString "?", Text.ofString "Base"] := by
  refine ⟨by simp [sampleHierarchy], by decide, rfl, ?_, ?_⟩
  · exact ⟨_, List.mem_singleton.2 rfl, by decide⟩
  · exact congrArg (List.map (·.old)) renames_sampleHierarchy

/-- The superclass is allowed to be replaced by its own use, and the reference of its subclass does
not block it. -/
theorem mayReplace_of_mem_renames_sampleHierarchy :
    MayReplace (.ignoring ["Secret"] false) sampleHierarchy
      (usesIn (.ignoring ["Secret"] false) sampleHierarchy fun _ => true) (Text.ofString "Base") :=
  mayReplace_of_mem_renames (.ignoring ["Secret"] false) sampleHierarchy (fun _ => true) {}
    ⟨"Base", "Jxid9hs5s3", .className⟩ (by rw [renames_sampleHierarchy]; simp)

end ObjcLens.Renaming
