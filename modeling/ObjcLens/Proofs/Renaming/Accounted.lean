import Mathlib
import ObjcLens.Proofs.Renaming.Accessor

/-!
# Every name that may be replaced is accounted for

A name that may be replaced leads or follows. One that leads gets a new name of its own, or it is
reported that none was found. One that follows a property is left to the property, which takes it
along if it leads itself and gets a new name. A property that cannot take its accessors along is
held back, and keeps its name.

Nobody looks after an accessor of a property that follows another one. The property is replaced,
but not for its own sake, so it takes nothing along, and the accessor keeps its name without a
word. This is the only way in which a name is lost.

## Main results

* `Tells.mem_leaders_iff`: what leads, in terms of the model.
* `Tells.replaces_or_reports_iff`: what is replaced or reported.
* `replaced_or_accounted_for`: why a name that may be replaced keeps its name.
* `setter_of_follower_lost`: a setter that is lost.
-/

namespace ObjcLens.Renaming

/-- The name is replaced. -/
def Assignment.Replaces (a : Assignment) (name : Text) : Prop := ∃ r ∈ a.renames, r.old = name

/-- It is reported that no new name was found. -/
def Assignment.Reports (rules : Rules) (a : Assignment) (name : Text) : Prop :=
  .ambiguous name rules.maxAttempts ∈ a.errors

/-- A property keeps its name: one of its accessors is used but may not be replaced. -/
structure HeldBack (rules : Rules) (model : Model) (uses : List NameUse) (name : Text) : Prop where
  isPropertyName : IsPropertyName uses name
  accessor_stays : ∃ a : Accessor, IsUsed uses (a.nameOf setter name) ∧
    ¬MayReplace rules model uses (a.nameOf setter name)

/-- A name is an accessor of a property that may be replaced and is not held back. It is left to
that property. -/
structure Follows (rules : Rules) (model : Model) (uses : List NameUse) (name property : Text) :
    Prop where
  isPropertyName : IsPropertyName uses property
  mayReplace : MayReplace rules model uses property
  not_heldBack : ¬HeldBack rules model uses property
  eq_nameOf : ∃ a : Accessor, name = a.nameOf setter property

/-- A name is replaced for its own sake, if at all. -/
structure Leads (rules : Rules) (model : Model) (uses : List NameUse) (name : Text) : Prop where
  mayReplace : MayReplace rules model uses name
  not_heldBack : ¬HeldBack rules model uses name
  not_follows : ∀ p, ¬Follows rules model uses name p

section Model

variable {rules : Rules} {model : Model} {uses : List NameUse} {t : UsageTable}

/-- What has a follower is not empty, since a property that may be replaced is an identifier. -/
theorem Follows.property_ne_nil {name p : Text} (h : Follows rules model uses name p) :
    p ≠ [] := by
  rintro rfl
  have hidentifier := isIdentifier_of_mayReplace h.isPropertyName h.mayReplace
  cases hidentifier

/-- A name that may be replaced leads, is held back, or follows a property. -/
theorem Leads.or_heldBack_or_follows {name : Text} (h : MayReplace rules model uses name) :
    Leads rules model uses name ∨ HeldBack rules model uses name ∨
      ∃ p, Follows rules model uses name p := by
  by_cases hheld : HeldBack rules model uses name
  · exact .inr (.inl hheld)
  by_cases hfollows : ∃ p, Follows rules model uses name p
  · exact .inr (.inr hfollows)
  · exact .inl ⟨h, hheld, not_exists.1 hfollows⟩

variable (htells : Tells rules model uses t)

include htells

/-- An accessor cannot follow when it is used for something that must stay. -/
private theorem Tells.canFollow_eq_false_iff (a : Accessor) (p : Text) :
    canFollow t (a.nameOf setter p) = false ↔ IsUsed uses (a.nameOf setter p) ∧
      ¬MayReplace rules model uses (a.nameOf setter p) := by
  have hne := Accessor.nameOf_ne_nil a p
  have hfree : t.isFree (a.nameOf setter p) = false ↔
      ¬MayReplace rules model uses (a.nameOf setter p) := by
    rw [← Bool.not_eq_true, htells.isFree_iff, and_iff_right hne]
  rw [canFollow, Bool.or_eq_false_iff, Bool.not_eq_false', htells.knows_iff hne, hfree]

/-- A property is held back if one of its accessors is used but may not be replaced. -/
theorem Tells.isHeldBack_iff {p : Text} (hne : p ≠ []) :
    isHeldBack t p = true ↔ HeldBack rules model uses p := by
  have hivar : canFollow t (ivarOf p) = false ↔ _ := htells.canFollow_eq_false_iff .ofIvar p
  have hsetter : canFollow t (setter p) = false ↔ _ := htells.canFollow_eq_false_iff .ofSetter p
  rw [isHeldBack, Bool.and_eq_true, htells.isProperty_iff_isPropertyName hne, Bool.not_eq_true',
    Bool.and_eq_false_iff, hivar, hsetter]
  constructor
  · rintro ⟨hproperty, hstays | hstays⟩
    · exact ⟨hproperty, .ofIvar, hstays⟩
    · exact ⟨hproperty, .ofSetter, hstays⟩
  · rintro ⟨hproperty, _ | _, hstays⟩
    · exact ⟨hproperty, .inl hstays⟩
    · exact ⟨hproperty, .inr hstays⟩

/-- The followers in the table are the accessors that follow some property. -/
theorem Tells.mem_followers_iff {name : Text} :
    name ∈ followers t (freeNames t) ↔ ∃ p, Follows rules model uses name p := by
  rw [mem_followers_freeNames_iff htells.nodup]
  constructor
  · rintro ⟨p, hfree, hproperty, hheld, hname⟩
    obtain ⟨hne, hmay⟩ := htells.isFree_iff.1 hfree
    rw [← Bool.not_eq_true, htells.isHeldBack_iff hne] at hheld
    rw [htells.isProperty_iff_isPropertyName hne] at hproperty
    rcases hname with hivar | hsetter
    · exact ⟨p, hproperty, hmay, hheld, .ofIvar, hivar⟩
    · exact ⟨p, hproperty, hmay, hheld, .ofSetter, hsetter⟩
  · rintro ⟨p, hfollows⟩
    have hne := hfollows.property_ne_nil
    have hheld : isHeldBack t p = false := by
      rw [← Bool.not_eq_true, htells.isHeldBack_iff hne]
      exact hfollows.not_heldBack
    refine ⟨p, htells.isFree_iff.2 ⟨hne, hfollows.mayReplace⟩,
      (htells.isProperty_iff_isPropertyName hne).2 hfollows.isPropertyName, hheld, ?_⟩
    obtain ⟨_ | _, hname⟩ := hfollows.eq_nameOf
    · exact .inl hname
    · exact .inr hname

/-- The leaders of a table are the names that lead. -/
theorem Tells.mem_leaders_iff {name : Text} (hne : name ≠ []) :
    name ∈ leaders t ↔ Leads rules model uses name := by
  rw [Renaming.mem_leaders_iff htells.nodup, htells.isFree_iff, htells.mem_followers_iff,
    ← Bool.not_eq_true, htells.isHeldBack_iff hne]
  constructor
  · rintro ⟨⟨-, hmay⟩, hnone, hheld⟩
    exact ⟨hmay, hheld, not_exists.1 hnone⟩
  · intro h
    exact ⟨⟨hne, h.mayReplace⟩, not_exists.2 h.not_follows, h.not_heldBack⟩

section Choices

variable {choices : List Choice} (h : Chosen rules t choices) {c : Choice} (hc : c ∈ choices)

include h hc

/-- A choice leads. -/
private theorem Tells.leads_choice : Leads rules model uses c.name := by
  have hleader := h.name_mem_leaders hc
  obtain ⟨hfree, -⟩ := (Renaming.mem_leaders_iff htells.nodup).1 hleader
  exact (htells.mem_leaders_iff (htells.isFree_iff.1 hfree).1).1 hleader

/-- The accessors of a choice follow it. -/
private theorem Tells.follows_choice (hproperty : c.usage.isProperty = true) (a : Accessor) :
    Follows rules model uses (a.nameOf setter c.name) c.name := by
  have hleads := htells.leads_choice h hc
  obtain ⟨hfree, -⟩ := (Renaming.mem_leaders_iff htells.nodup).1 (h.name_mem_leaders hc)
  have hne : c.name ≠ [] := (htells.isFree_iff.1 hfree).1
  rw [← h.isProperty_name hc, htells.isProperty_iff_isPropertyName hne] at hproperty
  exact ⟨hproperty, hleads.mayReplace, hleads.not_heldBack, a, rfl⟩

end Choices

/-- What leads and is replaced is a choice. -/
private theorem Tells.exists_choice {choices : List Choice} (h : Chosen rules t choices)
    {name : Text} (hleads : Leads rules model uses name)
    (hreplaced : (assign rules t).Replaces name) : ∃ c ∈ choices, c.name = name := by
  obtain ⟨r, hr, rfl⟩ := hreplaced
  obtain ⟨c, hc, hrc⟩ := h.mem_renames_iff.1 hr
  rcases Choice.eq_name_or_nameOf hrc with ⟨hname, -⟩ | ⟨hproperty, a, hname, -⟩
  · exact ⟨c, hc, hname.symm⟩
  · -- an accessor of a choice does not lead
    refine absurd ?_ (hleads.not_follows c.name)
    rw [hname]
    exact htells.follows_choice h hc hproperty a

/-- A name is replaced or reported if and only if it leads, or it follows a property that leads and
is replaced. Nothing is both replaced and reported. -/
theorem Tells.replaces_or_reports_iff {name : Text} (hne : name ≠ [])
    (hmay : MayReplace rules model uses name) :
    ((assign rules t).Replaces name ∨ (assign rules t).Reports rules name ↔
        Leads rules model uses name ∨ ∃ p, Follows rules model uses name p ∧
          Leads rules model uses p ∧ (assign rules t).Replaces p) ∧
      ¬((assign rules t).Replaces name ∧ (assign rules t).Reports rules name) := by
  -- each leader is a choice or failed, so that it is enough to find out which one a name is
  obtain ⟨choices, failed, h, herrors, hperm⟩ := exists_chosen_failed rules t
  have hreports : (assign rules t).Reports rules name ↔ name ∈ failed := by
    rw [Assignment.Reports, herrors, List.mem_map]
    simp
  have hleads_failed (hfailed : name ∈ failed) : Leads rules model uses name :=
    (htells.mem_leaders_iff hne).1 (hperm.subset (List.mem_append_right _ hfailed))
  have hreplaces {c : Choice} (hc : c ∈ choices) {old : Text}
      (hold : ∃ r ∈ c.renames t, r.old = old) : (assign rules t).Replaces old := by
    obtain ⟨r, hr, hname⟩ := hold
    exact ⟨r, h.mem_renames_iff.2 ⟨c, hc, hr⟩, hname⟩
  refine ⟨⟨?_, ?_⟩, ?_⟩
  · rintro (⟨r, hr, rfl⟩ | hreported)
    · -- a replacement comes from a choice, which leads, or from an accessor of one
      obtain ⟨c, hc, hrc⟩ := h.mem_renames_iff.1 hr
      have hleads := htells.leads_choice h hc
      rcases Choice.eq_name_or_nameOf hrc with ⟨hname, -⟩ | ⟨hproperty, a, hname, -⟩
      · rw [hname]
        exact .inl hleads
      · rw [hname]
        exact .inr ⟨c.name, htells.follows_choice h hc hproperty a, hleads,
          hreplaces hc (c.exists_rename_name t)⟩
    · exact .inl (hleads_failed (hreports.1 hreported))
  · rintro (hleads | ⟨p, hfollows, hleads, hreplaced⟩)
    · -- a leader is replaced as a choice or reported as failed
      have hleader := (htells.mem_leaders_iff hne).2 hleads
      rcases List.mem_append.1 (hperm.mem_iff.2 hleader) with hchosen | hfailed
      · obtain ⟨c, hc, rfl⟩ := List.mem_map.1 hchosen
        exact .inl (hreplaces hc (c.exists_rename_name t))
      · exact .inr (hreports.2 hfailed)
    · -- the property is a choice, and its accessor is known because it has a use
      obtain ⟨c, hc, rfl⟩ := htells.exists_choice h hleads hreplaced
      obtain ⟨a, rfl⟩ := hfollows.eq_nameOf
      have hproperty : c.usage.isProperty = true := by
        rw [← h.isProperty_name hc, htells.isProperty_iff_isPropertyName hfollows.property_ne_nil]
        exact hfollows.isPropertyName
      have hused : IsUsed uses (a.nameOf setter c.name) :=
        hmay.allowed.imp fun _ hx => ⟨hx.1, hx.2.1⟩
      exact .inl (hreplaces hc
        (Choice.exists_rename_nameOf hproperty ((htells.knows_iff hne).2 hused)))
  · rintro ⟨hreplaced, hreported⟩
    rw [hreports] at hreported
    obtain ⟨c, hc, rfl⟩ := htells.exists_choice h (hleads_failed hreported) hreplaced
    -- no leader is there twice, and this one would be both chosen and failed
    have hnodup := hperm.nodup_iff.2 (nodup_leaders htells.nodup)
    exact (List.nodup_append.1 hnodup).2.2 c.name (List.mem_map_of_mem hc) c.name hreported rfl

end Model

/-- A name that may be replaced does not keep its name without a reason. After a walk under any
rules it is replaced, or it is reported, or it is a property that is held back, or it follows a
property that is not replaced, or it follows a property that is replaced only because it follows
another one itself.

The reasons are complete: a name is replaced or reported, and never both, if and only if it leads,
or it follows a property that leads and is replaced. -/
theorem replaced_or_accounted_for (rules : Rules) (model : Model) (visible : Entity → Bool)
    (renamer : Renamer) (name : Text) (hne : name ≠ [])
    (hmay : MayReplace rules model (usesIn rules model visible) name) :
    let uses := usesIn rules model visible
    let result := (renamer.seeAll rules model (model.walk visible)).result
    (result.Replaces name ∨ result.Reports rules name ∨ HeldBack rules model uses name ∨
        (∃ p, Follows rules model uses name p ∧ ¬result.Replaces p) ∨
        ∃ p q, Follows rules model uses name p ∧ Follows rules model uses p q ∧
          result.Replaces p) ∧
      (result.Replaces name ∨ result.Reports rules name ↔ Leads rules model uses name ∨
        ∃ p, Follows rules model uses name p ∧ Leads rules model uses p ∧ result.Replaces p) ∧
      ¬(result.Replaces name ∧ result.Reports rules name) := by
  intro uses result
  obtain ⟨t, hresult, htells⟩ := seeAll_tells rules model visible renamer
  obtain ⟨hiff, hboth⟩ := htells.replaces_or_reports_iff hne hmay
  rw [← hresult] at hiff hboth
  refine ⟨?_, hiff, hboth⟩
  rcases Leads.or_heldBack_or_follows hmay with hleads | hheld | ⟨p, hfollows⟩
  · -- what leads is never passed over
    rcases hiff.2 (.inl hleads) with hreplaced | hreported
    · exact .inl hreplaced
    · exact .inr (.inl hreported)
  · exact .inr (.inr (.inl hheld))
  · by_cases hreplaced : result.Replaces p
    · -- a property that is replaced takes the name along, unless it follows another one
      rcases Leads.or_heldBack_or_follows hfollows.mayReplace with hleads | hheld | ⟨q, hq⟩
      · rcases hiff.2 (.inr ⟨p, hfollows, hleads, hreplaced⟩) with hname | hreported
        · exact .inl hname
        · exact .inr (.inl hreported)
      · exact absurd hheld hfollows.not_heldBack
      · exact .inr (.inr (.inr (.inr ⟨p, q, hfollows, hq, hreplaced⟩)))
    · exact .inr (.inr (.inr (.inl ⟨p, hfollows, hreplaced⟩)))

/-- A property, and another one that is named like its setter. -/
def sampleRelay : Model where
  classes :=
    [{  name := "Relay"
        instanceMethods := ["setFlow:", "setSetFlow:"].map fun name =>
          ⟨Text.ofString name, "v24@0:8Q16", none, false, 0⟩
        properties := ["flow", "setFlow"].map fun name => sampleProperty (Text.ofString name) }]

/-- The names of a first walk that may be replaced, in the order in which they are. -/
private theorem freeNames_sampleRelay :
    freeNames (tableOf (.ignoring [] true) sampleRelay
        (sampleRelay.classes.flatMap Model.visitClass)) =
      ["Relay", "flow", "setFlow", "setSetFlow"].map Text.ofString :=
  freeNames_eq_sort (["flow", "setSetFlow", "setFlow", "Relay"].map Text.ofString)
    (by decide +kernel) (by cbv)

private theorem walk_sampleRelay : sampleRelay.walk (fun _ => true) =
    .start :: (sampleRelay.classes.flatMap Model.visitClass ++ [.finish]) := by
  cbv

/-- The setter of a property is renamed after it, and the setter of that setter is left out. -/
private theorem renames_sampleRelay :
    (({} : Renamer).seeAll (.ignoring [] true) sampleRelay
        (sampleRelay.walk fun _ => true)).result.renames =
      [⟨"Relay", "Um4jqa2af8", .className⟩, ⟨"flow", "dm37fjvnxu", .property⟩,
        ⟨"setFlow", "setDm37fjvnxu", .selector⟩] := by
  rw [renames_seeAll_eq_sort
    [⟨"Relay", "Um4jqa2af8", .className⟩, ⟨"flow", "dm37fjvnxu", .property⟩,
      ⟨"setFlow", "setDm37fjvnxu", .selector⟩]
    walk_sampleRelay freeNames_sampleRelay (by decide +kernel)]
  cbv

private theorem errors_sampleRelay :
    (({} : Renamer).seeAll (.ignoring [] true) sampleRelay
        (sampleRelay.walk fun _ => true)).result.errors = [] := by
  rw [walk_sampleRelay, seeAll_eq_assign]
  change (Ledger.failures ((leaders (tableOf (.ignoring [] true) sampleRelay _)).foldl _ _)
    ).reverse.map _ = []
  rw [leaders, freeNames_sampleRelay]
  decide +kernel

/-- The setter of the setter may be replaced. -/
private theorem mayReplace_sampleRelay : MayReplace (.ignoring [] true) sampleRelay
    (usesIn (.ignoring [] true) sampleRelay fun _ => true) (setter "setFlow") where
  allowed := by decide +kernel
  not_blocked := by decide +kernel

private theorem not_isPropertyName_sampleRelay : ¬IsPropertyName
    (usesIn (.ignoring [] true) sampleRelay fun _ => true) (setter "setFlow") := by
  unfold IsPropertyName
  decide +kernel

/-- No rename of the relay replaces it. -/
private theorem not_replaces_sampleRelay :
    ¬(({} : Renamer).seeAll (.ignoring [] true) sampleRelay
      (sampleRelay.walk fun _ => true)).result.Replaces (setter "setFlow") := by
  rw [Assignment.Replaces, renames_sampleRelay]
  decide

/-- No error of the relay names it. -/
private theorem not_reports_sampleRelay :
    ¬(({} : Renamer).seeAll (.ignoring [] true) sampleRelay
      (sampleRelay.walk fun _ => true)).result.Reports (.ignoring [] true) (setter "setFlow") := by
  rw [Assignment.Reports, errors_sampleRelay]
  exact List.not_mem_nil

private theorem replaces_property_sampleRelay {p : Text}
    (h : IsPropertyName (usesIn (.ignoring [] true) sampleRelay fun _ => true) p) :
    (({} : Renamer).seeAll (.ignoring [] true) sampleRelay
      (sampleRelay.walk fun _ => true)).result.Replaces p := by
  obtain ⟨x, hx, hname, hproperty⟩ := h
  rw [Assignment.Replaces, renames_sampleRelay]
  have hall : ∀ x ∈ usesIn (.ignoring [] true) sampleRelay fun _ => true, x.isProperty = true →
      ∃ r ∈ ([⟨"Relay", "Um4jqa2af8", .className⟩, ⟨"flow", "dm37fjvnxu", .property⟩,
        ⟨"setFlow", "setDm37fjvnxu", .selector⟩] : List Rename), x.name? = some r.old := by
    decide +kernel
  obtain ⟨r, hr, hold⟩ := hall x hx hproperty
  exact ⟨r, hr, Option.some_inj.1 (hold.symm.trans hname)⟩

/-- The setter of a property that follows another one is lost. It may be replaced, but it is not,
which nobody reports; it is no property, and all properties are replaced. -/
theorem setter_of_follower_lost :
    let rules := Rules.ignoring [] true
    let uses := usesIn rules sampleRelay fun _ => true
    let result := (({} : Renamer).seeAll rules sampleRelay
      (sampleRelay.walk fun _ => true)).result
    MayReplace rules sampleRelay uses (setter "setFlow") ∧
      ¬result.Replaces (setter "setFlow") ∧ ¬result.Reports rules (setter "setFlow") ∧
      ¬IsPropertyName uses (setter "setFlow") ∧ ∀ p, IsPropertyName uses p → result.Replaces p :=
  ⟨mayReplace_sampleRelay, not_replaces_sampleRelay, not_reports_sampleRelay,
    not_isPropertyName_sampleRelay, fun _ => replaces_property_sampleRelay⟩

/-- What is left is that the property which it follows is replaced as the setter of another one. -/
theorem replaced_or_accounted_for_sampleRelay :
    ∃ p q, Follows (.ignoring [] true) sampleRelay
        (usesIn (.ignoring [] true) sampleRelay fun _ => true) (setter "setFlow") p ∧
      Follows (.ignoring [] true) sampleRelay
        (usesIn (.ignoring [] true) sampleRelay fun _ => true) p q := by
  obtain ⟨haccounted, -⟩ := replaced_or_accounted_for (.ignoring [] true) sampleRelay
    (fun _ => true) {} (setter "setFlow") (by decide) mayReplace_sampleRelay
  rcases haccounted with h | h | h | ⟨p, hfollows, hkept⟩ | ⟨p, q, hfollows, hq, -⟩
  · exact absurd h not_replaces_sampleRelay
  · exact absurd h not_reports_sampleRelay
  · exact absurd h.isPropertyName not_isPropertyName_sampleRelay
  · exact absurd (replaces_property_sampleRelay hfollows.isPropertyName) hkept
  · exact ⟨p, q, hfollows, hq⟩

end ObjcLens.Renaming
