import Mathlib
import ObjcLens.Proofs.Model.WalkOrder
import ObjcLens.Proofs.Renaming.Free

/-!
# The order of entities and of names

A renamer goes over its table of names once, when it gives out replacements. `seeIn` lets the
entries come in any order there. The names that may be replaced are sorted before anything depends
on them, and all else asks the table for one name at a time, so the order leaves no trace.

Neither does the order in which a model lists its entities, as long as no two of them share a name.

## Main results

* `assign_eq_of_perm`: the order of a table does not matter.
* `seeAllIn_eq_seeAll`: a renamer may go over its table in any order.
* `renamingOf_eq_of_sameEntities`: two models with the same entities are renamed alike.
-/

namespace ObjcLens

namespace Renaming

variable {rules : Rules} {t t' : UsageTable}

section Ledger

/-- Two ledgers differ at most in the order of the names that must not be used. -/
structure Ledger.Alike (l l' : Ledger) : Prop where
  mem_reserved_iff : ∀ name, name ∈ l.reserved ↔ name ∈ l'.reserved
  renames : l.renames = l'.renames
  failures : l.failures = l'.failures
  log : l.log = l'.log
  isInDoubt : l.isInDoubt = l'.isInDoubt

namespace Ledger.Alike

variable {l l' : Ledger}

/-- Alike ledgers have reserved the same names. -/
theorem contains_eq (h : l.Alike l') (name : Text) :
    l.reserved.contains name = l'.reserved.contains name := by
  rw [Bool.eq_iff_iff, List.contains_iff_mem, List.contains_iff_mem, h.mem_reserved_iff]

theorem isFree_eq (h : l.Alike l') : l.isFree rules = l'.isFree rules := by
  ext1 name
  rw [Ledger.isFree, Ledger.isFree, h.contains_eq]

theorem isDoubtful_eq (h : l.Alike l') (names : List Text) :
    l.isDoubtful rules names = l'.isDoubtful rules names := by
  induction names with
  | nil => rfl
  | cons name rest ih => rw [Ledger.isDoubtful, Ledger.isDoubtful, h.contains_eq, ih]

/-- Committing one rename keeps ledgers alike. -/
theorem commit (h : l.Alike l') (r : Rename) : (l.commit r).Alike (l'.commit r) where
  mem_reserved_iff name := by
    simp only [Ledger.commit, List.mem_cons, h.mem_reserved_iff]
  renames := by rw [Ledger.commit, Ledger.commit, h.renames]
  failures := h.failures
  log := by rw [Ledger.commit, Ledger.commit, h.log]
  isInDoubt := h.isInDoubt

theorem foldl_commit (h : l.Alike l') (renames : List Rename) :
    (renames.foldl Ledger.commit l).Alike (renames.foldl Ledger.commit l') := by
  induction renames generalizing l l' with
  | nil => exact h
  | cons r rest ih => exact ih (h.commit r)

theorem isAttemptDoubtful_eq (h : l.Alike l') (name : Text) (u : Usage) (left attempt : Nat) :
    isAttemptDoubtful rules name u l left attempt =
      isAttemptDoubtful rules name u l' left attempt := by
  induction left generalizing attempt with
  | zero => rfl
  | succ left ih =>
    rw [isAttemptDoubtful, isAttemptDoubtful, h.isDoubtful_eq, h.isFree_eq, ih]

theorem isPaddingDoubtful_eq (h : l.Alike l') (left index : Nat) (names : List Text) :
    isPaddingDoubtful rules l left index names = isPaddingDoubtful rules l' left index names := by
  induction left generalizing index names with
  | zero => rfl
  | succ left ih =>
    simp only [isPaddingDoubtful, h.renames, h.isDoubtful_eq, h.isFree_eq, ih]

/-- The search for a padding name takes the same course over alike ledgers. -/
theorem pad_eq (h : l.Alike l') (left index : Nat) (names : List Text) :
    pad rules l left index names = pad rules l' left index names := by
  induction left generalizing index names with
  | zero => rfl
  | succ left ih => simp only [pad, h.renames, h.isFree_eq, ih]

end Ledger.Alike

end Ledger

/-- Tables that tell the same of every name. -/
def UsageTable.SameUses (t t' : UsageTable) : Prop := ∀ name, t.get? name = t'.get? name

section SameUses

variable (h : t.SameUses t')
include h

theorem knows_eq (name : Text) : t.knows name = t'.knows name := by
  rw [UsageTable.knows, UsageTable.knows, h name]

theorem isProperty_eq : isProperty t = isProperty t' := by
  ext1 name
  rw [isProperty, isProperty, h name]

theorem isHeldBack_eq : isHeldBack t = isHeldBack t' := by
  have hfollow : canFollow t = canFollow t' := by
    ext1 name
    rw [canFollow, canFollow, UsageTable.isFree, UsageTable.isFree, knows_eq h, h name]
  ext1 name
  rw [isHeldBack, isHeldBack, isProperty_eq h, hfollow]

/-- A name drags the same accessors along in both tables. -/
theorem renamesOf_eq (name : Text) (u : Usage) (new : Text) :
    renamesOf t name u new = renamesOf t' name u new := by
  simp only [renamesOf, knows_eq h]

/-- Attempts to find a name end alike. -/
theorem tryNames_alike {l l' : Ledger} (hl : l.Alike l') (name : Text) (u : Usage)
    (left attempt : Nat) :
    Option.Rel Ledger.Alike (tryNames rules t name u l left attempt)
      (tryNames rules t' name u l' left attempt) := by
  induction left generalizing attempt with
  | zero => exact .none
  | succ left ih =>
    simp only [tryNames, hl.isFree_eq, renamesOf_eq h]
    split
    · exact .some (hl.foldl_commit _)
    · exact ih (attempt + 1)

/-- Assigning a name keeps ledgers alike. -/
theorem assignOne_alike {l l' : Ledger} (hl : l.Alike l') (name : Text) :
    (assignOne rules t l name).Alike (assignOne rules t' l' name) := by
  unfold assignOne
  rw [← h name]
  cases t.get? name with
  | none => exact hl
  | some u =>
    dsimp only
    have hbefore : Ledger.Alike
        { l with isInDoubt := l.isInDoubt || isAttemptDoubtful rules name u l rules.maxAttempts 0 }
        { l' with
          isInDoubt := l'.isInDoubt || isAttemptDoubtful rules name u l' rules.maxAttempts 0 } :=
      ⟨hl.mem_reserved_iff, hl.renames, hl.failures, hl.log, by
        rw [hl.isInDoubt, hl.isAttemptDoubtful_eq]⟩
    have htry : Option.Rel Ledger.Alike (tryNames rules t name u _ rules.maxAttempts 0)
        (tryNames rules t' name u _ rules.maxAttempts 0) :=
      tryNames_alike h hbefore name u rules.maxAttempts 0
    generalize tryNames rules t name u _ rules.maxAttempts 0 = found at htry ⊢
    generalize tryNames rules t' name u _ rules.maxAttempts 0 = found' at htry ⊢
    cases htry with
    | none =>
      exact ⟨hl.mem_reserved_iff, hl.renames, by rw [hl.failures], by rw [hl.log],
        hbefore.isInDoubt⟩
    | some hfound => exact hfound

/-- Assigning names in one order keeps ledgers alike. -/
theorem foldl_assignOne_alike {l l' : Ledger} (hl : l.Alike l') (names : List Text) :
    (names.foldl (assignOne rules t) l).Alike (names.foldl (assignOne rules t') l') := by
  induction names generalizing l l' with
  | nil => exact hl
  | cons name rest ih => exact ih (assignOne_alike h hl name)

end SameUses

/-- Tables that list the same entries in any order have the same uses. -/
theorem sameUses_of_perm (h : t.Perm t') (hnodup : t.names.Nodup) : t.SameUses t' := by
  intro name
  have hnodup' : t'.names.Nodup := (h.map _).nodup_iff.1 hnodup
  ext u
  rw [UsageTable.get?_eq_some_iff hnodup, UsageTable.get?_eq_some_iff hnodup', h.mem_iff]

/-- The names that may be replaced are sorted, so they come in one order only. -/
theorem freeNames_eq_of_perm (h : t.Perm t') : freeNames t = freeNames t' :=
  mergeSort_eq_of_perm Text.isOrder_le ((h.filter _).map _) fun _ _ _ _ heq => heq

/-- The leaders are sorted, so the order of the table leaves no trace in them. -/
theorem leaders_eq_of_perm (h : t.Perm t') (hnodup : t.names.Nodup) : leaders t = leaders t' := by
  have huses := sameUses_of_perm h hnodup
  have hfollowers : followers t (freeNames t) = followers t' (freeNames t') := by
    rw [followers, followers, isProperty_eq huses, isHeldBack_eq huses, freeNames_eq_of_perm h]
  rw [leaders, leaders, hfollowers, isHeldBack_eq huses, freeNames_eq_of_perm h]

/-- The order of a table does not matter for the replacements. -/
theorem assign_eq_of_perm (h : t.Perm t') (hnodup : t.names.Nodup) :
    assign rules t = assign rules t' := by
  have hstart : Ledger.Alike { reserved := t.map (·.1) ++ rules.ignoredNames }
      { reserved := t'.map (·.1) ++ rules.ignoredNames } := by
    refine ⟨fun name => ?_, rfl, rfl, rfl, rfl⟩
    exact ((h.map _).append_right _).mem_iff
  have hend : Ledger.Alike ((leaders t).foldl (assignOne rules t) _)
      ((leaders t).foldl (assignOne rules t') _) :=
    foldl_assignOne_alike (sameUses_of_perm h hnodup) hstart (leaders t)
  simp only [assign, ← leaders_eq_of_perm h hnodup, hend.renames, hend.failures, hend.log,
    hend.isInDoubt, hend.pad_eq, hend.isPaddingDoubtful_eq]

section Nodup

variable {model : Model}

theorem nodup_use (h : t.names.Nodup) (name : Text) (kind : SymbolKind) (eligible : Bool) :
    (use rules name kind eligible t).names.Nodup := by
  unfold use
  split
  · exact h
  · exact UsageTable.nodup_names_update h _ _ _

theorem nodup_referIn (h : t.names.Nodup) (ref : Reference) :
    (referIn rules model t ref).names.Nodup := by
  have hrefer (name : Text) (kind : SymbolKind) (inModel : Bool) :
      (refer rules name kind inModel t).names.Nodup := by
    unfold refer
    split
    · exact h
    · split
      · exact nodup_use h _ _ _
      · exact UsageTable.nodup_names_update h _ _ _
  cases ref with
  | ofTag name =>
    rw [referIn]
    split
    · exact h
    · exact hrefer _ _ _
  | ofClass name | ofProtocol name | ofMember name => exact hrefer _ _ _

theorem nodup_referAll (h : t.names.Nodup) (refs : List Reference) :
    (referAll rules model refs t).names.Nodup := by
  induction refs generalizing t with
  | nil => exact h
  | cons ref rest ih => exact ih (nodup_referIn h ref)

theorem nodup_useSelector (h : t.names.Nodup) (name : Text) (eligible : Bool) :
    (useSelector rules name eligible t).names.Nodup := by
  unfold useSelector
  induction selectorPieces name generalizing t with
  | nil => exact h
  | cons piece rest ih => exact ih (nodup_use h _ _ _)

theorem nodup_useProperty (h : t.names.Nodup) (eligible : Bool) (p : Property) :
    (useProperty rules model eligible p t).names.Nodup := by
  have hmark {t : UsageTable} (h : t.names.Nodup) (change : Usage → Usage) :
      (if t.knows p.name then t.update p.name { kind := .property } change
        else t).names.Nodup := by
    split
    · exact UsageTable.nodup_names_update h _ _ _
    · exact h
  have haccessor {t : UsageTable} (h : t.names.Nodup) (name : Text) :
      (if name.isEmpty then t else useSelector rules name eligible t).names.Nodup := by
    split
    · exact h
    · exact nodup_useSelector h _ _
  have hbacking {t : UsageTable} (h : t.names.Nodup) :
      (if rules.renameMembers then t
        else use rules (backingIvar p) .ivar false t).names.Nodup := by
    split
    · exact h
    · exact nodup_use h _ _ _
  unfold useProperty
  exact hbacking (haccessor (haccessor (nodup_referAll (hmark (nodup_use h _ _ _) _) _) _) _)

/-- No event enters a name twice. -/
theorem nodup_see {s : Survey} (h : s.table.names.Nodup) (e : Event) :
    (s.see rules model e).table.names.Nodup := by
  cases e with
  | start => exact List.nodup_nil
  | enterProtocol p => exact nodup_referAll (nodup_use h _ _ _) _
  | enterClass c => exact nodup_referAll (nodup_use h _ _ _) _
  | enterCategory c => exact nodup_referAll (nodup_use h _ _ _) _
  | ivar v => exact nodup_referAll (nodup_use h _ _ _) _
  | method m isOptional => exact nodup_referAll (nodup_useSelector h _ _) _
  | property p ofClass => exact nodup_useProperty h _ _
  | finish | leaveProtocol | leaveClass | leaveCategory => exact h

end Nodup

namespace Renamer

/-- The renamer after one more event, if it goes over its table in some order. -/
def seeIn (order : UsageTable → UsageTable) (rules : Rules) (model : Model) (r : Renamer)
    (e : Event) : Renamer :=
  let survey := r.survey.see rules model e
  let isInDoubt := r.isInDoubt || r.survey.isDoubtful rules e
  match e with
  | .start => ⟨survey, {}, isInDoubt⟩
  | .finish =>
    let result := assign rules (order survey.table)
    ⟨survey, result, isInDoubt || result.isInDoubt⟩
  | _ => { r with survey, isInDoubt }

/-- The renamer after a walk, if it goes over its table in some order. -/
def seeAllIn (order : UsageTable → UsageTable) (rules : Rules) (model : Model) (r : Renamer)
    (events : List Event) : Renamer :=
  events.foldl (seeIn order rules model) r

variable {order : UsageTable → UsageTable} {model : Model}

@[simp]
theorem seeAllIn_id : seeAllIn id rules model = seeAll rules model := rfl

theorem survey_see (r : Renamer) (e : Event) :
    (r.see rules model e).survey = r.survey.see rules model e := by
  cases e <;> rfl

/-- An event is seen alike in any order of the table. -/
theorem seeIn_eq_see (horder : ∀ t, (order t).Perm t) {r : Renamer}
    (h : r.survey.table.names.Nodup) (e : Event) :
    r.seeIn order rules model e = r.see rules model e := by
  cases e with
  | finish =>
    have hassign : assign rules (order r.survey.table) = assign rules r.survey.table :=
      (assign_eq_of_perm (horder _).symm h).symm
    simp only [seeIn, see, Survey.see, hassign]
  | start | enterProtocol | leaveProtocol | enterClass | leaveClass | enterCategory
  | leaveCategory | ivar | method | property => rfl

/-- A renamer may go over its table in any order. -/
theorem seeAllIn_eq_seeAll (horder : ∀ t, (order t).Perm t) {r : Renamer}
    (h : r.survey.table.names.Nodup) (events : List Event) :
    r.seeAllIn order rules model events = r.seeAll rules model events := by
  induction events generalizing r with
  | nil => rw [seeAllIn, seeAll, List.foldl_nil, List.foldl_nil]
  | cons e rest ih =>
    have hnext : (r.see rules model e).survey.table.names.Nodup := by
      rw [survey_see]
      exact nodup_see h e
    have hrest := ih hnext
    rw [seeAllIn, seeAll] at hrest
    rw [seeAllIn, seeAll, List.foldl_cons, List.foldl_cons, seeIn_eq_see horder h, hrest]

end Renamer

end Renaming

/-- Two models list the same entities. -/
structure Model.SameEntities (m m' : Model) : Prop where
  classes : m.classes.Perm m'.classes
  categories : m.categories.Perm m'.categories
  protocols : m.protocols.Perm m'.protocols

/-- No two classes or protocols share a name, and no two categories of a class do. -/
structure Model.HasDistinctNames (m : Model) : Prop where
  classes : (m.classes.map (·.name)).Nodup
  categories : (m.categories.map Category.place).Nodup
  protocols : (m.protocols.map (·.name)).Nodup

namespace Model

variable {m m' : Model}

/-- Models of the same entities have the same classes. -/
theorem hasClass_eq_of_sameEntities (h : m.SameEntities m') : m.hasClass = m'.hasClass := by
  ext1 name
  rw [Bool.eq_iff_iff]
  simp [hasClass, class?, h.classes.mem_iff]

/-- Models of the same entities have the same protocols. -/
theorem hasProtocol_eq_of_sameEntities (h : m.SameEntities m') :
    m.hasProtocol = m'.hasProtocol := by
  ext1 name
  rw [Bool.eq_iff_iff]
  simp [hasProtocol, protocol?, h.protocols.mem_iff]

/-- Sorting forgets the order in which distinct entities are listed. -/
theorem walk_eq_of_sameEntities (h : m.SameEntities m') (hm : m.HasDistinctNames) :
    m.walk = m'.walk := by
  have hprotocols : m.sortedProtocols = m'.sortedProtocols :=
    mergeSort_eq_of_perm Text.isOrder_le h.protocols (List.inj_on_of_nodup_map hm.protocols)
  have hclasses : m.sortedClasses = m'.sortedClasses :=
    mergeSort_eq_of_perm Text.isOrder_le h.classes (List.inj_on_of_nodup_map hm.classes)
  have hcategories : m.sortedCategories = m'.sortedCategories :=
    mergeSort_eq_of_perm isOrder_pairLe h.categories (List.inj_on_of_nodup_map hm.categories)
  ext1 visible
  simp only [walk, hprotocols, hclasses, hcategories, hasClass_eq_of_sameEntities h]

/-- A walk in a scope does not depend on the order in which distinct entities are listed. -/
theorem walkIn_eq_of_sameEntities (h : m.SameEntities m') (hm : m.HasDistinctNames)
    (scope : Scope) : m.walkIn scope = m'.walkIn scope := by
  have hentities : m.entities.Perm m'.entities :=
    ((h.protocols.map _).append (h.classes.map _)).append (h.categories.map _)
  rw [walkIn, walkIn]
  cases Scope.compileAll "force pattern" scope.force with
  | error e => rfl
  | ok force =>
    simp only [bind, Except.bind]
    by_cases hanswers : ∀ e ∈ m.entities, ∃ b, Scope.sees scope.keep force e = some b
    · let visible (e : Entity) : Bool := (Scope.sees scope.keep force e).getD false
      have hvisible : ∀ e ∈ m.entities, Scope.sees scope.keep force e = some (visible e) := by
        intro e he
        obtain ⟨b, hb⟩ := hanswers e he
        simp [visible, hb]
      have hvisible' : ∀ e ∈ m'.entities, Scope.sees scope.keep force e = some (visible e) :=
        fun e he => hvisible e (hentities.mem_iff.2 he)
      have hseen : (fun e => (m.entities.filter visible).contains e) =
          fun e => (m'.entities.filter visible).contains e := by
        ext1 e
        rw [Bool.eq_iff_iff]
        simp [hentities.mem_iff]
      rw [filterM_eq_some hvisible, filterM_eq_some hvisible']
      simp only [hseen, walk_eq_of_sameEntities h hm]
    · -- then some test has no answer, in whatever order the entities are tested
      simp only [not_forall, not_exists] at hanswers
      obtain ⟨e, he, hnone⟩ := hanswers
      have he' := Option.eq_none_iff_forall_ne_some.2 hnone
      rw [filterM_eq_none he he', filterM_eq_none (hentities.mem_iff.1 he) he']

end Model

namespace Renaming

/-- A survey asks a model only for the names of its classes and protocols. -/
theorem see_eq_of_sameEntities (rules : Rules) {m m' : Model} (h : m.SameEntities m') :
    Survey.see rules m = Survey.see rules m' := by
  -- of a model an event looks up only which names it defines
  have hrefer : referIn rules m = referIn rules m' := by
    ext1 t
    ext1 ref
    cases ref with
    | ofClass name => rw [referIn, referIn, Model.hasClass_eq_of_sameEntities h]
    | ofProtocol name => rw [referIn, referIn, Model.hasProtocol_eq_of_sameEntities h]
    | ofTag name | ofMember name => rfl
  have hreferAll : referAll rules m = referAll rules m' := by
    ext1 refs
    ext1 t
    rw [referAll, referAll, hrefer]
  ext1 s
  ext1 e
  cases e with
  | start | finish | leaveProtocol | leaveClass | leaveCategory => rfl
  | property p ofClass => simp only [Survey.see, useProperty, hreferAll]
  | enterProtocol | enterClass | enterCategory | ivar | method => simp only [Survey.see, hreferAll]

/-- What a renamer finds on a walk in a scope, if it goes over its table in some order. -/
def renamingOf (order : UsageTable → UsageTable) (rules : Rules) (scope : Scope) (m : Model) :
    Except Error Assignment := do
  let events ← m.walkIn scope
  (({} : Renamer).seeAllIn order rules m events).outcome

/-- Models with the same distinct entities are renamed alike, in whatever order they list them and
in whatever orders the names are gone over. -/
theorem renamingOf_eq_of_sameEntities (rules : Rules) (scope : Scope) {m m' : Model}
    (h : m.SameEntities m') (hm : m.HasDistinctNames) {order order' : UsageTable → UsageTable}
    (horder : ∀ t, (order t).Perm t) (horder' : ∀ t, (order' t).Perm t) :
    renamingOf order rules scope m = renamingOf order' rules scope m' := by
  have hsee : Renamer.see rules m = Renamer.see rules m' := by
    ext1 r
    ext1 e
    unfold Renamer.see
    rw [see_eq_of_sameEntities rules h]
  have hseeAll : Renamer.seeAll rules m {} = Renamer.seeAll rules m' {} := by
    ext1 events
    rw [Renamer.seeAll, Renamer.seeAll, hsee]
  -- a search that may go over the names in any order finds what the plain one finds
  have hfind (order : UsageTable → UsageTable) (horder : ∀ t, (order t).Perm t) (m : Model) :
      Renamer.seeAllIn order rules m {} = Renamer.seeAll rules m {} := by
    ext1 events
    have hempty : ({} : Renamer).survey.table.names.Nodup := List.nodup_nil
    exact Renamer.seeAllIn_eq_seeAll horder hempty events
  simp only [renamingOf, hfind order horder, hfind order' horder', hseeAll,
    Model.walkIn_eq_of_sameEntities h hm]

/-- The sample model with its lists turned around. -/
def sampleHerbariumReversed : Model where
  classes := Model.sampleHerbarium.classes.reverse
  categories := Model.sampleHerbarium.categories.reverse
  protocols := Model.sampleHerbarium.protocols.reverse

/-- A herbarium and the same herbarium turned round, with the name table read backwards. -/
theorem renamingOf_sampleHerbarium :
    Model.sampleHerbarium.SameEntities sampleHerbariumReversed ∧
      Model.sampleHerbarium.HasDistinctNames ∧
      (∀ t : UsageTable, t.reverse.Perm t) ∧ (∀ t : UsageTable, (id t).Perm t) ∧
      renamingOf List.reverse (.ignoring ["Root"] false) {} Model.sampleHerbarium =
        renamingOf id (.ignoring ["Root"] false) {} sampleHerbariumReversed :=
  have hsame : Model.sampleHerbarium.SameEntities sampleHerbariumReversed :=
    ⟨(List.reverse_perm _).symm, (List.reverse_perm _).symm, (List.reverse_perm _).symm⟩
  have hdistinct : Model.sampleHerbarium.HasDistinctNames :=
    ⟨by decide, by decide, by decide⟩
  ⟨hsame, hdistinct, fun t => t.reverse_perm, fun t => .refl t,
    renamingOf_eq_of_sameEntities _ _ hsame hdistinct (fun t => t.reverse_perm) fun t => .refl t⟩

end Renaming

end ObjcLens
