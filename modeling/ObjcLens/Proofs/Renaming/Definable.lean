import Mathlib
import ObjcLens.Proofs.Renaming.Accessor
import ObjcLens.Proofs.Text.Cut

/-!
# Definitions that a compiler accepts

Every replacement and every name of the padding becomes a line that defines one name as another.
A compiler accepts the line if both names are identifiers and the name that is defined is no word
of the language.

What is generated is always fit for that. The old names are those of the model, and only the names
of properties and the pieces of selectors are tested before they are replaced. So a definition can
go wrong in two ways: an entity or an instance variable is not named by an identifier, or the
old name is a word of the language.

## Main results

* `Text.lines_flatMap`: the lines that a text is made of.
* `Chosen.isIdentifier_new`, `isIdentifier_padding`: generated names are identifiers.
* `defines_valid_iff`: when all lines are valid definitions.
* `defines_words_and_non_identifiers`: a model for which they are not.
-/

namespace ObjcLens

/-- The lines of a text, each of which ends with a line feed. -/
def Text.lines (s : Text) : List Text := (Text.splitOn (byte '\n') s).dropLast

/-- Texts without line feeds are the lines of what is written with a line feed behind each. -/
theorem Text.lines_flatMap {ls : List Text} (h : ∀ l ∈ ls, byte '\n' ∉ l) :
    Text.lines (ls.flatMap (· ++ [byte '\n'])) = ls := by
  have hsplit : Text.splitOn (byte '\n') (ls.flatMap (· ++ [byte '\n'])) = ls ++ [[]] := by
    induction ls with
    | nil => rfl
    | cons l rest ih =>
      rw [List.forall_mem_cons] at h
      rw [List.flatMap_cons, List.append_assoc, List.singleton_append, splitOn_append h.1, ih h.2,
        List.cons_append]
  rw [Text.lines, hsplit, List.dropLast_concat]

namespace Renaming

/-- A compiler accepts that the first name is defined as the second: both are identifiers, and the
first is no word of the language. -/
structure IsDefinable (old new : Text) : Prop where
  old_isIdentifier : isIdentifier old = true
  old_not_keyword : old ∉ keywords
  new_isIdentifier : isIdentifier new = true

/-- The line that defines one name as another, without its line feed. -/
def definitionLine (old new : Text) : Text := "#define " ++ old ++ " " ++ new

/-- The pairs of names that are defined: those of the replacements, then those of the padding. -/
def Assignment.definitions (a : Assignment) : List (Text × Text) :=
  a.renames.map (fun r => (r.old, r.new)) ++ a.padding.map fun name => (name, name)

theorem Assignment.defines_eq_flatMap (a : Assignment) :
    a.defines =
      (a.definitions.map fun d => definitionLine d.1 d.2).flatMap (· ++ [byte '\n']) := by
  rw [Assignment.defines, Assignment.definitions, List.map_append, List.map_map, List.map_map,
    List.flatMap_append, List.flatMap_map, List.flatMap_map]
  rfl

/-- An identifier has no line feed and no blank. -/
private theorem notMem_of_isIdentifier {name : Text} (h : isIdentifier name = true) {b : UInt8}
    (hb : (startsIdentifier b || Text.isDigit b) = false) : b ∉ name := by
  intro hmem
  cases name with
  | nil => cases h
  | cons first rest =>
    rw [isIdentifier, Bool.and_eq_true, List.all_eq_true] at h
    rcases List.mem_cons.1 hmem with rfl | hrest
    · simp [h.1] at hb
    · simp [h.2 b hrest] at hb

/-- A definition that a compiler accepts stands on one line. -/
private theorem IsDefinable.lineFeed_notMem {old new : Text} (h : IsDefinable old new) :
    byte '\n' ∉ definitionLine old new := by
  have hold : byte '\n' ∉ old := notMem_of_isIdentifier h.old_isIdentifier (by decide)
  have hnew : byte '\n' ∉ new := notMem_of_isIdentifier h.new_isIdentifier (by decide)
  have hdefine : byte '\n' ∉ Text.ofString "#define " := by decide
  have hblank : byte '\n' ∉ Text.ofString " " := by decide
  simp only [definitionLine, List.mem_append, not_or]
  exact ⟨⟨⟨hdefine, hold⟩, hblank⟩, hnew⟩

/-- What is defined, and as what, can be read off the line. -/
private theorem IsDefinable.cut?_definitionLine {old new : Text} (h : IsDefinable old new) :
    Text.cut? (byte ' ') ((definitionLine old new).drop 8) = some (old, new) := by
  have hdrop : (definitionLine old new).drop 8 = old ++ byte ' ' :: new :=
    List.append_assoc old _ new
  rw [hdrop]
  exact Text.cut?_append (notMem_of_isIdentifier h.old_isIdentifier (by decide)) new

variable {rules : Rules} {t : UsageTable}

/-- The new names of a choice are identifiers, those of its accessors included. -/
theorem Chosen.isIdentifier_new {choices : List Choice} (h : Chosen rules t choices) {r : Rename}
    (hr : r ∈ (assign rules t).renames) : isIdentifier r.new = true := by
  obtain ⟨c, hc, hrc⟩ := h.mem_renames_iff.1 hr
  obtain ⟨attempt, hnew⟩ := h.new_eq c hc
  have hidentifier : isIdentifier c.new = true := hnew ▸ isIdentifier_newName ..
  rcases Choice.eq_name_or_nameOf hrc with ⟨-, hsame⟩ | ⟨-, a, -, hsame⟩
  · rwa [hsame]
  · rw [hsame]
    exact Accessor.isIdentifier_nameOf hidentifier a

/-- Padding collects identifiers. The induction is on the names that may still be tried. -/
private theorem isIdentifier_of_mem_pad (l : Ledger) (left index : Nat) {names : List Text}
    (h : ∀ name ∈ names, isIdentifier name = true) :
    ∀ name ∈ pad rules l left index names, isIdentifier name = true := by
  induction left generalizing index names with
  | zero => exact h
  | succ left ih =>
    simp only [pad]
    split
    · exact h
    split
    · apply ih
      intro name hname
      rcases List.mem_cons.1 hname with rfl | hbefore
      · exact isIdentifier_candidate ..
      · exact h name hbefore
    · exact ih _ h

/-- Padding names are generated, and generated names are identifiers. -/
theorem isIdentifier_padding {name : Text} (h : name ∈ (assign rules t).padding) :
    isIdentifier name = true :=
  isIdentifier_of_mem_pad _ _ _ (by simp) name (List.mem_reverse.1 h)

/-- What a name is defined as is an identifier and no word of the language. -/
private theorem definitions_new {d : Text × Text} (hd : d ∈ (assign rules t).definitions) :
    isIdentifier d.2 = true ∧ d.2 ∉ keywords := by
  obtain ⟨-, hunused⟩ := assign_nodup_unused rules t
  rcases List.mem_append.1 hd with hrename | hpadding
  · obtain ⟨r, hr, rfl⟩ := List.mem_map.1 hrename
    obtain ⟨choices, hchosen⟩ := exists_chosen rules t
    exact ⟨hchosen.isIdentifier_new hr,
      (hunused _ (List.mem_append_left _ (List.mem_map_of_mem hr))).not_keyword⟩
  · obtain ⟨name, hname, rfl⟩ := List.mem_map.1 hpadding
    exact ⟨isIdentifier_padding hname,
      (hunused _ (List.mem_append_right _ hname)).not_keyword⟩

/-- The definitions of a walk are valid if and only if no replaced name is a word of the language,
and those that are used for nothing but entities and instance variables are identifiers; the others
are identifiers anyway, and so are all generated names. If the definitions are valid, they are the
lines of the block, each of which defines an identifier that is no word of the language as an
identifier. -/
theorem defines_valid_iff (rules : Rules) (model : Model) (visible : Entity → Bool)
    (renamer : Renamer) :
    let uses := usesIn rules model visible
    let result := (renamer.seeAll rules model (model.walk visible)).result
    (∀ d ∈ result.definitions, isIdentifier d.2 = true ∧ d.2 ∉ keywords) ∧
      ((∀ d ∈ result.definitions, IsDefinable d.1 d.2) ↔ ∀ r ∈ result.renames,
        r.old ∉ keywords ∧ (¬IsMemberName uses r.old → isIdentifier r.old = true)) ∧
      ((∀ d ∈ result.definitions, IsDefinable d.1 d.2) →
        Text.lines result.defines = result.definitions.map (fun d => definitionLine d.1 d.2) ∧
        ∀ line ∈ Text.lines result.defines, ∃ old new,
          line = "#define " ++ old ++ " " ++ new ∧ IsDefinable old new) := by
  intro uses result
  obtain ⟨t, hresult, htells⟩ := seeAll_tells rules model visible renamer
  have hnew : ∀ d ∈ result.definitions, isIdentifier d.2 = true ∧ d.2 ∉ keywords := by
    intro d hd
    rw [show result = assign rules t from hresult] at hd
    exact definitions_new hd
  refine ⟨hnew, ⟨fun hvalid r hr => ?_, fun hold d hd => ?_⟩, fun hvalid => ?_⟩
  · -- the line of a replacement is valid
    have hr := hvalid (r.old, r.new) (List.mem_append_left _ (List.mem_map_of_mem hr))
    exact ⟨hr.old_not_keyword, fun _ => hr.old_isIdentifier⟩
  · obtain ⟨hidentifier, hkeyword⟩ := hnew d hd
    rcases List.mem_append.1 hd with hrename | hpadding
    · obtain ⟨r, hr, rfl⟩ := List.mem_map.1 hrename
      refine ⟨?_, (hold r hr).1, hidentifier⟩
      by_cases hmember : IsMemberName uses r.old
      · -- the name of a property and a piece of a selector are replaced only if they are fit
        rw [show result = assign rules t from hresult] at hr
        exact isIdentifier_of_isMemberName hmember
          (htells.isFree_iff.1 (isFree_of_mem_renames htells.nodup hr)).2
      · exact (hold r hr).2 hmember
    · -- padding defines a generated name as itself
      obtain ⟨name, -, rfl⟩ := List.mem_map.1 hpadding
      exact ⟨hidentifier, hkeyword, hidentifier⟩
  · -- no line is broken by a line feed in a name
    have hlines : Text.lines result.defines =
        result.definitions.map fun d => definitionLine d.1 d.2 := by
      rw [Assignment.defines_eq_flatMap]
      apply Text.lines_flatMap
      intro line hline
      obtain ⟨d, hd, rfl⟩ := List.mem_map.1 hline
      exact (hvalid d hd).lineFeed_notMem
    refine ⟨hlines, fun line hline => ?_⟩
    rw [hlines] at hline
    obtain ⟨d, hd, rfl⟩ := List.mem_map.1 hline
    exact ⟨d.1, d.2, rfl, hvalid d hd⟩

/-- A class whose name is no identifier, with a method whose selector is a word of the language. -/
def sampleMenu : Model where
  classes :=
    [{  name := "Bar.Menu"
        instanceMethods := [⟨"default", "v16@0:8", none, false, 0⟩] }]

/-- A class with a dot in its name and a keyword for a method are both defined. -/
private theorem definitions_sampleMenu :
    (({} : Renamer).seeAll (.ignoring [] true) sampleMenu
        (sampleMenu.walk fun _ => true)).result.definitions =
      [(Text.ofString "Bar.Menu", Text.ofString "Fwt5u4qifb"),
        (Text.ofString "default", Text.ofString "zbz2jd3gm9")] := by
  let rules := Rules.ignoring [] true
  let inner := sampleMenu.classes.flatMap Model.visitClass
  have hwalk : sampleMenu.walk (fun _ => true) = .start :: (inner ++ [.finish]) := by cbv
  have hfree : freeNames (tableOf rules sampleMenu inner) =
      ["Bar.Menu", "default"].map Text.ofString :=
    freeNames_eq_sort (["default", "Bar.Menu"].map Text.ofString) (by decide +kernel) (by cbv)
  have hrenames := renames_seeAll_eq_sort
    [⟨"Bar.Menu", "Fwt5u4qifb", .className⟩, ⟨"default", "zbz2jd3gm9", .selector⟩]
    hwalk hfree (by decide +kernel)
  have hpadding : (({} : Renamer).seeAll rules sampleMenu
      (sampleMenu.walk fun _ => true)).result.padding = [] := by
    have hlimit : paddingLimit rules = 0 := by decide
    rw [hwalk, seeAll_eq_assign]
    simp only [assign, hlimit]
    rfl
  rw [Assignment.definitions, hrenames, hpadding]
  cbv

/-- Neither of the two lines is a valid definition: one defines what is no identifier, the other
defines a word of the language. -/
theorem defines_words_and_non_identifiers :
    let result := (({} : Renamer).seeAll (.ignoring [] true) sampleMenu
      (sampleMenu.walk fun _ => true)).result
    Text.lines result.defines =
        [definitionLine "Bar.Menu" "Fwt5u4qifb", definitionLine "default" "zbz2jd3gm9"] ∧
      ∀ line ∈ Text.lines result.defines, ¬∃ old new,
        line = "#define " ++ old ++ " " ++ new ∧ IsDefinable old new := by
  intro result
  have hlines : Text.lines result.defines =
      [definitionLine "Bar.Menu" "Fwt5u4qifb", definitionLine "default" "zbz2jd3gm9"] := by
    rw [Assignment.defines_eq_flatMap, definitions_sampleMenu]
    apply Text.lines_flatMap
    decide
  refine ⟨hlines, ?_⟩
  rintro line hline ⟨old, new, rfl, hvalid⟩
  have hcut := hvalid.cut?_definitionLine
  -- the line could be of another form, so what is defined is read off the line
  have hnone : ∀ line ∈ [definitionLine "Bar.Menu" "Fwt5u4qifb",
      definitionLine "default" "zbz2jd3gm9"], ∀ d,
        Text.cut? (byte ' ') (line.drop 8) = some d →
          isIdentifier d.1 = false ∨ d.1 ∈ keywords := by
    decide
  rw [hlines] at hline
  rcases hnone _ hline (old, new) hcut with hidentifier | hkeyword
  · rw [hvalid.old_isIdentifier] at hidentifier
    cases hidentifier
  · exact hvalid.old_not_keyword hkeyword

end Renaming

end ObjcLens
