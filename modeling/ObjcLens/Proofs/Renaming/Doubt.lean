import Mathlib
import ObjcLens.Proofs.Renaming.Free

/-!
# Renaming without a doubt

A test of a name can be left without an answer. If a renamer comes to need one, it is in doubt, and
it stays so. Where the rules answer every test it never is.

## Main results

* `Renamer.isInDoubt_of_outcome_eq_ok`: a result is given without a doubt.
* `Rules.Answers.exists_outcome_eq_ok`: rules that answer every test always lead to a result.
-/

namespace ObjcLens

namespace Renaming

/-- A renaming with an outcome was never in doubt. -/
theorem Renamer.isInDoubt_of_outcome_eq_ok {r : Renamer} {a : Assignment} (h : r.outcome = .ok a) :
    r.isInDoubt = false := by
  rw [← Bool.not_eq_true]
  intro hdoubt
  rw [outcome, if_pos hdoubt] at h
  cases h

/-- Every test of a name or of an entity has an answer. -/
structure Rules.Answers (rules : Rules) : Prop where
  isDoubtful_eq : ∀ name, rules.isDoubtful name = false
  isScopeDoubtful_eq : ∀ names, rules.isScopeDoubtful names = false

/-- A list of names to ignore answers for every name. -/
theorem Rules.answers_ignoring (names : List Text) (renameMembers : Bool) :
    (Rules.ignoring names renameMembers).Answers :=
  ⟨fun _ => rfl, fun _ => rfl⟩

section Answers

variable {rules : Rules} (h : rules.Answers)
include h

/-- Nothing that is seen leaves a doubt. -/
theorem Survey.isDoubtful_eq_false (s : Survey) (e : Event) : s.isDoubtful rules e = false := by
  have hselector (name : Text) : isSelectorDoubtful rules name = false := by
    simp [isSelectorDoubtful, h.isDoubtful_eq]
  cases e <;>
    simp [isDoubtful, isEntityDoubtful, hselector, h.isDoubtful_eq, h.isScopeDoubtful_eq]

theorem Ledger.isDoubtful_eq_false (l : Ledger) (names : List Text) :
    l.isDoubtful rules names = false := by
  induction names with
  | nil => rfl
  | cons name rest ih => simp [isDoubtful, h.isDoubtful_eq, ih]

theorem isAttemptDoubtful_eq_false (name : Text) (u : Usage) (l : Ledger) (left attempt : Nat) :
    isAttemptDoubtful rules name u l left attempt = false := by
  induction left generalizing attempt with
  | zero => rfl
  | succ left ih => simp [isAttemptDoubtful, l.isDoubtful_eq_false h, ih]

theorem isPaddingDoubtful_eq_false (l : Ledger) (left index : Nat) (names : List Text) :
    isPaddingDoubtful rules l left index names = false := by
  induction left generalizing index names with
  | zero => rfl
  | succ left ih => simp [isPaddingDoubtful, l.isDoubtful_eq_false h, ih]

omit h in
theorem isInDoubt_foldl_commit (renames : List Rename) (l : Ledger) :
    (renames.foldl Ledger.commit l).isInDoubt = l.isInDoubt := by
  induction renames generalizing l with
  | nil => rfl
  | cons r rest ih => exact ih (l.commit r)

omit h in
theorem isInDoubt_of_tryNames {t : UsageTable} {name : Text} {u : Usage} {l l' : Ledger}
    {left attempt : Nat} (htry : tryNames rules t name u l left attempt = some l') :
    l'.isInDoubt = l.isInDoubt := by
  induction left generalizing attempt with
  | zero => cases htry
  | succ left ih =>
    rw [tryNames] at htry
    split at htry
    · cases htry
      exact isInDoubt_foldl_commit _ l
    · exact ih htry

/-- A symbol gets a name or keeps its own without a doubt. -/
theorem isInDoubt_assignOne (t : UsageTable) (l : Ledger) (name : Text) :
    (assignOne rules t l name).isInDoubt = l.isInDoubt := by
  rw [assignOne]
  cases t.get? name with
  | none => rfl
  | some u =>
    simp only [isAttemptDoubtful_eq_false h, Bool.or_false]
    split
    · rename_i htry
      exact isInDoubt_of_tryNames htry
    · rfl

/-- Rules that always answer leave no doubt. -/
theorem isInDoubt_assign (t : UsageTable) : (assign rules t).isInDoubt = false := by
  have hleaders (names : List Text) (l : Ledger) :
      (names.foldl (assignOne rules t) l).isInDoubt = l.isInDoubt := by
    induction names generalizing l with
    | nil => rfl
    | cons name rest ih => rw [List.foldl_cons, ih, isInDoubt_assignOne h]
  rw [assign, isPaddingDoubtful_eq_false h, hleaders]
  rfl

/-- Where every test has an answer, a renamer gives a result after every walk. -/
theorem Rules.Answers.exists_outcome_eq_ok (m : Model) (events : List Event) (r : Renamer)
    (hr : r.isInDoubt = false) : ∃ a, (r.seeAll rules m events).outcome = .ok a := by
  have hsee (r : Renamer) (e : Event) : (r.see rules m e).isInDoubt = r.isInDoubt := by
    cases e <;> simp [Renamer.see, Survey.isDoubtful_eq_false h, isInDoubt_assign h]
  have hall : (r.seeAll rules m events).isInDoubt = false := by
    induction events generalizing r with
    | nil => exact hr
    | cons e rest ih => exact ih _ ((hsee r e).trans hr)
  exact ⟨_, if_neg (by rw [hall]; decide)⟩

end Answers

end Renaming

end ObjcLens
