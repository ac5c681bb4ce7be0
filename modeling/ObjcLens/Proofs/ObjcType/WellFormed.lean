import Mathlib
import ObjcLens.Proofs.ObjcType.Canonical

/-!
# Well-formed types

Whether a tree is read back from its encoding has two sides. Every node must be one that the reader
can make: its letters, names and numbers are written so that they are read again. And no two
neighbours may be mistaken for something else. The first holds of all that is decoded, the second
does not: an empty name, an empty class and a width of zero are not written, so that neighbours meet
which were apart in the text that was decoded.

* `everywhere`: a condition on all nodes of a tree.
* `fitsSyntax`, `isWellFormed`: nodes that the reader can make.
* `keepsApart`, `isUnambiguous`: no two neighbours are mistaken for something else.
* `isWellFormed_of_isCanonical`, `isUnambiguous_of_isCanonical`: canonical types are both.
-/

namespace ObjcLens

namespace ObjcType

section Everywhere

variable (p : ObjcType → Bool)

mutual

/-- The condition holds of all nodes of a tree. -/
def everywhere : ObjcType → Bool
  | .pointer quals elem => p (.pointer quals elem) && everywhere elem
  | .array quals length elem => p (.array quals length elem) && everywhere elem
  | .aggregate quals kind name members =>
    p (.aggregate quals kind name members) && everywhereMembers members
  | .signature quals result params =>
    p (.signature quals result params) && everywhere result && everywhereAll params
  | t => p t

/-- The condition holds of all nodes of the types of members. -/
def everywhereMembers : List (Member ObjcType) → Bool
  | [] => true
  | ⟨_, type, _⟩ :: rest => everywhere type && everywhereMembers rest

/-- The condition holds of all nodes of several types. -/
def everywhereAll : List ObjcType → Bool
  | [] => true
  | type :: rest => everywhere type && everywhereAll rest

end

variable {p}

private theorem everywhereMembers_iff (members : List (Member ObjcType)) :
    everywhereMembers p members = true ↔ ∀ m ∈ members, everywhere p m.type = true := by
  induction members with
  | nil => simp [everywhereMembers]
  | cons m rest ih => rw [everywhereMembers, Bool.and_eq_true, ih, List.forall_mem_cons]

private theorem everywhereAll_iff (types : List ObjcType) :
    everywhereAll p types = true ↔ ∀ t ∈ types, everywhere p t = true := by
  induction types with
  | nil => simp [everywhereAll]
  | cons t rest ih => rw [everywhereAll, Bool.and_eq_true, ih, List.forall_mem_cons]

/-- The nodes of a tree are its root and those of its parts. -/
theorem everywhere_iff (t : ObjcType) :
    everywhere p t = true ↔ p t = true ∧ ∀ u ∈ t.parts, everywhere p u = true := by
  cases t with
  | aggregate quals kind name members =>
    rw [everywhere, Bool.and_eq_true, everywhereMembers_iff]
    simp [parts]
  | signature quals result params =>
    rw [everywhere, Bool.and_eq_true, Bool.and_eq_true, everywhereAll_iff, and_assoc, parts,
      List.forall_mem_cons]
  | pointer quals elem | array quals length elem => simp [everywhere, parts]
  | _ => simp [everywhere, parts]

/-- A weaker condition holds of all nodes too. -/
theorem everywhere_imp {q : ObjcType → Bool} (hpq : ∀ t, p t = true → q t = true) {t : ObjcType}
    (h : everywhere p t = true) : everywhere q t = true := by
  induction t using induction_parts with
  | node t ih =>
    obtain ⟨hroot, hparts⟩ := (everywhere_iff t).1 h
    refine (everywhere_iff t).2 ⟨hpq t hroot, ?_⟩
    intro u hu
    exact ih u hu (hparts u hu)

end Everywhere

/-- The first member has a name. -/
def startsNamed (members : List (Member ObjcType)) : Bool :=
  members.head?.any fun m => !m.name.isEmpty

/-- The name and the width of a member are written so that they are read again. Where the first
member has a name, an object with a class or protocols has no width. -/
def memberFits (named : Bool) (m : Member ObjcType) : Bool :=
  isQuoteFree m.name && m.width < 2 ^ 63 && (!named || !m.type.isQualifiedObject || m.width = 0)

/-- The node is one that the reader can make. -/
def fitsSyntax : ObjcType → Bool
  | .unknown _ => false
  | .primitive quals code => quals.all isQualifier && (primitiveName? code).isSome
  | .pointer quals elem => quals.all isQualifier && !elem.isBareQuestion
  | .array quals length _ => quals.all isQualifier && length < 2 ^ 63
  | .tag quals kind name => quals.all isQualifier && isTagName kind.closer 0 name
  | .aggregate quals kind name members =>
    quals.all isQualifier && isTagName kind.closer 0 name &&
      members.all (memberFits (startsNamed members))
  | .bitfield quals bits => quals.all isQualifier && bits < 2 ^ 63
  | .function quals | .block quals | .selector quals | .classObject quals
  | .signature quals _ _ => quals.all isQualifier
  | .object quals name protocols =>
    quals.all isQualifier && isClassName name && protocols.all isProtocolName

/-- Two members in a row that are not told apart. No width is between them, and the first one is
read together with what follows: an object makes a block of a question mark, and takes the name of
the next member for its class; only where members are named does it leave the name alone. There,
however, it takes its own class for the name of a member without one. -/
def mixes (named : Bool) (a b : Member ObjcType) : Bool :=
  a.width = 0 &&
    if b.name.isEmpty then
      clashes a.type b.type || (named && a.type.isQualifiedObject)
    else a.type.endsInBareObject && !(named && !a.type.isChainToBareObject)

/-- No two neighbours among the parts of a node are mistaken for something else. -/
def keepsApart : ObjcType → Bool
  | .aggregate _ _ _ members => hasNoClash (mixes (startsNamed members)) members
  | .signature _ result params => hasNoClash clashes (result :: params)
  | _ => true

/-- The tree is one that the reader can make. -/
def isWellFormed (t : ObjcType) : Bool := everywhere fitsSyntax t

/-- No part of the tree is mistaken for another when its encoding is read. -/
def isUnambiguous (t : ObjcType) : Bool := everywhere keepsApart t

/-- A type is well formed when it fits the syntax and its parts are well formed. -/
theorem isWellFormed_iff (t : ObjcType) :
    t.isWellFormed = true ↔ t.fitsSyntax = true ∧ ∀ u ∈ t.parts, u.isWellFormed = true :=
  everywhere_iff t

/-- A type is unambiguous when it keeps its own fields apart and its parts are unambiguous. -/
theorem isUnambiguous_iff (t : ObjcType) :
    t.isUnambiguous = true ↔ t.keepsApart = true ∧ ∀ u ∈ t.parts, u.isUnambiguous = true :=
  everywhere_iff t

section Canonical

/-- The parts of a canonical type are canonical. -/
private theorem isCanonical_of_mem_parts {t : ObjcType} (h : t.isCanonical = true) :
    ∀ u ∈ t.parts, u.isCanonical = true := by
  have hmembers (members : List (Member ObjcType)) (h : areCanonicalMembers members = true) :
      ∀ m ∈ members, m.type.isCanonical = true := by
    induction members with
    | nil => simp
    | cons m rest ih =>
      rw [areCanonicalMembers, Bool.and_eq_true] at h
      exact List.forall_mem_cons.2 ⟨h.1, ih h.2⟩
  have hall (types : List ObjcType) (h : areCanonical types = true) :
      ∀ t ∈ types, t.isCanonical = true := by
    induction types with
    | nil => simp
    | cons t rest ih =>
      rw [areCanonical, Bool.and_eq_true] at h
      exact List.forall_mem_cons.2 ⟨h.1, ih h.2⟩
  cases t with
  | pointer quals elem | array quals length elem =>
    simp only [isCanonical, Bool.and_eq_true] at h
    simpa [parts] using h.2
  | aggregate quals kind name members =>
    simp only [isCanonical, Bool.and_eq_true] at h
    simpa [parts] using hmembers members h.2
  | signature quals result params =>
    simp only [isCanonical, Bool.and_eq_true] at h
    exact List.forall_mem_cons.2 ⟨h.1.2, hall params h.2⟩
  | _ => simp [parts]

/-- What holds of the root of every canonical type holds of all its nodes. -/
private theorem everywhere_of_isCanonical {p : ObjcType → Bool}
    (hp : ∀ t, t.isCanonical = true → p t = true) (t : ObjcType) (h : t.isCanonical = true) :
    everywhere p t = true := by
  induction t using induction_parts with
  | node t ih =>
    refine (everywhere_iff t).2 ⟨hp t h, ?_⟩
    intro u hu
    exact ih u hu (isCanonical_of_mem_parts h u hu)

/-- A weaker notion of a clash is met by the same items. -/
private theorem hasNoClash_imp {α : Type} {clash clash' : α → α → Bool} {items : List α}
    (h : ∀ a b later, a :: b :: later <:+ items → clash a b = false → clash' a b = false)
    (hno : hasNoClash clash items = true) : hasNoClash clash' items = true := by
  induction items with
  | nil => rfl
  | cons a items ih =>
    cases items with
    | nil => rfl
    | cons b items =>
      rw [hasNoClash, Bool.and_eq_true, Bool.not_eq_true'] at hno ⊢
      exact ⟨h a b items List.suffix_rfl hno.1,
        ih (fun x y later hsuffix => h x y later (hsuffix.trans (List.suffix_cons a _))) hno.2⟩

private theorem startsNamed_eq_false {members : List (Member ObjcType)}
    (h : ∀ m ∈ members, m.name.isEmpty = true) : startsNamed members = false := by
  cases members with
  | nil => rfl
  | cons m rest => simpa [startsNamed] using h m List.mem_cons_self

/-- A canonical type fits the syntax at its root. -/
private theorem fitsSyntax_of_isCanonical (t : ObjcType) (h : t.isCanonical = true) :
    t.fitsSyntax = true := by
  cases t with
  | aggregate quals kind name members =>
    simp only [isCanonical, isMemberList, Bool.and_eq_true] at h
    obtain ⟨⟨⟨hquals, htag⟩, ⟨⟨⟨hnames, hvalid⟩, hqualified⟩, -⟩, -⟩, -⟩ := h
    simp only [fitsSyntax, Bool.and_eq_true]
    refine ⟨⟨hquals, htag⟩, List.all_eq_true.2 fun m hm => ?_⟩
    have hm' := List.all_eq_true.1 hvalid m hm
    have hno := List.all_eq_true.1 hqualified m hm
    rw [memberFits, Bool.and_eq_true]
    refine ⟨hm', ?_⟩
    rw [Bool.or_eq_true, List.all_eq_true, List.all_eq_true] at hnames
    rcases hnames with hnone | hall
    · simp [startsNamed_eq_false hnone]
    · have hnamed : m.name.isEmpty = false := by simpa using hall m hm
      rw [hnamed, Bool.false_or] at hno
      rw [Bool.or_assoc, hno, Bool.or_true]
  | signature quals result params =>
    simp only [isCanonical, Bool.and_eq_true] at h
    exact h.1.1.1
  | pointer quals elem | array quals length elem =>
    simp only [isCanonical, Bool.and_eq_true] at h
    simp only [fitsSyntax, Bool.and_eq_true]
    exact h.1
  | _ => exact h

/-- A canonical type keeps its own fields apart. -/
private theorem keepsApart_of_isCanonical (t : ObjcType) (h : t.isCanonical = true) :
    t.keepsApart = true := by
  cases t with
  | aggregate quals kind name members =>
    simp only [isCanonical, isMemberList, Bool.and_eq_true] at h
    obtain ⟨⟨-, ⟨⟨⟨hnames, -⟩, -⟩, hchain⟩, hclash⟩, -⟩ := h
    refine hasNoClash_imp (fun a b later hsuffix hno => ?_) hclash
    have ha : a ∈ members := hsuffix.subset (by simp)
    have hb : b ∈ members := hsuffix.subset (by simp)
    rw [Bool.or_eq_true, List.all_eq_true, List.all_eq_true] at hnames
    rcases hnames with hnone | hall
    -- without names the members are told apart like the types of a signature
    · simpa [mixes, memberClashes, startsNamed_eq_false hnone, hnone b hb, clashes] using hno
    · -- a pointer to a bare object is the last of the named members
      have hnamed : startsNamed members = true := by
        cases members with
        | nil => cases ha
        | cons n rest => simpa [startsNamed] using hall n List.mem_cons_self
      have hlast : a.type.isChainToBareObject = false := by
        obtain ⟨before, rfl⟩ := hsuffix
        have hfront := List.all_eq_true.1 hchain a (by
          rw [List.dropLast_append_of_ne_nil (List.cons_ne_nil _ _)]
          simp)
        have hname : a.name.isEmpty = false := by simpa using hall a ha
        simpa [hname] using hfront
      have hname : b.name.isEmpty = false := by simpa using hall b hb
      simp [mixes, hname, hnamed, hlast]
  | signature quals result params =>
    simp only [isCanonical, Bool.and_eq_true] at h
    exact h.1.1.2
  | _ => rfl

/-- Canonical types are well-formed. -/
theorem isWellFormed_of_isCanonical {t : ObjcType} (h : t.isCanonical = true) :
    t.isWellFormed = true :=
  everywhere_of_isCanonical fitsSyntax_of_isCanonical t h

/-- Canonical types are unambiguous. -/
theorem isUnambiguous_of_isCanonical {t : ObjcType} (h : t.isCanonical = true) :
    t.isUnambiguous = true :=
  everywhere_of_isCanonical keepsApart_of_isCanonical t h

end Canonical

end ObjcType

end ObjcLens
