import Mathlib
import ObjcLens.Proofs.ObjcType.Behind

/-!
# Types in front of other text

A type is read in front of some text just as it is read in front of other text, if both agree on
what the reader looks ahead for. Inside a type this is so wherever the rest of the type follows:
`IsSettled` says that quoted text behind an object is closed and does not end the text. At the end
of a type the text behind has to be one that may follow it, as told by `Follows`.

The two readers may differ in how deep types may be nested, if the type fits below both, and at
the end of a type in whether it is that of a named member.

## Main results

* `ReadsAlike.readObject`: the class of an object is settled by what is behind its quoted text.
* `ReadsAlike.readUnqualified`: a type, from the types inside it.
* `ObjcType.readsTypes_read`: types are read alike in front of different texts.
* `ObjcType.read_append_of_follows`: a type ends in front of any text that may follow it.
-/

namespace ObjcLens

namespace ObjcType

/-- The text behind a type is more of what the type is a part of. If it starts with quoted text,
there is something behind that. -/
def IsSettled (s : Text) : Prop :=
  s ≠ [] ∧ (s.head? = some (byte '"') →
    ∃ name c rest, s = quoted name ++ c :: rest ∧ byte '"' ∉ name)

theorem IsSettled.of_cons {c : UInt8} (hc : c ≠ byte '"') (s : Text) : IsSettled (c :: s) :=
  ⟨List.cons_ne_nil c s, fun hhead => absurd (Option.some.inj hhead) hc⟩

/-- Quoted text is the class of an object if this text is behind it. -/
def EndsClass (named : Bool) (s : Text) : Prop :=
  named = true → ∀ c ∈ s.head?, closesQuoted c = true

/-- The text behind a type tells the reader where the type ends: it is settled, or it is all in
`after`, which may follow the type. -/
def Settles (after : Text) (named named' : Bool) (t : ObjcType) (rest : Text) : Prop :=
  named = named' ∧ IsSettled rest ∨
    rest = [] ∧ named = false ∧ Follows named' t after ∧ EndsClass named' after

/-- A quoted name is told apart from what follows it by its closing quotation mark. -/
theorem quoted_append_inj {name name' : Text} (hname : byte '"' ∉ name) (hname' : byte '"' ∉ name')
    {rest rest' : Text} (h : quoted name ++ rest = quoted name' ++ rest') :
    name = name' ∧ rest = rest' := by
  have hcut := Text.cut?_append hname rest
  have hinner : name ++ byte '"' :: rest = name' ++ byte '"' :: rest' := by
    simpa [quoted] using h
  rw [hinner, Text.cut?_append hname' rest', Option.some.injEq, Prod.mk.injEq] at hcut
  exact ⟨hcut.1.symm, hcut.2.symm⟩

/-- Quoted text behind an object is left alone if it is not the class. -/
theorem readObjectNames_of_not_endsClass {named : Bool} {s : Text}
    (h : ∀ name rest, s = quoted name ++ rest → byte '"' ∉ name → ¬ EndsClass named rest) :
    readObjectNames named s = (([], []), s) := by
  cases s with
  | nil => rfl
  | cons c s =>
    by_cases hc : c = byte '"'
    · subst hc
      cases hcut : Text.cut? (byte '"') s with
      | none => simp [readObjectNames, hcut]
      | some p =>
        obtain ⟨name, rest⟩ := p
        obtain ⟨rfl, hname⟩ := Text.eq_append_of_cut? hcut
        -- the text is quoted, but among named members what follows makes it the name of the next
        -- one
        have hopen := h name rest (by simp [quoted]) hname
        simp only [EndsClass, Classical.not_imp, not_forall] at hopen
        obtain ⟨rfl, d, hd, hclose⟩ := hopen
        obtain ⟨tail, rfl⟩ := List.head?_eq_some_iff.1 hd
        have hclose : ¬ (d = byte '"' || d = byte '}' || d = byte ')') = true := hclose
        simp only [readObjectNames, ne_eq, not_true_eq_false, if_false, hcut, Bool.not_true,
          Bool.false_or, if_neg hclose]
    · simp [readObjectNames, hc]

/-- Quoted text behind an object is its class, or is left alone. -/
theorem readObjectNames_cases (named : Bool) (s : Text) :
    (∃ name rest, s = quoted name ++ rest ∧ byte '"' ∉ name ∧ EndsClass named rest ∧
      readObjectNames named s = (objectNames name, rest)) ∨
    (∀ name rest, s = quoted name ++ rest → byte '"' ∉ name → ¬ EndsClass named rest) ∧
      readObjectNames named s = (([], []), s) := by
  by_cases h : ∃ name rest, s = quoted name ++ rest ∧ byte '"' ∉ name ∧ EndsClass named rest
  · obtain ⟨name, rest, rfl, hname, hends⟩ := h
    exact Or.inl ⟨name, rest, rfl, hname, hends, readObjectNames_of_closes hname hends⟩
  · have hnot : ∀ name rest, s = quoted name ++ rest → byte '"' ∉ name →
        ¬ EndsClass named rest :=
      fun name rest hs hname hends => h ⟨name, rest, hs, hname, hends⟩
    exact Or.inr ⟨hnot, readObjectNames_of_not_endsClass hnot⟩

end ObjcType

namespace ReadsAlike

open ObjcType

variable {before after : Text} {named named' : Bool}

/-- The head of text behind quoted text decides. -/
private theorem endsClass_append_iff {rest : Text} (hrest : rest ≠ []) :
    EndsClass named (rest ++ before) ↔ EndsClass named (rest ++ after) := by
  obtain ⟨c, rest, rfl⟩ := List.exists_cons_of_ne_nil hrest
  rfl

private theorem readObjectNames_swap_settled {s rest : Text} {names : Text × List Text}
    (hrest : IsSettled rest)
    (h : readObjectNames named (s ++ before) = (names, rest ++ before)) :
    readObjectNames named (s ++ after) = (names, rest ++ after) := by
  rcases readObjectNames_cases named (s ++ before) with
    ⟨name, left, hs, hname, hends, hread⟩ | ⟨hnot, hread⟩
  · obtain ⟨rfl, rfl⟩ := Prod.mk.inj (hread.symm.trans h)
    obtain rfl : s = quoted name ++ rest := by
      rwa [← List.append_assoc, List.append_cancel_right_eq] at hs
    rw [List.append_assoc]
    exact readObjectNames_of_closes hname ((endsClass_append_iff hrest.1).1 hends)
  · obtain ⟨rfl, hs⟩ := Prod.mk.inj (hread.symm.trans h)
    obtain rfl : s = rest := List.append_cancel_right hs
    refine readObjectNames_of_not_endsClass fun name left hleft hname => ?_
    -- the quoted text and a byte behind it are inside the settled text
    obtain ⟨name', c, more, rfl, hname'⟩ := hrest.2 (by
      obtain ⟨d, s, rfl⟩ := List.exists_cons_of_ne_nil hrest.1
      rw [(List.cons.inj hleft).1]
      rfl)
    rw [List.append_assoc] at hleft
    obtain ⟨rfl, rfl⟩ := quoted_append_inj hname' hname hleft
    have hends := hnot name' (c :: more ++ before) (List.append_assoc _ _ _) hname'
    rwa [endsClass_append_iff (List.cons_ne_nil c more)] at hends

private theorem readObjectNames_swap_end {quals s : Text} {names : Text × List Text}
    (hfollows : Follows named (.object quals names.1 names.2) after)
    (hends : EndsClass named after)
    (h : readObjectNames false (s ++ before) = (names, before)) :
    readObjectNames named (s ++ after) = (names, after) := by
  rcases readObjectNames_cases false (s ++ before) with
    ⟨name, left, hs, hname, -, hread⟩ | ⟨-, hread⟩
  · obtain ⟨rfl, rfl⟩ := Prod.mk.inj (hread.symm.trans h)
    obtain rfl : s = quoted name := List.append_cancel_right hs
    exact readObjectNames_of_closes hname hends
  · obtain ⟨rfl, hs⟩ := Prod.mk.inj (hread.symm.trans h)
    obtain rfl : s = [] := by simpa using hs
    exact readObjectNames_bare fun hquote =>
      have hnext := hfollows.not_quote rfl hquote
      ⟨hnext.1, hnext.2.2⟩

/-- An object that is no block. -/
protected theorem readObject (quals : Text) :
    ReadsAlike before after (Settles after named named')
      (fun s => some (readObjectNames named s) >>= fun p =>
        some (ObjcType.object quals p.1.1 p.1.2, p.2))
      fun s => some (readObjectNames named' s) >>= fun p =>
        some (ObjcType.object quals p.1.1 p.1.2, p.2) := by
  have hnames : ReadsAlike before after
      (fun names rest => Settles after named named' (.object quals names.1 names.2) rest)
      (fun s => some (readObjectNames named s)) fun s => some (readObjectNames named' s) := by
    refine ⟨fun {s names rest} h => ?_, fun {s names rest} hrest h => ?_⟩
    · rw [Option.some.injEq] at h
      rcases readObjectNames_cases named s with ⟨name, left, rfl, -, -, hread⟩ | ⟨-, hread⟩
      · rw [← (Prod.mk.inj (hread.symm.trans h)).2]
        exact List.suffix_append _ _
      · rw [← (Prod.mk.inj (hread.symm.trans h)).2]
    · rw [Option.some.injEq] at h ⊢
      rcases hrest with ⟨rfl, hsettled⟩ | ⟨rfl, rfl, hfollows, hends⟩
      · exact readObjectNames_swap_settled hsettled h
      · exact readObjectNames_swap_end hfollows hends h
  exact hnames.map (fun names => ObjcType.object quals names.1 names.2) id

/-- What the readers of types inside a type do. Types that fit are those that are not nested too
deep for the second reader. -/
structure ReadsTypes (before after : Text) (fits : ObjcType → Prop)
    (f g : Bool → Text → Option (ObjcType × Text)) : Prop where
  /-- They read alike. -/
  alike : ∀ named named', ReadsAlike before after
    (fun t rest => fits t ∧ Settles after named named' t rest) (f named) (g named')
  /-- They take at least a byte. -/
  takesByte : ∀ named, TakesByte (f named)
  /-- No quotation mark starts a type. -/
  quote : ∀ named s, f named (byte '"' :: s) = none

section Types

variable {fits : ObjcType → Prop} {f g : Bool → Text → Option (ObjcType × Text)}

/-- A type in front of more of what it is a part of. -/
theorem ReadsTypes.inside (h : ReadsTypes before after fits f g) (named : Bool) :
    ReadsAlike before after (fun t rest => fits t ∧ IsSettled rest) (f named) (g named) :=
  (h.alike named named).mono fun hrest => ⟨hrest.1, Or.inl ⟨rfl, hrest.2⟩⟩

/-- A width settles the type in front of it. -/
private theorem isSettled_of_readWidth {kept rest : Text} (hrest : IsSettled rest)
    (h : (readWidth (kept ++ before)).2 = rest ++ before) : IsSettled kept := by
  by_cases hwidth : StartsWithWidth (kept ++ before)
  · obtain ⟨digits, hs, hd⟩ := hwidth
    rw [hs, readWidth_of_digit hd] at h
    cases kept with
    | nil =>
      -- the colon would have been taken from `before`, of which nothing is missing
      have hlength := (List.dropWhile_suffix (l := digits) Text.isDigit).length_le
      rw [show digits.dropWhile Text.isDigit = rest ++ before from h, List.length_append] at hlength
      rw [List.nil_append] at hs
      rw [hs, List.length_cons] at hlength
      omega
    | cons c kept =>
      rw [(List.cons.inj hs).1]
      exact IsSettled.of_cons (by decide) kept
  · rw [readWidth_of_not hwidth] at h
    rwa [List.append_cancel_right h]

/-- One member of an aggregate. -/
protected theorem readMember (h : ReadsTypes before after fits f g) (named : Bool) :
    ReadsAlike before after (fun m rest => fits m.type ∧ IsSettled rest ∧ rest ≠ [byte ':'])
      (readMember (f named)) (readMember (g named)) := by
  have hwidth (name : Text) (type : ObjcType) : ReadsAlike before after
      (fun m rest => fits m.type ∧ IsSettled rest ∧ rest ≠ [byte ':'])
      (fun s => some (readWidth s) >>= fun p => some ((⟨name, type, p.1⟩ : Member ObjcType), p.2))
      fun s => some (readWidth s) >>= fun p =>
        some ((⟨name, type, p.1⟩ : Member ObjcType), p.2) :=
    ReadsAlike.readWidth.map (fun width => (⟨name, type, width⟩ : Member ObjcType))
      fun hrest => ⟨hrest.2.1.1, hrest.2.2⟩
  have htyped (name : Text) := (h.inside named).bind (hwidth name)
    fun {type kept m rest} hrest hm => by
      obtain ⟨rfl, hleft⟩ : _ = m ∧ (readWidth (kept ++ before)).2 = rest ++ before := by
        simpa using hm
      exact ⟨hrest.1, isSettled_of_readWidth hrest.2.1 hleft⟩
  have hmember := ReadsAlike.readMemberName.bind htyped fun {name kept m rest} hrest hm => by
    -- the member leaves something in front of `before`, so that its name does as well
    have hlength := ((htyped name).suffix hm).length_le
    have hpos := List.length_pos_iff.2 hrest.2.1.1
    rw [List.length_append, List.length_append] at hlength
    exact List.length_pos_iff.1 (by omega)
  exact hmember

/-- What a member takes: its name, at least a byte for its type, and its width. -/
private theorem exists_of_readMember (h : ReadsTypes before after fits f g) {s rest : Text}
    {m : Member ObjcType} (hm : readMember (f named) s = some (m, rest)) :
    ∃ behind, readMemberName s = some (m.name, behind) ∧ behind <:+ s ∧ rest <:+ behind ∧
      rest.length < behind.length := by
  obtain ⟨⟨name, behind⟩, hname, hm⟩ := Option.bind_eq_some_iff.1 hm
  obtain ⟨⟨type, left⟩, htype, hm⟩ := Option.bind_eq_some_iff.1 hm
  obtain ⟨rfl, rfl⟩ : _ = m ∧ (readWidth left).2 = rest := by simpa using hm
  -- names and widths are read from the front, whatever stands behind them
  have hnames : ReadsAlike [] [] (fun _ rest => rest ≠ []) readMemberName readMemberName :=
    ReadsAlike.readMemberName
  have hwidths : ReadsAlike [] [] (fun _ rest => rest ≠ [] ∧ rest ≠ [byte ':'])
    (fun s => some (readWidth s)) fun s => some (readWidth s) := ReadsAlike.readWidth
  have hwidth : (readWidth left).2 <:+ left := hwidths.suffix rfl
  exact ⟨behind, hname, hnames.suffix hname, hwidth.trans ((h.inside named).suffix htype),
    hwidth.length_le.trans_lt (h.takesByte named _ _ _ htype)⟩

/-- Reading a member takes at least one byte, so the members of an aggregate come to an end. -/
private theorem takesByte_readMember (h : ReadsTypes before after fits f g) (named : Bool) :
    TakesByte (readMember (f named)) := by
  intro s m rest hm
  obtain ⟨behind, -, hbehind, -, hlength⟩ := exists_of_readMember h hm
  exact hlength.trans_le hbehind.length_le

/-- Behind a member there is more than one byte, unless the closing byte follows. -/
private theorem ne_singleton_of_readMembers (h : ReadsTypes before after fits f g)
    {closer c : UInt8} (hc : c ≠ closer) {fuel : Nat} {kept rest : Text}
    {members : List (Member ObjcType)}
    (hmembers : readUntil closer (readMember (f named)) fuel (kept ++ before) =
      some (members, rest ++ before)) : kept ≠ [c] := by
  rintro rfl
  obtain ⟨fuel, rfl⟩ : ∃ n, fuel = n + 1 := Nat.exists_eq_succ_of_ne_zero (by
    rintro rfl
    cases hmembers)
  rw [List.singleton_append, readUntil, if_neg hc] at hmembers
  obtain ⟨⟨m, left⟩, hm, hmore⟩ := Option.bind_eq_some_iff.1 hmembers
  obtain ⟨⟨others, left'⟩, hothers, heq⟩ := Option.bind_eq_some_iff.1 hmore
  obtain ⟨-, rfl⟩ : _ ∧ left' = rest ++ before := by simpa using heq
  -- the member takes the byte, and nothing in front of `before` is left for the closing byte
  have hleft := takesByte_readMember h named _ _ _ hm
  have hbefore :=
    (cons_suffix_of_readUntil (ReadsAlike.readMember h named).suffix hothers).length_le
  simp only [List.length_cons, List.length_append] at hleft hbefore
  omega

/-- There is text behind a member, and if it is quoted it is the name of another member, with a
type behind it. -/
private theorem isSettled_of_readMembers (h : ReadsTypes before after fits f g) {closer : UInt8}
    (hcloser : byte '"' ≠ closer) {fuel : Nat} {kept rest : Text}
    {members : List (Member ObjcType)}
    (hmembers : readUntil closer (readMember (f named)) fuel (kept ++ before) =
      some (members, rest ++ before)) : IsSettled kept := by
  have hmember := ReadsAlike.readMember h named
  have hkept := length_lt_of_readUntil hmember.suffix hmembers
  refine ⟨List.length_pos_iff.1 (by omega), fun hhead => ?_⟩
  obtain ⟨tail, rfl⟩ := List.head?_eq_some_iff.1 hhead
  obtain ⟨fuel, rfl⟩ : ∃ n, fuel = n + 1 := Nat.exists_eq_succ_of_ne_zero (by
    rintro rfl
    cases hmembers)
  rw [List.cons_append, readUntil, if_neg hcloser] at hmembers
  obtain ⟨⟨m, left⟩, hm, hmore⟩ := Option.bind_eq_some_iff.1 hmembers
  obtain ⟨⟨others, left'⟩, hothers, heq⟩ := Option.bind_eq_some_iff.1 hmore
  obtain ⟨-, rfl⟩ : _ ∧ left' = rest ++ before := by simpa using heq
  obtain ⟨behind, hname, -, hleft, hlength⟩ := exists_of_readMember h hm
  -- behind the name there is all that the member and the others leave, and the member's type
  obtain ⟨w, rfl⟩ : ∃ w, w ++ before = behind :=
    ((List.suffix_append rest before).trans (List.suffix_cons closer _)).trans
      ((cons_suffix_of_readUntil hmember.suffix hothers).trans hleft)
  have hw : w ≠ [] := by
    have hbefore := (cons_suffix_of_readUntil hmember.suffix hothers).length_le
    simp only [List.length_cons, List.length_append] at hbefore hlength
    exact List.length_pos_iff.1 (by omega)
  obtain ⟨c, w, rfl⟩ := List.exists_cons_of_ne_nil hw
  have hcut : Text.cut? (byte '"') (tail ++ before) = some (m.name, c :: w ++ before) := by
    simpa [readMemberName] using hname
  obtain ⟨htail, hfree⟩ := Text.eq_append_of_cut? hcut
  refine ⟨m.name, c, w, ?_, hfree⟩
  rw [← List.cons_append, ← List.append_assoc, List.append_cancel_right_eq] at htail
  simp [quoted, htail]

/-- Quoted text is no parameter of a block, so that a type in front of one is settled. -/
private theorem isSettled_of_readParams (h : ReadsTypes before after fits f g) {fuel : Nat}
    {kept rest : Text} {params : List ObjcType}
    (hparams : readUntil (byte '>') (f false) fuel (kept ++ before) =
      some (params, rest ++ before)) : IsSettled kept := by
  have hkept := length_lt_of_readUntil (h.inside false).suffix hparams
  refine ⟨List.length_pos_iff.1 (by omega), fun hhead => ?_⟩
  obtain ⟨tail, rfl⟩ := List.head?_eq_some_iff.1 hhead
  cases fuel with
  | zero => cases hparams
  | succ fuel =>
    rw [List.cons_append, readUntil, if_neg (by decide), h.quote] at hparams
    cases hparams

/-- The members of an aggregate, from their types. -/
private theorem readMembers (h : ReadsTypes before after fits f g) (quals : Text)
    (kind : AggregateKind) (name : Text) (named : Bool) :
    ReadsAlike before after (fun t _ => ∀ u ∈ t.parts, fits u)
      (fun s => readUntil kind.closer (readMember (f named)) s.length s >>= fun p =>
        some (ObjcType.aggregate quals kind name p.1, p.2))
      fun s => readUntil kind.closer (readMember (g named)) s.length s >>= fun p =>
        some (ObjcType.aggregate quals kind name p.1, p.2) := by
  have hcloser : byte '"' ≠ kind.closer ∧ byte ':' ≠ kind.closer := by cases kind <;> decide
  -- no item has parts that reach over the closing bracket, so the list is read as before
  have hmembers : ReadsAlike before after (fun ms _ => ∀ m ∈ ms, fits m.type)
      (fun s => readUntil kind.closer (readMember (f named)) s.length s)
      fun s => readUntil kind.closer (readMember (g named)) s.length s :=
    ReadsAlike.readUntil (ReadsAlike.readMember h named) (takesByte_readMember h named)
      fun hm hmore => ⟨hm, isSettled_of_readMembers h hcloser.1 hmore,
        ne_singleton_of_readMembers h hcloser.2 hmore⟩
  exact hmembers.map (fun members => ObjcType.aggregate quals kind name members)
    fun hparts m hm => hparts m.type (List.mem_map_of_mem hm)

/-- An aggregate, from the types of its members. -/
protected theorem readAggregate (h : ReadsTypes before after fits f g) (quals : Text)
    (kind : AggregateKind) :
    ReadsAlike before after (fun t _ => ∀ u ∈ t.parts, fits u) (readAggregate f quals kind)
      (readAggregate g quals kind) := by
  have htakes (name : Text) (named : Bool) : TakesByte fun s =>
      readUntil kind.closer (readMember (f named)) s.length s >>= fun p =>
        some (ObjcType.aggregate quals kind name p.1, p.2) := by
    intro s t rest ht
    obtain ⟨⟨members, left⟩, hmembers, heq⟩ := Option.bind_eq_some_iff.1 ht
    obtain ⟨-, rfl⟩ : _ ∧ left = rest := by simpa using heq
    exact Nat.lt_of_succ_le
      (cons_suffix_of_readUntil (ReadsAlike.readMember h named).suffix hmembers).length_le
  -- whether members have names is told by the byte behind the equals sign
  have hbehind (name : Text) (c : UInt8) : ReadsAlike before after
      (fun t _ => ∀ u ∈ t.parts, fits u)
      (fun s => if c = kind.closer then some (ObjcType.tag quals kind name, s)
        else readUntil kind.closer (readMember (f (s.head? == some (byte '"')))) s.length s >>=
          fun p => some (ObjcType.aggregate quals kind name p.1, p.2))
      fun s => if c = kind.closer then some (ObjcType.tag quals kind name, s)
        else readUntil kind.closer (readMember (g (s.head? == some (byte '"')))) s.length s >>=
          fun p => some (ObjcType.aggregate quals kind name p.1, p.2) := by
    split
    · exact ReadsAlike.pure _
    · have hkey (c : UInt8) (s : Text) : ((c :: s ++ before).head? == some (byte '"')) =
          ((c :: s ++ after).head? == some (byte '"')) := rfl
      exact look (fun s => s.head? == some (byte '"')) hkey
        (readMembers h quals kind name) (htakes name)
  have haggregate := (ReadsAlike.readTag kind.closer 0).bind (fun name => uncons (hbehind name))
    fun {name kept t rest} _ ht =>
      TakesByte.ne_nil (TakesByte.uncons fun c => (hbehind name c).suffix) ht
  exact haggregate

/-- A block, from its result and its parameters. -/
protected theorem readBlock (h : ReadsTypes before after fits f g) (quals : Text) :
    ReadsAlike before after
      (fun t rest => (∀ u ∈ t.parts, fits u) ∧
        (rest = [] → t.endsInBareBlock = true → after.head? ≠ some (byte '<')))
      (readBlock (f false) quals) (readBlock (g false) quals) := by
  have hlist : ReadsAlike before after (fun ts _ => ∀ t ∈ ts, fits t)
      (fun s => readUntil (byte '>') (f false) s.length s)
      fun s => readUntil (byte '>') (g false) s.length s :=
    ReadsAlike.readUntil (h.inside false) (h.takesByte false)
      fun ht hmore => ⟨ht, isSettled_of_readParams h hmore⟩
  have hparams (result : ObjcType) : ReadsAlike before after
      (fun t rest => (∀ u ∈ t.parts, fits u) ∧
        (rest = [] → t.endsInBareBlock = true → after.head? ≠ some (byte '<')))
      (fun s => readUntil (byte '>') (f false) s.length s >>= fun p =>
        some (ObjcType.signature quals result p.1, p.2))
      fun s => readUntil (byte '>') (g false) s.length s >>= fun p =>
        some (ObjcType.signature quals result p.1, p.2) :=
    hlist.map (fun params => ObjcType.signature quals result params)
      fun hrest t ht => hrest.1 t (List.mem_cons_of_mem result ht)
  have hsignature := (h.inside false).bind hparams fun {result kept t rest} hrest ht => by
    obtain ⟨⟨params, left⟩, hlist, heq⟩ := Option.bind_eq_some_iff.1 ht
    obtain ⟨rfl, rfl⟩ : _ = t ∧ left = rest ++ before := by simpa using heq
    exact ⟨hrest.1 result List.mem_cons_self, isSettled_of_readParams h hlist⟩
  -- the reader of blocks matches on its text, where a choice by the first byte is needed
  have hblock (readType : Text → Option (ObjcType × Text)) : readBlock readType quals = fun s =>
      if s.head? = some (byte '<') then (fun s => readType s >>= fun p =>
        readUntil (byte '>') readType p.2.length p.2 >>= fun q =>
          some (ObjcType.signature quals p.1 q.1, q.2)) (s.drop 1)
      else some (.block quals, s) := by
    funext s
    cases s with
    | nil => rfl
    | cons c s =>
      simp only [readBlock, List.head?_cons, Option.some.injEq]
      rfl
  rw [hblock, hblock]
  exact peek hsignature (ReadsAlike.pure (ObjcType.block quals)) fun {t} hrest ht => by
    obtain rfl : ObjcType.block quals = t := by simpa using ht
    exact hrest.2 rfl rfl

/-- An array, from the type of its elements. The bracket behind them settles it. -/
private theorem readArray (h : ReadsTypes before after fits f g) (quals : Text) :
    ReadsAlike before after (fun t _ => ∀ u ∈ t.parts, fits u)
      (fun s => some (readNumber s) >>= fun p => f false p.2 >>= fun q =>
        match q.2 with
        | [] => none
        | c :: rest =>
          if c = byte ']' then some (ObjcType.array quals (p.1.getD 0) q.1, rest) else none)
      fun s => some (readNumber s) >>= fun p => g false p.2 >>= fun q =>
        match q.2 with
        | [] => none
        | c :: rest =>
          if c = byte ']' then some (ObjcType.array quals (p.1.getD 0) q.1, rest) else none := by
  have hclose (length : Option Nat) (elem : ObjcType) (c : UInt8) : ReadsAlike before after
      (fun t _ => ∀ u ∈ t.parts, fits u)
      (fun s => if c = byte ']' then some (ObjcType.array quals (length.getD 0) elem, s) else none)
      fun s => if c = byte ']' then some (ObjcType.array quals (length.getD 0) elem, s)
        else none := by
    split
    · exact ReadsAlike.pure _
    · exact ReadsAlike.none _
  have helem (length : Option Nat) := (h.inside false).bind
    (fun elem => uncons (hclose length elem)) fun {elem kept t rest} hparts ht => by
      obtain ⟨c, kept, rfl⟩ := List.exists_cons_of_ne_nil
        (TakesByte.ne_nil (TakesByte.uncons fun c => (hclose length elem c).suffix) ht)
      obtain ⟨hc, heq⟩ : c = byte ']' ∧ _ := by simpa using ht
      obtain ⟨rfl, -⟩ := heq
      exact ⟨hparts elem (List.mem_singleton.2 rfl), hc ▸ IsSettled.of_cons (by decide) kept⟩
  exact ReadsAlike.readNumber.bind helem fun {length kept t rest} _ ht hkept =>
    absurd hkept (TakesByte.ne_nil ((h.takesByte false).bind fun elem {_ _ _} hs =>
      (uncons (hclose length elem)).suffix hs) ht)

/-- A pointer settles what it points to. -/
private theorem settles_elem {quals : Text} {elem : ObjcType} {rest : Text}
    (h : Settles after named named' (.pointer quals elem) rest) :
    Settles after false false elem rest := by
  rcases h with ⟨-, hsettled⟩ | ⟨rfl, -, hfollows, -⟩
  · exact Or.inl ⟨rfl, hsettled⟩
  · exact Or.inr ⟨rfl, rfl, hfollows.elem, fun hnamed => by cases hnamed⟩

/-- No question mark behind an object without names makes it a block. -/
private theorem head?_ne_question {quals : Text} {names : Text × List Text}
    (h : Settles after named named' (.object quals names.1 names.2) [])
    (hread : readObjectNames named before = (names, before)) :
    after.head? ≠ some (byte '?') := by
  rcases h with ⟨-, hsettled⟩ | ⟨-, -, hfollows, -⟩
  · exact absurd rfl hsettled.1
  · refine hfollows.not_question ?_
    rcases readObjectNames_cases named before with ⟨name, left, hs, -, -, htaken⟩ | ⟨-, hleft⟩
    -- quoted names would leave less than they were read from
    · have hlength := congrArg List.length hs
      rw [← (Prod.mk.inj (htaken.symm.trans hread)).2] at hlength
      simp [quoted] at hlength
      omega
    · rw [← (Prod.mk.inj (hleft.symm.trans hread)).1]
      rfl

/-- The type behind its qualifiers. -/
protected theorem readUnqualified (h : ReadsTypes before after fits f g) (named named' : Bool)
    (quals : Text) (code : UInt8) : ReadsAlike before after
      (fun t rest => (∀ u ∈ t.parts, fits u) ∧ Settles after named named' t rest)
      (readUnqualified f named quals code) (readUnqualified g named' quals code) := by
  have haggregate (kind : AggregateKind) : ReadsAlike before after
      (fun t rest => (∀ u ∈ t.parts, fits u) ∧ Settles after named named' t rest)
      (readAggregate f quals kind) (readAggregate g quals kind) :=
    (ReadsAlike.readAggregate h quals kind).mono fun hrest => hrest.1
  unfold readUnqualified
  split
  · -- a pointer takes a byte of what it points to, so that it is no function behind the text
    have hpointer : ReadsAlike before after
        (fun t rest => (∀ u ∈ t.parts, fits u) ∧ Settles after named named' t rest)
        (fun s => f false s >>= fun p => some (ObjcType.pointer quals p.1, p.2))
        fun s => g false s >>= fun p => some (ObjcType.pointer quals p.1, p.2) :=
      (h.alike false false).map (fun elem => ObjcType.pointer quals elem)
        fun {elem rest} hrest =>
          ⟨hrest.1 elem (List.mem_singleton.2 rfl), settles_elem hrest.2⟩
    exact peek (ReadsAlike.pure (ObjcType.function quals)) hpointer fun {t} _ ht => by
      obtain ⟨⟨elem, left⟩, helem, heq⟩ := Option.bind_eq_some_iff.1 ht
      obtain ⟨-, rfl⟩ : _ ∧ left = before := by simpa using heq
      exact absurd (h.takesByte false _ _ _ helem) (Nat.lt_irrefl _)
  · refine ((readArray h quals).mono fun hrest => hrest.1).congr (fun s => ?_) fun s => ?_
    -- the reader matches on what is behind the elements in another order than `uncons`
    all_goals
      refine Option.bind_congr fun q _ => ?_
      obtain ⟨elem, - | ⟨c, rest⟩⟩ := q <;> rfl
  · exact haggregate .struct
  · exact haggregate .union
  · have hwidth (bits : Option Nat) : ReadsAlike before after
        (fun t rest => (∀ u ∈ t.parts, fits u) ∧ Settles after named named' t rest)
        (fun s => bits >>= fun n => some (ObjcType.bitfield quals n, s))
        fun s => bits >>= fun n => some (ObjcType.bitfield quals n, s) := by
      cases bits with
      | none => exact ReadsAlike.none _
      | some n => exact ReadsAlike.pure (ObjcType.bitfield quals n)
    exact ReadsAlike.readNumber.bind hwidth fun {bits kept t rest} hrest ht hkept => by
      obtain ⟨n, -, heq⟩ := Option.bind_eq_some_iff.1 ht
      obtain ⟨rfl, rfl⟩ : ObjcType.bitfield quals n = t ∧ kept = rest := by simpa using heq
      rcases hrest.2 with ⟨-, hsettled⟩ | ⟨-, -, hfollows, -⟩
      · exact absurd hkept hsettled.1
      · exact hfollows.not_digit rfl
  · -- at the end of the text, what follows the type makes no block of an object
    have hblock : ReadsAlike before after
        (fun t rest => (∀ u ∈ t.parts, fits u) ∧ Settles after named named' t rest)
        (readBlock (f false) quals) (readBlock (g false) quals) :=
      (ReadsAlike.readBlock h quals).mono fun {t rest} hrest => ⟨hrest.1, fun hnil => by
        rcases hrest.2 with ⟨-, hsettled⟩ | ⟨-, -, hfollows, -⟩
        · exact absurd hnil hsettled.1
        · exact hfollows.not_angle⟩
    have hobject : ReadsAlike before after
        (fun t rest => (∀ u ∈ t.parts, fits u) ∧ Settles after named named' t rest)
        (fun s => some (readObjectNames named s) >>= fun p =>
          some (ObjcType.object quals p.1.1 p.1.2, p.2))
        fun s => some (readObjectNames named' s) >>= fun p =>
          some (ObjcType.object quals p.1.1 p.1.2, p.2) :=
      (ReadsAlike.readObject quals).mono fun hrest => hrest.2
    exact peek hblock hobject fun {t} hrest ht => by
      obtain ⟨rfl, hleft⟩ : _ = t ∧ (readObjectNames named before).2 = before := by simpa using ht
      exact head?_ne_question hrest.2 (Prod.ext rfl hleft)
  · exact ReadsAlike.pure _
  · exact ReadsAlike.pure _
  · split
    · exact ReadsAlike.pure _
    · exact ReadsAlike.none _

end Types

end ReadsAlike

namespace ObjcType

/-- No quotation mark starts a type. -/
theorem read_quote (depth : Nat) (named : Bool) (s : Text) :
    read depth named (byte '"' :: s) = none := by
  have hqualifier : isQualifier (byte '"') = false := by decide
  cases depth with
  | zero => rfl
  | succ depth =>
    have hnone : ([] : Text).all isQualifier = true := rfl
    have hread := read_quals hnone hqualifier depth named s
    rw [List.nil_append] at hread
    rw [hread]
    rfl

/-- A type with its qualifiers, from the types inside it. -/
private theorem readsAlike_step {before after : Text} {fits : ObjcType → Prop}
    {f g : Bool → Text → Option (ObjcType × Text)}
    (h : ReadsAlike.ReadsTypes before after fits f g) (named named' : Bool) :
    ReadsAlike before after
      (fun t rest => (∀ u ∈ t.parts, fits u) ∧ Settles after named named' t rest)
      (fun s => match s.dropWhile isQualifier with
        | [] => none
        | code :: rest => readUnqualified f named (s.takeWhile isQualifier) code rest)
      fun s => match s.dropWhile isQualifier with
        | [] => none
        | code :: rest => readUnqualified g named' (s.takeWhile isQualifier) code rest := by
  have htype (quals : Text) := ReadsAlike.readUnqualified h named named' quals
  -- the qualifiers leave the byte that they qualify
  have hread := (ReadsAlike.span (p := isQualifier)).bind
    (fun quals => ReadsAlike.uncons (htype quals)) fun {quals kept t rest} _ ht hkept =>
      absurd hkept (TakesByte.ne_nil (TakesByte.uncons fun code => (htype quals code).suffix) ht)
  exact hread

/-- Types are read alike in front of different texts. Where the second reader allows less nesting,
the type has to fit. The induction is on the depth, and carries what the reader of a type asks of
the readers of the types inside it. -/
theorem readsTypes_read {before after : Text} (depth depth' : Nat) :
    ReadsAlike.ReadsTypes before after (fun t => t.height ≤ depth' ∨ depth ≤ depth') (read depth)
      (read depth') := by
  induction depth generalizing depth' with
  | zero =>
    exact ⟨fun _ _ => ReadsAlike.none _, fun _ _ _ _ h => (by cases h), read_quote 0⟩
  | succ depth ih =>
    refine ⟨fun named named' => ?_, fun named s t rest h => ?_, read_quote (depth + 1)⟩
    · cases depth' with
      | zero =>
        -- nothing fits, so that it is enough to know what the first reader leaves
        have hread := readsAlike_step (ih depth) named named
        refine ⟨hread.suffix, fun {s t rest} hrest _ => ?_⟩
        have hpos := height_pos t
        omega
      | succ depth' =>
        have hread := readsAlike_step (ih depth') named named'
        refine ReadsAlike.mono hread fun {t rest} hrest => ⟨fun u hu => ?_, hrest.2⟩
        have hheight := height_lt_of_mem_parts hu
        omega
    · rw [read] at h
      split at h
      · cases h
      · rename_i code behind hcode
        have hrest : rest <:+ behind :=
          (ReadsAlike.readUnqualified (ih depth) named named _ code).suffix h
        have hbehind : code :: behind <:+ s := hcode ▸ List.dropWhile_suffix isQualifier
        exact hrest.length_le.trans_lt (Nat.lt_of_succ_le hbehind.length_le)

/-- A type is taken from the left. -/
theorem suffix_of_read {depth : Nat} {named : Bool} {s : Text} {t : ObjcType} {rest : Text}
    (h : read depth named s = some (t, rest)) : rest <:+ s := by
  have hread : ReadsAlike.ReadsTypes [] [] _ (read depth) (read depth) :=
    readsTypes_read depth depth
  exact (hread.alike named named).suffix h

/-- A type that ends in front of some text ends in front of any other text that may follow it. -/
theorem read_append_of_follows {depth depth' : Nat} {named : Bool} {s before after : Text}
    {t : ObjcType} (hfollows : Follows named t after) (hends : EndsClass named after)
    (hheight : t.height ≤ depth' ∨ depth ≤ depth')
    (h : read depth false (s ++ before) = some (t, before)) :
    read depth' named (s ++ after) = some (t, after) := by
  have hread : ReadsAlike.ReadsTypes before after _ (read depth) (read depth') :=
    readsTypes_read depth depth'
  have hsettles : Settles after false named t [] := Or.inr ⟨rfl, rfl, hfollows, hends⟩
  exact (hread.alike false named).swap ⟨hheight, hsettles⟩ h

end ObjcType

end ObjcLens
