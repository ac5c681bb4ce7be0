import Mathlib
import ObjcLens.Proofs.ObjcType.Decoded
import ObjcLens.Proofs.ObjcType.Fields

/-!
# Ambiguous types are not read back

A decoded type need not be read back from its encoding. The writer leaves out the empty name of a
member, the empty class of an object and a width of zero. What stood on their two sides meets, and
the reader takes it for something else. Two neighbours that are mistaken in this way spoil the whole
type: the first of them is read as another type, or the second as another member.

## Main results

* `isUnambiguous_of_read`: what is read back is unambiguous.
* `parse_encode_parse_iff`: a decoded type is read back from its encoding if and only if it is
  unambiguous.
* `parse_encode_ne_of_anonymousMember`: a compiler writes types that are not.
-/

namespace ObjcLens

namespace ObjcType

/-- The letter `?` alone is written as it is. -/
private theorem encode_of_isBareQuestion {t : ObjcType} (h : t.isBareQuestion = true) :
    t.encode = [byte '?'] := by
  cases t with
  | primitive quals code =>
    cases quals with
    | nil =>
      have hcode : code = byte '?' := by simpa [isBareQuestion] using h
      rw [hcode]
      rfl
    | cons c quals => simp [isBareQuestion] at h
  | _ => simp [isBareQuestion] at h

section Neighbours

variable {t : ObjcType} {rest : Text} {depth : Nat} {named : Bool}

/-- The encoding of an object without names is an at sign behind its qualifiers. -/
private theorem encodeObjectNames_of_bare {name : Text} {protocols : List Text}
    (h : (name.isEmpty && protocols.isEmpty) = true) : encodeObjectNames name protocols = [] := by
  rw [encodeObjectNames, if_pos h]

/-- In front of a question mark an object is read as a block. -/
theorem read_question_ne (hwell : t.isWellFormed = true) (hbare : t.endsInBareObject = true)
    (more : Text) : read depth named (t.encode ++ byte '?' :: more) ≠ some (t, rest) := by
  induction depth generalizing t named rest with
  | zero => simp [read]
  | succ depth ih =>
    obtain ⟨hspelled, hparts⟩ := (isWellFormed_iff t).1 hwell
    cases t with
    -- the question mark makes a block of a bare object
    | object quals name protocols =>
      rw [read_object_append depth named _ hspelled, encodeObjectNames_of_bare hbare]
      change readBlock (read depth false) quals more ≠ _
      intro hblock
      unfold readBlock at hblock
      split at hblock
      · split at hblock
        · obtain ⟨p, -, hmore⟩ := Option.bind_eq_some_iff.1 hblock
          obtain ⟨q, -, heq⟩ := Option.bind_eq_some_iff.1 hmore
          simp at heq
        · simp at hblock
      · simp at hblock
    | pointer quals elem =>
      have helem := hparts elem (List.mem_singleton.2 rfl)
      rw [read_pointer_append depth named _ hspelled ((isWellFormed_iff elem).1 helem).1]
      intro hread
      obtain ⟨⟨elem', left⟩, hread, heq⟩ := Option.map_eq_some_iff.1 hread
      obtain ⟨rfl, -⟩ : elem' = elem ∧ left = rest := by simpa using heq
      exact ih helem hbare hread
    | _ => simp [endsInBareObject] at hbare

/-- Where the name of the next member follows an object, or a pointer to one, it is taken for the
class of the object. Only the object itself leaves it alone among named members. -/
theorem rest_of_read_name (hwell : t.isWellFormed = true) (hbare : t.endsInBareObject = true)
    (hchain : named = true → t.isChainToBareObject = true) {name : Text}
    (hname : isQuoteFree name = true) (more : Text)
    (h : read depth named (t.encode ++ (quoted name ++ more)) = some (t, rest)) : rest = more := by
  induction depth generalizing t named rest with
  | zero => cases h
  | succ depth ih =>
    obtain ⟨hspelled, hparts⟩ := (isWellFormed_iff t).1 hwell
    cases t with
    | object quals name' protocols =>
      -- an object is no pointer, so it does not stand among named members
      have hnamed : named = false := by
        cases named with
        | false => rfl
        | true => exact absurd (hchain rfl) (by simp [isChainToBareObject])
      have hquote : byte '"' ∉ name := by simpa [isQuoteFree] using hname
      have hquestion : (quoted name ++ more).head? ≠ some (byte '?') := by
        have hne : byte '"' ≠ byte '?' := by decide
        simpa [quoted] using hne
      -- the name is taken for the class of the object, so what is left starts behind it
      have hread : readObjectNames named (quoted name ++ more) = (objectNames name, more) :=
        readObjectNames_of_closes hquote (by simp [hnamed])
      rw [read_object_append depth named _ hspelled, encodeObjectNames_of_bare hbare,
        List.nil_append, if_neg hquestion, hread] at h
      exact (Prod.mk.inj (Option.some.inj h)).2.symm
    | pointer quals elem =>
      have helem := hparts elem (List.mem_singleton.2 rfl)
      rw [read_pointer_append depth named _ hspelled ((isWellFormed_iff elem).1 helem).1] at h
      obtain ⟨⟨elem', left⟩, hread, heq⟩ := Option.map_eq_some_iff.1 h
      obtain ⟨rfl, rfl⟩ : elem' = elem ∧ left = rest := by simpa using heq
      exact ih helem hbare (by simp) hread
    | _ => simp [endsInBareObject] at hbare

/-- Among named members the class of an object is taken for the name of the next member if a type
follows it. -/
theorem read_class_ne (hspelled : t.fitsSyntax = true) (hobject : t.isQualifiedObject = true)
    {c : UInt8} (hc : startsType c = true) (more : Text) :
    read depth true (t.encode ++ c :: more) ≠ some (t, rest) := by
  cases depth with
  | zero => simp [read]
  | succ depth =>
    cases t with
    | object quals name protocols =>
      rw [isQualifiedObject, Bool.not_eq_true'] at hobject
      have hencode : encodeObjectNames name protocols =
          quoted (name ++ protocols.flatMap fun p => byte '<' :: p ++ [byte '>']) := by
        rw [encodeObjectNames, if_neg (by simp [hobject])]
      have hfree : isQuoteFree (name ++ protocols.flatMap fun p => byte '<' :: p ++ [byte '>']) =
          true := by
        simp only [fitsSyntax, Bool.and_eq_true] at hspelled
        simpa [isQuoteFree] using quote_notMem_names hspelled.1.2 hspelled.2
      have hquestion : (encodeObjectNames name protocols ++ c :: more).head? ≠
          some (byte '?') := by
        have hne : byte '"' ≠ byte '?' := by decide
        simpa [hencode, quoted] using hne
      -- among named members a type behind the quoted class makes it the name of the next member
      have hread : readObjectNames true (encodeObjectNames name protocols ++ c :: more) =
          (([], []), encodeObjectNames name protocols ++ c :: more) :=
        readObjectNames_bare fun _ => ⟨rfl, _, c, more, by rw [hencode], hfree, hc⟩
      rw [read_object_append depth true _ hspelled, if_neg hquestion, hread]
      intro heq
      -- then the object that is read has no names, although this one has some
      have hnames : name = [] ∧ protocols = [] := by
        have hobject := (Prod.mk.inj (Option.some.inj heq)).1
        simpa using hobject
      simp [hnames.1, hnames.2] at hobject
    | _ => simp [isQualifiedObject] at hobject

end Neighbours

/-- What is read back at a depth is unambiguous. -/
def Recalls (depth : Nat) : Prop :=
  ∀ (named : Bool) (t : ObjcType) (behind rest : Text), t.isWellFormed = true →
    read depth named (t.encode ++ behind) = some (t, rest) → t.isUnambiguous = true

section Lists

variable {depth : Nat} {rest : Text}

/-- Types that are read back one after the other are unambiguous and do not clash. The induction is
on the types behind the first one; as that one is read back and does not clash with the next, the
reader is in front of the next. -/
private theorem Recalls.types (ih : Recalls depth) {behind : Text} {later : List ObjcType}
    {t : ObjcType} (hwell : ∀ u ∈ t :: later, u.isWellFormed = true) {middle : Text}
    (hread : read depth false (t.encode ++ (later.flatMap encode ++ byte '>' :: behind)) =
      some (t, middle)) {fuel : Nat}
    (hmore : readUntil (byte '>') (read depth false) fuel middle = some (later, rest)) :
    (∀ u ∈ t :: later, u.isUnambiguous = true) ∧ hasNoClash clashes (t :: later) = true := by
  induction later generalizing t middle fuel with
  | nil =>
    have ht := ih false t _ middle (hwell t List.mem_cons_self) hread
    exact ⟨by simpa using ht, rfl⟩
  | cons u later ihList =>
    rw [List.forall_mem_cons] at hwell
    have ht := ih false t _ middle hwell.1 hread
    have hno : clashes t u = false := by
      rw [← Bool.not_eq_true]
      intro hclash
      rw [clashes, Bool.and_eq_true] at hclash
      have hquestion : u.encode = [byte '?'] := encode_of_isBareQuestion hclash.2
      rw [List.flatMap_cons, hquestion, List.append_assoc, List.singleton_append] at hread
      exact read_question_ne hwell.1 hclash.1 _ hread
    have hspelled : ∀ v ∈ u :: later, v.fitsSyntax = true :=
      fun v hv => ((isWellFormed_iff v).1 (hwell.2 v hv)).1
    have hfollows : Follows false t ((u :: later).flatMap encode ++ byte '>' :: behind) :=
      follows_types hspelled (by simpa using hno) behind
    have hexact := readsEncoding depth false t _ hwell.1 ht (decoded_of_read hread).height_le
      hfollows
    -- the first type ends where its encoding does, so the others are read from theirs
    obtain ⟨-, rfl⟩ := Prod.mk.inj (Option.some.inj (hread.symm.trans hexact))
    obtain ⟨fuel', middle, -, hu, hrest⟩ := item_of_readUntil_cons hmore
    rw [List.flatMap_cons, List.append_assoc] at hu
    obtain ⟨hclear, hapart⟩ := ihList hwell.2 hu hrest
    refine ⟨List.forall_mem_cons.2 ⟨ht, hclear⟩, ?_⟩
    rw [hasNoClash, hno, hapart]
    rfl

/-- A member that is read back does not mix with the next one, if that one is read back as well. -/
private theorem mixes_eq_false {named : Bool} {kind : AggregateKind} {m n : Member ObjcType}
    {later : List (Member ObjcType)} (hm : m.type.isWellFormed = true)
    (hspelled : ∀ o ∈ n :: later, o.type.fitsSyntax = true)
    (hname : isQuoteFree n.name = true) {behind s middle left : Text}
    (htype : read depth named (m.type.encode ++
      (encodeWidth m.width ++ ((n :: later).flatMap encodeMember ++ kind.closer :: behind))) =
        some (m.type, s)) (hwidth : readWidth s = (m.width, middle))
    (hnext : readMember (read depth named) middle = some (n, left)) :
    mixes named m n = false := by
  rw [← Bool.not_eq_true]
  intro hmixes
  simp only [mixes, Bool.and_eq_true, decide_eq_true_eq] at hmixes
  obtain ⟨hzero, hmixes⟩ := hmixes
  have hn := hspelled n List.mem_cons_self
  obtain ⟨c, tail, hencode, hc, -, -⟩ := encode_eq_cons hn
  rw [encodeWidth, if_pos hzero, List.nil_append, List.flatMap_cons, encodeMember] at htype
  by_cases hempty : n.name.isEmpty = true
  · rw [if_pos hempty, Bool.or_eq_true] at hmixes
    rw [if_pos hempty, List.nil_append] at htype
    rcases hmixes with hclash | hclass
    · rw [clashes, Bool.and_eq_true] at hclash
      rw [encode_of_isBareQuestion hclash.2] at htype
      simp only [List.append_assoc, List.singleton_append] at htype
      exact read_question_ne hm hclash.1 _ htype
    · rw [Bool.and_eq_true] at hclass
      obtain ⟨rfl, hobject⟩ := hclass
      rw [hencode] at htype
      simp only [List.append_assoc, List.cons_append] at htype
      exact read_class_ne ((isWellFormed_iff m.type).1 hm).1 hobject hc _ htype
  · rw [if_neg hempty, Bool.and_eq_true, Bool.not_eq_true'] at hmixes
    rw [if_neg hempty] at htype
    simp only [List.append_assoc] at htype
    -- the name is taken, and the next member starts with its type
    have hrest := rest_of_read_name hm hmixes.1
      (fun hnamed => by simpa [hnamed] using hmixes.2) hname _ htype
    let unnamed : Member ObjcType := { n with name := [] }
    have hlater : ∀ o ∈ unnamed :: later, o.type.fitsSyntax = true :=
      List.forall_mem_cons.2 ⟨hn, fun o ho => hspelled o (List.mem_cons_of_mem n ho)⟩
    have hs : s = (unnamed :: later).flatMap encodeMember ++ kind.closer :: behind := by
      rw [hrest]
      simp [unnamed, encodeMember]
    have hnone := readWidth_append (Nat.pow_pos (by decide))
      (startsNot_isDigit_members hlater kind behind)
      fun tail htail => startsNot_isDigit_of_colon hlater kind htail
    rw [encodeWidth, if_pos rfl, List.nil_append, ← hs, hwidth] at hnone
    obtain ⟨-, rfl⟩ := Prod.mk.inj hnone
    obtain ⟨s', s'', hnextName, -, -⟩ := readMember_eq_some.1 hnext
    rw [hs, List.flatMap_cons, List.append_assoc, readMemberName_append (m := unnamed) rfl hn]
      at hnextName
    exact hempty (by simp [← (Prod.mk.inj (Option.some.inj hnextName)).1, unnamed])

/-- Members that are read back one after the other are unambiguous and do not mix. -/
private theorem Recalls.members (ih : Recalls depth) {named : Bool} {kind : AggregateKind}
    {behind : Text} {later : List (Member ObjcType)} {m : Member ObjcType}
    (hwell : ∀ n ∈ m :: later, n.type.isWellFormed = true)
    (hfits : ∀ n ∈ m :: later, memberFits named n = true) {middle : Text}
    (hread : readMember (read depth named)
      (encodeMember m ++ (later.flatMap encodeMember ++ kind.closer :: behind)) =
        some (m, middle)) {fuel : Nat}
    (hmore : readUntil kind.closer (readMember (read depth named)) fuel middle =
      some (later, rest)) :
    (∀ n ∈ m :: later, n.type.isUnambiguous = true) ∧
      hasNoClash (mixes named) (m :: later) = true := by
  induction later generalizing m middle fuel with
  | nil =>
    obtain ⟨s', s'', hname, htype, -⟩ := readMember_eq_some.1 hread
    obtain ⟨hwell, -⟩ := List.forall_mem_cons.1 hwell
    obtain ⟨hfits, -⟩ := List.forall_mem_cons.1 hfits
    simp only [memberFits, Bool.and_eq_true] at hfits
    rw [readMemberName_append hfits.1.1 ((isWellFormed_iff m.type).1 hwell).1] at hname
    obtain ⟨-, rfl⟩ := Prod.mk.inj (Option.some.inj hname)
    have hm := ih named m.type _ s'' hwell htype
    exact ⟨by simpa using hm, rfl⟩
  | cons n later ihList =>
    have hspelled : ∀ o ∈ m :: n :: later, o.type.fitsSyntax = true :=
      fun o ho => ((isWellFormed_iff o.type).1 (hwell o ho)).1
    have hquoteFree : ∀ o ∈ m :: n :: later, isQuoteFree o.name = true ∧ o.width < 2 ^ 63 := by
      intro o ho
      have hfit := hfits o ho
      simp only [memberFits, Bool.and_eq_true, decide_eq_true_eq] at hfit
      exact hfit.1
    obtain ⟨s', s'', hname, htype, hwidth⟩ := readMember_eq_some.1 hread
    rw [List.forall_mem_cons] at hwell hspelled
    rw [readMemberName_append (hquoteFree m List.mem_cons_self).1 hspelled.1] at hname
    obtain ⟨-, rfl⟩ := Prod.mk.inj (Option.some.inj hname)
    have hm := ih named m.type _ s'' hwell.1 htype
    obtain ⟨fuel', left, -, hn, hrest⟩ := item_of_readUntil_cons hmore
    have hno : mixes named m n = false :=
      mixes_eq_false hwell.1 hspelled.2 (hquoteFree n (by simp)).1 htype hwidth hn
    -- so the type and the width of the first member are read up to the next member
    have hfollows := follows_member hspelled.2 hfits (by simpa using hno) kind behind
    have hexact := readsEncoding depth named m.type _ hwell.1 hm (decoded_of_read htype).height_le
      hfollows
    obtain ⟨-, rfl⟩ := Prod.mk.inj (Option.some.inj (htype.symm.trans hexact))
    have hmiddle := readWidth_append (hquoteFree m List.mem_cons_self).2
      (startsNot_isDigit_members hspelled.2 kind behind)
      fun tail htail => startsNot_isDigit_of_colon hspelled.2 kind htail
    rw [hwidth] at hmiddle
    obtain ⟨-, rfl⟩ := Prod.mk.inj hmiddle
    rw [List.flatMap_cons, List.append_assoc] at hn
    obtain ⟨hclear, hapart⟩ := ihList hwell.2 (List.forall_mem_cons.1 hfits).2 hn hrest
    refine ⟨List.forall_mem_cons.2 ⟨hm, hclear⟩, ?_⟩
    rw [hasNoClash, hno, hapart]
    rfl

end Lists

/-- What is read back is unambiguous. The induction is on the depth. -/
theorem isUnambiguous_of_read (depth : Nat) : Recalls depth := by
  induction depth with
  | zero =>
    intro named t behind rest _ h
    cases h
  | succ depth ih =>
    intro named t behind rest hwell hread
    obtain ⟨hspelled, hwell⟩ := (isWellFormed_iff t).1 hwell
    -- a node is unambiguous if its parts can be told apart and are unambiguous themselves
    refine (isUnambiguous_iff t).2 ?_
    cases t with
    | pointer quals elem =>
      have helem := hwell elem (List.mem_singleton.2 rfl)
      rw [read_pointer_append depth named _ hspelled ((isWellFormed_iff elem).1 helem).1] at hread
      obtain ⟨⟨elem', left⟩, hinner, heq⟩ := Option.map_eq_some_iff.1 hread
      obtain ⟨rfl, rfl⟩ : elem' = elem ∧ left = rest := by simpa using heq
      exact ⟨rfl, by simpa [parts] using ih false elem' _ _ helem hinner⟩
    | array quals length elem =>
      have helem := hwell elem (List.mem_singleton.2 rfl)
      rw [read_array_append depth named _ hspelled ((isWellFormed_iff elem).1 helem).1] at hread
      obtain ⟨⟨elem', left⟩, hinner, hmore⟩ := Option.bind_eq_some_iff.1 hread
      dsimp only at hmore
      split at hmore
      · split at hmore
        · obtain ⟨rfl, -⟩ : elem' = elem ∧ _ := by simpa using hmore
          exact ⟨rfl, by simpa [parts] using ih false elem' _ _ helem hinner⟩
        · cases hmore
      · cases hmore
    | aggregate quals kind name members =>
      have hmembers : ∀ m ∈ members, m.type.isWellFormed = true :=
        fun m hm => hwell m.type (List.mem_map_of_mem hm)
      rw [read_aggregate_append depth named _ hspelled
        fun m hm => ((isWellFormed_iff m.type).1 (hmembers m hm)).1] at hread
      obtain ⟨⟨members', left⟩, hlist, heq⟩ := Option.map_eq_some_iff.1 hread
      obtain ⟨rfl, rfl⟩ : members' = members ∧ left = rest := by simpa using heq
      cases members' with
      -- members are compared with their neighbours, so the list must not be empty
      | nil => exact ⟨rfl, by simp [parts]⟩
      | cons m later =>
        simp only [fitsSyntax, Bool.and_eq_true] at hspelled
        obtain ⟨fuel, middle, -, hm, hmore⟩ := item_of_readUntil_cons hlist
        rw [List.flatMap_cons, List.append_assoc] at hm
        obtain ⟨hclear, hapart⟩ :=
          ih.members hmembers (List.all_eq_true.1 hspelled.2) hm hmore
        refine ⟨hapart, fun u hu => ?_⟩
        obtain ⟨n, hn, rfl⟩ := List.mem_map.1 hu
        exact hclear n hn
    | signature quals result params =>
      rw [read_signature_append depth named _ hspelled] at hread
      obtain ⟨⟨result', middle⟩, hresult, hmore⟩ := Option.bind_eq_some_iff.1 hread
      obtain ⟨⟨params', left⟩, hparams, heq⟩ := Option.map_eq_some_iff.1 hmore
      obtain ⟨⟨rfl, rfl⟩, -⟩ : (result' = result ∧ params' = params) ∧ _ := by simpa using heq
      obtain ⟨hclear, hapart⟩ := ih.types hwell hresult hparams
      exact ⟨hapart, hclear⟩
    | _ => exact ⟨rfl, by simp [parts]⟩

/-- A decoded type is read back from its encoding if and only if it is unambiguous. -/
theorem parse_encode_parse_iff {s : Text} (h : (parse s).isUnknown = false) :
    parse (parse s).encode = parse s ↔ (parse s).isUnambiguous = true := by
  obtain ⟨hwell, hheight⟩ := isWellFormed_of_parse h
  generalize parse s = t at h hwell hheight
  constructor
  · intro hparse
    have hknown : ∀ raw, t ≠ .unknown raw := by
      rintro raw rfl
      simp [isUnknown] at h
    have hread := read_of_parse_eq hknown hparse
    rw [← List.append_nil t.encode] at hread
    exact isUnambiguous_of_read maxDepth false t [] [] hwell hread
  · intro hclear
    have hread := readsEncoding maxDepth false t [] hwell hclear hheight (Follows.nil false t)
    rw [List.append_nil] at hread
    simp only [parse, decode, hread, Option.getD_some]

/-- Fields of two classes, one of them without a name, around a bit field. -/
def sampleFields : Text := "\x7bItem=\"owner\"@\"NSString\"\"next\"@\"\"b4\"tail\"^{Item}\x7d"

/-- A class in front of a named field and a plain object in front of an anonymous one come back. -/
theorem parse_encode_parse_sampleFields : (parse sampleFields).isUnknown = false ∧
    parse (parse sampleFields).encode = parse sampleFields := by
  have hknown : (parse sampleFields).isUnknown = false := by decide +kernel
  exact ⟨hknown, (parse_encode_parse_iff hknown).2 (by decide +kernel)⟩

/-- A field of a class in front of an anonymous member. -/
def anonymousMember : Text := "\x7bS=\"obj\"@\"NSString\"\"\"i\x7d"

/-- The class is read back as the name of the anonymous member. -/
theorem parse_encode_ne_of_anonymousMember : (parse anonymousMember).isUnknown = false ∧
    parse (parse anonymousMember).encode ≠ parse anonymousMember := by
  refine ⟨by decide +kernel, ?_⟩
  have hparse : parse anonymousMember = .aggregate [] .struct "S"
      [⟨"obj", .object [] "NSString" [], 0⟩, ⟨[], .primitive [] (byte 'i'), 0⟩] := by rfl
  have hagain : parse (parse anonymousMember).encode = .aggregate [] .struct "S"
      [⟨"obj", .object [] [] [], 0⟩, ⟨"NSString", .primitive [] (byte 'i'), 0⟩] := by rfl
  have hname : Text.ofString "NSString" ≠ [] := by decide
  rw [hagain, hparse]
  simp [hname]

end ObjcType

end ObjcLens
