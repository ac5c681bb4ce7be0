import Mathlib
import ObjcLens.Proofs.ObjcType.RoundTrip
import ObjcLens.Proofs.ObjcType.Settle

/-!
# What is decoded is well-formed

Whatever the reader makes of a text is a tree whose nodes can be written and read again: its names
were found between marks that they do not hold, and its numbers fit. The class of a member is quoted
only at the end of the member, which the text behind a type has to tell.

## Main results

* `decoded_of_read`: what is read is well-formed and not nested too deep.
* `isWellFormed_of_parse`: a text that can be decoded stands for a well-formed type.
-/

namespace ObjcLens

namespace ObjcType

/-- A number that is read fits. -/
theorem readNumber_lt (s : Text) : (readNumber s).1.getD 0 < 2 ^ 63 := by
  simp only [readNumber]
  split
  · exact Nat.pow_pos (by decide)
  · rename_i hvalue
    simp only [Bool.or_eq_true, decide_eq_true_eq, not_or, Nat.not_le] at hvalue
    exact hvalue.2

/-- A width that is read fits. -/
theorem readWidth_lt (s : Text) : (readWidth s).1 < 2 ^ 63 := by
  unfold readWidth
  split
  · split
    · exact readNumber_lt _
    · exact Nat.pow_pos (by decide)
  · exact Nat.pow_pos (by decide)

/-- Behind quoted text there is no width. -/
theorem readWidth_of_closes {s : Text} (h : ∀ c ∈ s.head?, closesQuoted c = true) :
    (readWidth s).1 = 0 := by
  unfold readWidth
  split
  · rename_i c d rest
    have hc : c ≠ byte ':' := by
      rintro rfl
      exact absurd (h _ rfl) (by decide)
    simp [hc]
  · rfl

section Items

variable {α : Type} {closer : UInt8} {item : Text → Option (α × Text)}

/-- The first item is read from the front, and the others behind it. -/
theorem item_of_readUntil_cons {fuel : Nat} {s : Text} {x : α} {xs : List α} {rest : Text}
    (h : readUntil closer item fuel s = some (x :: xs, rest)) :
    ∃ fuel' middle, s.head? ≠ some closer ∧ item s = some (x, middle) ∧
      readUntil closer item fuel' middle = some (xs, rest) := by
  cases fuel with
  | zero => cases h
  | succ fuel =>
    cases s with
    | nil => cases h
    | cons c s =>
      rw [readUntil] at h
      split at h
      · cases h
      · rename_i hc
        obtain ⟨⟨y, middle⟩, hy, hmore⟩ := Option.bind_eq_some_iff.1 h
        obtain ⟨⟨ys, left⟩, hys, heq⟩ := Option.bind_eq_some_iff.1 hmore
        obtain ⟨hlist, rfl⟩ := Prod.mk.inj (Option.some.inj heq)
        obtain ⟨rfl, rfl⟩ := List.cons.inj hlist
        exact ⟨fuel, middle, by simpa using hc, hy, hys⟩

/-- Every item is read somewhere. -/
theorem forall_mem_of_readUntil {p : α → Prop} (hitem : ∀ s x rest, item s = some (x, rest) → p x)
    {fuel : Nat} {s : Text} {xs : List α} {rest : Text}
    (h : readUntil closer item fuel s = some (xs, rest)) : ∀ x ∈ xs, p x := by
  induction xs generalizing fuel s with
  | nil => simp
  | cons x xs ih =>
    obtain ⟨fuel', middle, -, hx, hxs⟩ := item_of_readUntil_cons h
    exact List.forall_mem_cons.2 ⟨hitem s x middle hx, ih hxs⟩

end Items

/-- A member is its name, its type and its width. -/
theorem readMember_eq_some {readType : Text → Option (ObjcType × Text)} {s : Text}
    {m : Member ObjcType} {rest : Text} :
    readMember readType s = some (m, rest) ↔ ∃ s' s'', readMemberName s = some (m.name, s') ∧
      readType s' = some (m.type, s'') ∧ readWidth s'' = (m.width, rest) := by
  constructor
  · intro h
    obtain ⟨⟨name, s'⟩, hname, hmore⟩ := Option.bind_eq_some_iff.1 h
    obtain ⟨⟨type, s''⟩, htype, heq⟩ := Option.bind_eq_some_iff.1 hmore
    -- the width is read in any case, so it has to be named before the results can be compared
    cases hwidth : readWidth s'' with
    | mk width left =>
      dsimp only at heq
      rw [hwidth] at heq
      obtain ⟨rfl, rfl⟩ := Prod.mk.inj (Option.some.inj heq)
      exact ⟨s', s'', hname, htype, hwidth⟩
  · rintro ⟨s', s'', hname, htype, hwidth⟩
    simp [readMember, hname, htype, hwidth]

/-- Class and protocol names between quotation marks can be written again. -/
theorem objectNames_spec {names : Text} (h : byte '"' ∉ names) :
    isClassName (objectNames names).1 = true ∧
      (objectNames names).2.all isProtocolName = true := by
  have hsep : Text.ofString "><" ≠ [] := by decide
  constructor
  · -- the class ends in front of the first bracket
    have hquote : byte '"' ∉ names.takeWhile (· != byte '<') :=
      fun hmem => h ((List.takeWhile_prefix _).subset hmem)
    have hangle : byte '<' ∉ names.takeWhile (· != byte '<') :=
      fun hmem => by simpa using List.mem_takeWhile_imp hmem
    exact isClassName_iff.2 ⟨hquote, hangle⟩
  · refine List.all_eq_true.2 fun p hp => ?_
    simp only [objectNames, List.mem_filter, List.mem_map] at hp
    obtain ⟨⟨piece, hpiece, rfl⟩, hne⟩ := hp
    obtain ⟨hfree, hwithin⟩ := Text.not_infix_of_mem_splitOnText hsep _ piece hpiece
    have htrim := Text.trim_infix (fun c => c = byte '<' || c = byte '>') piece
    have hends := Text.trim_ends (fun c => c = byte '<' || c = byte '>') piece
    generalize Text.trim (fun c => c = byte '<' || c = byte '>') piece = p at hne htrim hends
    have hquote : byte '"' ∉ p := by
      intro hmem
      exact h ((List.dropWhile_suffix _).subset (hwithin.subset (htrim.subset hmem)))
    -- a separator inside the name would be one inside the piece
    have hno : Text.cutText? "><" p = none := by
      rw [Text.cutText?_eq_none_iff hsep]
      exact fun hmem => hfree (hmem.trans htrim)
    exact isProtocolName_iff.2 ⟨by simpa using hne, hquote, hends.1, hends.2, hno⟩

/-- A type that was read from a text, with what is left of the text. -/
structure Decoded (depth : Nat) (named : Bool) (s : Text) (t : ObjcType) (rest : Text) : Prop where
  wellFormed : t.isWellFormed = true
  height_le : t.height ≤ depth
  /-- Only a question mark is read as one. -/
  question : t.isBareQuestion = true → s.head? = some (byte '?')
  /-- Among named members the quoted class of an object ends the member. -/
  ends : t.isQualifiedObject = true → EndsClass named rest

/-- What is neither an object nor a question mark is decoded if its root and its parts are. -/
private theorem Decoded.of_parts {depth : Nat} {named : Bool} {s : Text} {t : ObjcType}
    {rest : Text} (hspelled : t.fitsSyntax = true)
    (hkind : t.isQualifiedObject = false ∧ t.isBareQuestion = false)
    (hparts : ∀ u ∈ t.parts, u.isWellFormed = true) (hheight : t.height ≤ depth) :
    Decoded depth named s t rest where
  wellFormed := (isWellFormed_iff t).2 ⟨hspelled, hparts⟩
  height_le := hheight
  question h := absurd h (by simp [hkind.2])
  ends h := absurd h (by simp [hkind.1])

private theorem membersHeight_le {members : List (Member ObjcType)} {depth : Nat}
    (h : ∀ m ∈ members, m.type.height ≤ depth) : membersHeight members ≤ depth := by
  induction members with
  | nil => exact Nat.zero_le _
  | cons m rest ih =>
    rw [List.forall_mem_cons] at h
    exact max_le h.1 (ih h.2)

private theorem allHeight_le {types : List ObjcType} {depth : Nat}
    (h : ∀ t ∈ types, t.height ≤ depth) : allHeight types ≤ depth := by
  induction types with
  | nil => exact Nat.zero_le _
  | cons t rest ih =>
    rw [List.forall_mem_cons] at h
    exact max_le h.1 (ih h.2)

section Parts

variable {depth : Nat} {quals : Text} {rest : Text}

/-- What a reader of types one level below gives. -/
private def Decodes (readType : Bool → Text → Option (ObjcType × Text)) (depth : Nat) : Prop :=
  ∀ named s t rest, readType named s = some (t, rest) → Decoded depth named s t rest

variable {readType : Bool → Text → Option (ObjcType × Text)}

/-- A member can be written again. It has a name only if it starts with a quotation mark. -/
private theorem memberFits_of_readMember (ih : Decodes readType depth) {named : Bool} {s : Text}
    {m : Member ObjcType} (h : readMember (readType named) s = some (m, rest)) :
    memberFits named m = true ∧ m.type.isWellFormed = true ∧ m.type.height ≤ depth ∧
      (s.head? ≠ some (byte '"') → m.name.isEmpty = true) := by
  obtain ⟨s', s'', hname, htype, hwidth⟩ := readMember_eq_some.1 h
  have hdecoded := ih named s' m.type s'' htype
  -- the name ends at the first quotation mark, or there is none
  have hread : isQuoteFree m.name = true ∧
      (s.head? ≠ some (byte '"') → m.name.isEmpty = true) := by
    unfold readMemberName at hname
    split at hname
    · split at hname
      · obtain ⟨-, hfree⟩ := Text.eq_append_of_cut? hname
        exact ⟨by simpa [isQuoteFree] using hfree, fun hhead => absurd (by simpa using ‹_›) hhead⟩
      · obtain ⟨hnil, -⟩ := Prod.mk.inj (Option.some.inj hname)
        simp [← hnil, isQuoteFree]
    · obtain ⟨hnil, -⟩ := Prod.mk.inj (Option.some.inj hname)
      simp [← hnil, isQuoteFree]
  have hlt : m.width < 2 ^ 63 := by
    have hlt := readWidth_lt s''
    rwa [hwidth] at hlt
  -- the byte that closes the quoted class of a named member is no colon, so there is no width
  have hzero : named = true → m.type.isQualifiedObject = true → m.width = 0 := by
    intro hnamed hobject
    have hzero := readWidth_of_closes (hdecoded.ends hobject hnamed)
    rwa [hwidth] at hzero
  refine ⟨?_, hdecoded.wellFormed, hdecoded.height_le, hread.2⟩
  simp only [memberFits, Bool.and_eq_true, Bool.or_eq_true, decide_eq_true_eq, Bool.not_eq_true']
  refine ⟨⟨hread.1, hlt⟩, ?_⟩
  cases named with
  | false => exact .inl (.inl rfl)
  | true =>
    cases hobject : m.type.isQualifiedObject with
    | false => exact .inl (.inr rfl)
    | true => exact .inr (hzero rfl hobject)

/-- A struct or union that is read has been decoded from what its fields were decoded from. -/
private theorem decoded_of_readAggregate (ih : Decodes readType depth)
    (hquals : quals.all isQualifier = true) {kind : AggregateKind} {s : Text} {t : ObjcType}
    (h : readAggregate readType quals kind s = some (t, rest)) (named : Bool) (whole : Text) :
    Decoded (depth + 1) named whole t rest := by
  obtain ⟨⟨name, s'⟩, hname, hmore⟩ := Option.bind_eq_some_iff.1 h
  obtain ⟨-, htag, -⟩ := eq_append_of_readTag hname
  dsimp only at hmore
  split at hmore
  · cases hmore
  · rename_i c s'
    split at hmore
    · obtain ⟨rfl, -⟩ := Prod.mk.inj (Option.some.inj hmore)
      exact Decoded.of_parts (by simp [fitsSyntax, hquals, htag]) ⟨rfl, rfl⟩ (by simp [parts])
        (by simp [height])
    · obtain ⟨⟨members, s''⟩, hmembers, heq⟩ := Option.bind_eq_some_iff.1 hmore
      obtain ⟨rfl, -⟩ := Prod.mk.inj (Option.some.inj heq)
      have hall : ∀ m ∈ members, memberFits (s'.head? == some (byte '"')) m = true ∧
          m.type.isWellFormed = true ∧ m.type.height ≤ depth :=
        forall_mem_of_readUntil (fun s m rest hm =>
          have hfits := memberFits_of_readMember ih hm
          ⟨hfits.1, hfits.2.1, hfits.2.2.1⟩) hmembers
      -- the first member has a name only if the text starts with a quotation mark
      have hnamed : startsNamed members = true → s'.head? = some (byte '"') := by
        intro hstarts
        cases members with
        | nil => cases hstarts
        | cons m later =>
          obtain ⟨_, _, -, hm, -⟩ := item_of_readUntil_cons hmembers
          have hno := (memberFits_of_readMember ih hm).2.2.2
          by_contra hhead
          simp [startsNamed, List.isEmpty_iff.1 (hno hhead)] at hstarts
      have hfits : ∀ m ∈ members, memberFits (startsNamed members) m = true := by
        intro m hm
        have hfit := (hall m hm).1
        cases hstarts : startsNamed members with
        | true =>
          rw [hnamed hstarts] at hfit
          exact hfit
        | false =>
          simp only [memberFits, Bool.and_eq_true] at hfit ⊢
          exact ⟨hfit.1, rfl⟩
      refine Decoded.of_parts ?_ ⟨rfl, rfl⟩ ?_ ?_
      · simp only [fitsSyntax, Bool.and_eq_true]
        exact ⟨⟨hquals, htag⟩, List.all_eq_true.2 hfits⟩
      · intro u hu
        obtain ⟨m, hm, rfl⟩ := List.mem_map.1 hu
        exact (hall m hm).2.1
      · exact Nat.succ_le_succ (membersHeight_le fun m hm => (hall m hm).2.2)

/-- A block with a signature has been decoded from the types of its signature. -/
private theorem decoded_of_readBlock (ih : Decodes readType depth)
    (hquals : quals.all isQualifier = true) {s : Text} {t : ObjcType}
    (h : readBlock (readType false) quals s = some (t, rest)) (named : Bool) (whole : Text) :
    Decoded (depth + 1) named whole t rest := by
  have hbare : Decoded (depth + 1) named whole (.block quals) rest :=
    Decoded.of_parts hquals ⟨rfl, rfl⟩ (by simp [parts]) (by simp [height])
  unfold readBlock at h
  split at h
  · split at h
    · obtain ⟨⟨result, s'⟩, hresult, hmore⟩ := Option.bind_eq_some_iff.1 h
      obtain ⟨⟨params, s''⟩, hparams, heq⟩ := Option.bind_eq_some_iff.1 hmore
      obtain ⟨rfl, -⟩ := Prod.mk.inj (Option.some.inj heq)
      have hfirst := ih false _ result s' hresult
      have hothers : ∀ u ∈ params, u.isWellFormed = true ∧ u.height ≤ depth :=
        forall_mem_of_readUntil (fun s u rest hu =>
          have hdecoded := ih false s u rest hu
          ⟨hdecoded.wellFormed, hdecoded.height_le⟩) hparams
      refine Decoded.of_parts hquals ⟨rfl, rfl⟩ ?_ ?_
      · exact List.forall_mem_cons.2 ⟨hfirst.wellFormed, fun u hu => (hothers u hu).1⟩
      · exact Nat.succ_le_succ
          (max_le hfirst.height_le (allHeight_le fun u hu => (hothers u hu).2))
    · obtain ⟨rfl, -⟩ := Prod.mk.inj (Option.some.inj h)
      exact hbare
  · obtain ⟨rfl, -⟩ := Prod.mk.inj (Option.some.inj h)
    exact hbare

/-- A pointer has been decoded when its element was, unless it is a pointer to a function. -/
private theorem decoded_pointer (hquals : quals.all isQualifier = true) {s : Text} {elem : ObjcType}
    (helem : Decoded depth false s elem rest) (hquestion : s.head? ≠ some (byte '?'))
    (named : Bool) (whole : Text) : Decoded (depth + 1) named whole (.pointer quals elem) rest := by
  have hbare : elem.isBareQuestion = false :=
    Bool.eq_false_iff.2 fun hbare => hquestion (helem.question hbare)
  refine Decoded.of_parts (by simp [fitsSyntax, hquals, hbare]) ⟨rfl, rfl⟩ ?_ ?_
  · simpa [parts] using helem.wellFormed
  · exact Nat.succ_le_succ helem.height_le

/-- An array has been decoded from its length and its element. -/
private theorem decoded_of_readArray (ih : Decodes readType depth)
    (hquals : quals.all isQualifier = true) {named : Bool} {s : Text} {t : ObjcType}
    (h : readUnqualified readType named quals (byte '[') s = some (t, rest)) (whole : Text) :
    Decoded (depth + 1) named whole t rest := by
  have hcode : Char.ofUInt8 (byte '[') = '[' := by decide
  have hlength := readNumber_lt s
  simp only [readUnqualified, hcode] at h
  generalize readNumber s = number at h hlength
  obtain ⟨⟨elem, left⟩, helem, hmore⟩ := Option.bind_eq_some_iff.1 h
  have hdecoded := ih false _ elem left helem
  dsimp only at hmore
  split at hmore
  · split at hmore
    · obtain ⟨rfl, -⟩ := Prod.mk.inj (Option.some.inj hmore)
      refine Decoded.of_parts ?_ ⟨rfl, rfl⟩ ?_ ?_
      · simpa [fitsSyntax, hquals] using hlength
      · simpa [parts] using hdecoded.wellFormed
      · exact Nat.succ_le_succ hdecoded.height_le
    · cases hmore
  · cases hmore

/-- The names of an object can be written again. They end the member, if there are any. -/
private theorem readObjectNames_spec (named : Bool) (s : Text) :
    let names := (readObjectNames named s).1
    isClassName names.1 = true ∧ names.2.all isProtocolName = true ∧
      ((names.1.isEmpty && names.2.isEmpty) = false →
        EndsClass named (readObjectNames named s).2) := by
  rcases readObjectNames_cases named s with ⟨names, rest, -, hfree, hends, hread⟩ | ⟨-, hread⟩
  · obtain ⟨hclass, hprotocols⟩ := objectNames_spec hfree
    rw [hread]
    exact ⟨hclass, hprotocols, fun _ => hends⟩
  · rw [hread]
    exact ⟨rfl, rfl, fun h => by simp at h⟩

/-- An object has been decoded from the class and the protocols between its quotation marks. -/
private theorem decoded_object (hquals : quals.all isQualifier = true) (named : Bool)
    (s whole : Text) :
    let object := readObjectNames named s
    Decoded (depth + 1) named whole (.object quals object.1.1 object.1.2) object.2 := by
  obtain ⟨hclass, hprotocols, hends⟩ := readObjectNames_spec named s
  refine ⟨(isWellFormed_iff _).2 ⟨?_, by simp [parts]⟩, by simp [height], ?_, ?_⟩
  · simp only [fitsSyntax, hquals, hclass, hprotocols, Bool.and_self]
  · intro hbare
    simp [isBareQuestion] at hbare
  · intro hobject
    exact hends (by rwa [isQualifiedObject, Bool.not_eq_true'] at hobject)

end Parts

/-- What is read is well-formed and not nested too deep. The induction is on the depth, and the byte
behind the qualifiers selects the case. -/
theorem decoded_of_read {depth : Nat} {named : Bool} {s : Text} {t : ObjcType} {rest : Text}
    (h : read depth named s = some (t, rest)) : Decoded depth named s t rest := by
  induction depth generalizing named s t rest with
  | zero => cases h
  | succ depth ih =>
    have ih : Decodes (read depth) depth := fun _ _ _ _ h => ih h
    -- qualifiers are taken as long as there are any, so all of them are letters of the table
    have hquals : (s.takeWhile isQualifier).all isQualifier = true :=
      List.all_eq_true.2 fun _ hb => List.mem_takeWhile_imp hb
    rw [read] at h
    split at h
    · cases h
    · rename_i code behind hcode
      generalize hrun : s.takeWhile isQualifier = quals at h hquals
      -- one case for each byte that may stand behind the qualifiers
      unfold readUnqualified at h
      split at h
      · split at h
        · obtain ⟨rfl, -⟩ := Prod.mk.inj (Option.some.inj h)
          exact Decoded.of_parts hquals ⟨rfl, rfl⟩ (by simp [parts]) (by simp [height])
        · rename_i hquestion
          obtain ⟨⟨elem, left⟩, helem, heq⟩ := Option.bind_eq_some_iff.1 h
          obtain ⟨rfl, rfl⟩ := Prod.mk.inj (Option.some.inj heq)
          exact decoded_pointer hquals (ih false _ elem left helem) hquestion named s
      · exact decoded_of_readArray ih hquals h s
      · exact decoded_of_readAggregate ih hquals h named s
      · exact decoded_of_readAggregate ih hquals h named s
      · have hlt := readNumber_lt behind
        generalize readNumber behind = number at h hlt
        obtain ⟨value, left⟩ := number
        obtain ⟨bits, rfl, heq⟩ := Option.bind_eq_some_iff.1 h
        obtain ⟨rfl, -⟩ := Prod.mk.inj (Option.some.inj heq)
        exact Decoded.of_parts (by simpa [fitsSyntax, hquals] using hlt) ⟨rfl, rfl⟩
          (by simp [parts]) (by simp [height])
      · split at h
        · exact decoded_of_readBlock ih hquals h named s
        · obtain ⟨rfl, rfl⟩ := Prod.mk.inj (Option.some.inj h)
          exact decoded_object hquals named behind s
      · obtain ⟨rfl, -⟩ := Prod.mk.inj (Option.some.inj h)
        exact Decoded.of_parts hquals ⟨rfl, rfl⟩ (by simp [parts]) (by simp [height])
      · obtain ⟨rfl, -⟩ := Prod.mk.inj (Option.some.inj h)
        exact Decoded.of_parts hquals ⟨rfl, rfl⟩ (by simp [parts]) (by simp [height])
      · split at h
        · rename_i hletter
          obtain ⟨rfl, -⟩ := Prod.mk.inj (Option.some.inj h)
          refine ⟨(isWellFormed_iff _).2 ⟨?_, by simp [parts]⟩, by simp [height], fun hbare => ?_,
            fun hobject => by simp [isQualifiedObject] at hobject⟩
          · simp [fitsSyntax, hquals, hletter]
          · -- without qualifiers the text starts with the letter
            cases quals with
            | cons c quals => simp [isBareQuestion] at hbare
            | nil =>
              rw [← List.takeWhile_append_dropWhile (p := isQualifier) (l := s), hrun, hcode]
              simpa [isBareQuestion] using hbare
        · cases h

/-- A text that can be decoded stands for a well-formed type, which is not nested too deep. -/
theorem isWellFormed_of_parse {s : Text} (h : (parse s).isUnknown = false) :
    (parse s).isWellFormed = true ∧ (parse s).height ≤ maxDepth := by
  cases hread : read maxDepth false s with
  | none => simp [parse, decode, hread, isUnknown] at h
  | some p =>
    obtain ⟨t, - | ⟨c, rest⟩⟩ := p
    · have hparse : parse s = t := by simp only [parse, decode, hread, Option.getD_some]
      have hdecoded := decoded_of_read hread
      rw [hparse]
      exact ⟨hdecoded.wellFormed, hdecoded.height_le⟩
    · simp [parse, decode, hread, isUnknown] at h

end ObjcType

end ObjcLens
