import Mathlib
import ObjcLens.Fixups.Chain
import ObjcLens.Proofs.Except

/-!
# What the chains of a payload are

`IsChain` says which pointers a chain consists of, one link after the other, without a bound on
their number. From it `FollowsChains` builds what chained fixups should be: for every segment the
chains of its pages, in the order of the pages and of the starts on a page. The walk through the
chains finds just that, and fails if a chain has more links than the bound allows.

## Main results

* `followLinks_eq_ok_iff`: the walk along one chain.
* `followPage_eq_ok_iff`, `followSegment_eq_ok_iff`: the walk through a page and a segment.
* `parse_eq_ok_iff`: the walk through all segments.
-/

namespace ObjcLens

/-- The location of a chain that starts at an offset of a page. -/
def SegmentStarts.chainStart (segment : SegmentStarts) (page : Nat) (offset : UInt16) : UInt64 :=
  segment.segmentOffset + page.toUInt64 * segment.pageSize.toUInt64 + offset.toUInt64

/-- The most links that a chain of a segment may have. -/
def SegmentStarts.maxLinks (segment : SegmentStarts) : Nat := segment.pageSize.toNat + 2

/-- Every page of the segment has an entry among the page starts. -/
def SegmentStarts.CoversPages (segment : SegmentStarts) : Prop :=
  ∀ starts, segment.starts = some starts → segment.pageCount.toNat ≤ starts.length

namespace ChainedFixups

/-- The entry of the page starts stands for several chains, whose starts are listed elsewhere. -/
def IsSeveral (format : PointerFormat) (start : UInt16) : Prop :=
  start &&& 0x8000 ≠ 0 ∧ format.is32 = true

/-- The offsets that a list of starts gives, up to the entry that has its upper bit set. -/
inductive IsListed : List UInt16 → List UInt16 → Prop
  | last {start : UInt16} {rest : List UInt16} (h : start &&& 0x8000 ≠ 0) :
      IsListed (start :: rest) [start &&& 0x7FFF]
  | next {start : UInt16} {rest offsets : List UInt16} (h : start &&& 0x8000 = 0)
      (hrest : IsListed rest offsets) : IsListed (start :: rest) ((start &&& 0x7FFF) :: offsets)

/-- The offsets in a page at which its chains start. Those of a page with several chains are listed
from an index of the page starts on. -/
inductive StartsAt (format : PointerFormat) (starts : List UInt16) (page : Nat) :
    List UInt16 → Prop
  | none (h : starts[page]? = some 0xFFFF) : StartsAt format starts page []
  | one {start : UInt16} (h : starts[page]? = some start) (hpresent : start ≠ 0xFFFF)
      (hone : ¬ IsSeveral format start) : StartsAt format starts page [start]
  | several {start : UInt16} {offsets : List UInt16} (h : starts[page]? = some start)
      (hpresent : start ≠ 0xFFFF) (hseveral : IsSeveral format start)
      (hlisted : IsListed (starts.drop (start &&& 0x7FFF).toNat) offsets) :
      StartsAt format starts page offsets

section Walk

variable (order : ByteOrder) (image : ImageReader) (imports : List Import)

/-- The word at a location is a pointer of a chain, with a distance to the next one. -/
def IsLink (format : PointerFormat) (location : UInt64) (fixup : Fixup) (next : UInt64) : Prop :=
  ∃ raw, readWord order image format location = .ok raw ∧
    decodePointer imports format location raw = .ok (fixup, next)

/-- The pointers of a chain from a location on. -/
inductive IsChain (format : PointerFormat) : UInt64 → List Fixup → Prop
  | last {location : UInt64} {fixup : Fixup}
      (h : IsLink order image imports format location fixup 0) : IsChain format location [fixup]
  | link {location next : UInt64} {fixup : Fixup} {rest : List Fixup}
      (h : IsLink order image imports format location fixup next) (hnext : next ≠ 0)
      (hrest : IsChain format (location + next * format.stride) rest) :
      IsChain format location (fixup :: rest)

/-- The chain from a location on does not end within a number of links. -/
inductive GoesOn (format : PointerFormat) : Nat → UInt64 → Prop
  | zero (location : UInt64) : GoesOn format 0 location
  | succ {links : Nat} {location next : UInt64} {fixup : Fixup}
      (h : IsLink order image imports format location fixup next) (hnext : next ≠ 0)
      (hrest : GoesOn format links (location + next * format.stride)) :
      GoesOn format (links + 1) location

/-- The pointers of a chain of a page, which must not have too many links. -/
def IsChainOf (segment : SegmentStarts) (page : Nat) (offset : UInt16) (chain : List Fixup) :
    Prop :=
  IsChain order image imports segment.format (segment.chainStart page offset) chain ∧
    chain.length ≤ segment.maxLinks

/-- The pointers of a page: one chain after the other. -/
def IsPage (segment : SegmentStarts) (starts : List UInt16) (page : Nat) (fixups : List Fixup) :
    Prop :=
  ∃ offsets chains, StartsAt segment.format starts page offsets ∧
    List.Forall₂ (IsChainOf order image imports segment page) offsets chains ∧
    fixups = chains.flatten

/-- The pointers of a segment: one page after the other. -/
def IsSegment (segment : SegmentStarts) (fixups : List Fixup) : Prop :=
  match segment.starts with
  | none => fixups = []
  | some starts => ∃ pages,
      List.Forall₂ (IsPage order image imports segment starts)
        (List.range segment.pageCount.toNat) pages ∧
      fixups = pages.flatten

end Walk

/-- The chained fixups are those that a payload describes: their tables are read from it, and the
pointers of every segment are those of its chains. -/
structure FollowsChains (order : ByteOrder) (payload : Text) (image : ImageReader)
    (chained : ChainedFixups) : Prop where
  tables : ∃ header, readHeader order payload = .ok header ∧
    readSegments order payload header = .ok chained.segments ∧
    readImports order payload header = .ok chained.imports
  fixups : List.Forall₂ (IsSegment order image chained.imports) chained.segments chained.fixups

/-- A page of the payload has a chain with more links than it may have, or one without an end. -/
def HasLongChain (order : ByteOrder) (payload : Text) (image : ImageReader) : Prop :=
  ∃ header segments imports, readHeader order payload = .ok header ∧
    readSegments order payload header = .ok segments ∧
    readImports order payload header = .ok imports ∧
    ∃ segment ∈ segments, ∃ starts, segment.starts = some starts ∧
      ∃ page < segment.pageCount.toNat, ∃ offsets, StartsAt segment.format starts page offsets ∧
        ∃ offset ∈ offsets, GoesOn order image imports segment.format segment.maxLinks
          (segment.chainStart page offset)

/-! ## Only one way to read the starts of a page -/

/-- A list of page starts names one list of offsets. -/
theorem IsListed.unique {listed offsets offsets' : List UInt16} (h : IsListed listed offsets)
    (h' : IsListed listed offsets') : offsets = offsets' := by
  induction h generalizing offsets' with
  | last hlast =>
    cases h' with
    | last => rfl
    | next hnext => exact absurd hnext hlast
  | next hnext _ ih =>
    cases h' with
    | last hlast => exact absurd hnext hlast
    | next _ hrest => rw [ih hrest]

/-- The page starts tell at which offsets the chains of a page start. -/
theorem StartsAt.unique {format : PointerFormat} {starts offsets offsets' : List UInt16}
    {page : Nat} (h : StartsAt format starts page offsets)
    (h' : StartsAt format starts page offsets') : offsets = offsets' := by
  -- the entry of the page says which of the three cases it is
  cases h with
  | none h =>
    cases h' with
    | none => rfl
    | one h' hpresent => exact absurd (Option.some.inj (h'.symm.trans h)) hpresent
    | several h' hpresent => exact absurd (Option.some.inj (h'.symm.trans h)) hpresent
  | one h hpresent hone =>
    cases h' with
    | none h' => exact absurd (Option.some.inj (h.symm.trans h')) hpresent
    | one h' => rw [Option.some.inj (h.symm.trans h')]
    | several h' _ hseveral =>
      obtain rfl := Option.some.inj (h.symm.trans h')
      exact absurd hseveral hone
  | several h hpresent hseveral hlisted =>
    cases h' with
    | none h' => exact absurd (Option.some.inj (h.symm.trans h')) hpresent
    | one h' _ hone =>
      obtain rfl := Option.some.inj (h.symm.trans h')
      exact absurd hseveral hone
    | several h' _ _ hlisted' =>
      obtain rfl := Option.some.inj (h.symm.trans h')
      exact hlisted.unique hlisted'

variable {order : ByteOrder} {image : ImageReader} {imports : List Import}

/-! ## The walk finds the chains -/

section Chain

variable {format : PointerFormat} {location : UInt64}

/-- A link is decoded in one way only. -/
theorem IsLink.unique {fixup fixup' : Fixup} {next next' : UInt64}
    (h : IsLink order image imports format location fixup next)
    (h' : IsLink order image imports format location fixup' next') :
    fixup = fixup' ∧ next = next' := by
  obtain ⟨raw, hraw, hdecode⟩ := h
  obtain ⟨raw', hraw', hdecode'⟩ := h'
  obtain rfl := Except.ok.inj (hraw.symm.trans hraw')
  exact Prod.mk.inj (Except.ok.inj (hdecode.symm.trans hdecode'))

/-- The walk along a chain finds its pointers, if they are not more than the bound. -/
theorem followLinks_eq_ok_iff {endless : FixupError} {links : Nat} {fixups : List Fixup} :
    followLinks order image imports format endless links location = .ok fixups ↔
      IsChain order image imports format location fixups ∧ fixups.length ≤ links := by
  induction links generalizing location fixups with
  | zero =>
    constructor
    · rintro ⟨⟩
    · rintro ⟨hchain, hlength⟩
      cases hchain <;> simp at hlength
  | succ links ih =>
    rw [followLinks]
    constructor
    · intro h
      obtain ⟨raw, hraw, h⟩ := Except.bind_eq_ok_iff.1 h
      obtain ⟨⟨fixup, next⟩, hdecode, h⟩ := Except.bind_eq_ok_iff.1 h
      have hlink : IsLink order image imports format location fixup next := ⟨raw, hraw, hdecode⟩
      -- every link takes one from the bound, also the last one
      by_cases hnext : next = 0
      · subst hnext
        obtain rfl := Except.ok.inj h
        exact ⟨.last hlink, by simp⟩
      · simp only [if_neg hnext] at h
        obtain ⟨rest, hrest, h⟩ := Except.bind_eq_ok_iff.1 h
        obtain rfl := Except.ok.inj h
        obtain ⟨hchain, hlength⟩ := ih.1 hrest
        exact ⟨.link hlink hnext hchain, by simpa using hlength⟩
    · rintro ⟨hchain, hlength⟩
      cases hchain with
      | last hlink =>
        obtain ⟨raw, hraw, hdecode⟩ := hlink
        refine Except.bind_eq_ok_iff.2 ⟨raw, hraw, Except.bind_eq_ok_iff.2 ⟨_, hdecode, ?_⟩⟩
        rfl
      | link hlink hnext hrest =>
        obtain ⟨raw, hraw, hdecode⟩ := hlink
        refine Except.bind_eq_ok_iff.2 ⟨raw, hraw, Except.bind_eq_ok_iff.2 ⟨_, hdecode, ?_⟩⟩
        simp only [if_neg hnext]
        exact Except.bind_eq_ok_iff.2 ⟨_, ih.2 ⟨hrest, by simpa using hlength⟩, rfl⟩

/-- A chain that goes on has more links. -/
theorem GoesOn.lt_length {links : Nat} {fixups : List Fixup}
    (h : GoesOn order image imports format links location)
    (hchain : IsChain order image imports format location fixups) : links < fixups.length := by
  induction h generalizing fixups with
  | zero location =>
    cases hchain <;> simp
  | succ hlink hnext _ ih =>
    cases hchain with
    | last hlast => exact absurd (hlink.unique hlast).2 hnext
    | link hlink' _ hrest =>
      obtain ⟨-, rfl⟩ := hlink.unique hlink'
      simpa using ih hrest

end Chain

section Page

variable {segment : SegmentStarts} {page segmentIndex : Nat}

/-- The walk along a chain of a page. -/
theorem followChain_eq_ok_iff {offset : UInt16} {chain : List Fixup} :
    followChain order image imports segment segmentIndex page offset = .ok chain ↔
      IsChainOf order image imports segment page offset chain :=
  followLinks_eq_ok_iff

/-- The walk through a list of starts follows the chains up to the last one. -/
theorem followChains_eq_ok_iff {index : Nat} {listed : List UInt16} {fixups : List Fixup} :
    followChains order image imports segment segmentIndex page index listed = .ok fixups ↔
      ∃ offsets chains, IsListed listed offsets ∧
        List.Forall₂ (IsChainOf order image imports segment page) offsets chains ∧
        fixups = chains.flatten := by
  induction listed generalizing index fixups with
  | nil =>
    constructor
    · rintro ⟨⟩
    · rintro ⟨offsets, chains, ⟨⟩, -⟩
  | cons start rest ih =>
    rw [followChains]
    constructor
    · intro h
      obtain ⟨first, hfirst, h⟩ := Except.bind_eq_ok_iff.1 h
      rw [followChain_eq_ok_iff] at hfirst
      split at h
      · rename_i hlast
        obtain rfl := Except.ok.inj h
        exact ⟨_, [first], .last hlast, .cons hfirst .nil, by simp⟩
      · rename_i hlast
        obtain ⟨others, hothers, h⟩ := Except.bind_eq_ok_iff.1 h
        obtain rfl := Except.ok.inj h
        obtain ⟨offsets, chains, hlisted, hchains, rfl⟩ := ih.1 hothers
        exact ⟨_, first :: chains, .next (not_not.1 hlast) hlisted, .cons hfirst hchains, by simp⟩
    · rintro ⟨offsets, chains, hlisted, hchains, rfl⟩
      cases hlisted with
      | last hlast =>
        obtain ⟨first, chains, hfirst, hnil, rfl⟩ := List.forall₂_cons_left_iff.1 hchains
        obtain rfl := List.forall₂_nil_left_iff.1 hnil
        refine Except.bind_eq_ok_iff.2 ⟨first, followChain_eq_ok_iff.2 hfirst, ?_⟩
        rw [if_pos hlast]
        simp [pure, Except.pure]
      | next hnext hlisted =>
        obtain ⟨first, chains, hfirst, hothers, rfl⟩ := List.forall₂_cons_left_iff.1 hchains
        refine Except.bind_eq_ok_iff.2 ⟨first, followChain_eq_ok_iff.2 hfirst, ?_⟩
        rw [if_neg (not_not.2 hnext)]
        exact Except.bind_eq_ok_iff.2 ⟨_, ih.2 ⟨_, chains, hlisted, hothers, rfl⟩, rfl⟩

/-- The walk through a page that has an entry among the page starts. -/
theorem followPage_eq_ok_iff {starts : List UInt16} (hpage : page < starts.length)
    {fixups : List Fixup} :
    followPage order image imports segment segmentIndex starts page = .ok fixups ↔
      IsPage order image imports segment starts page fixups := by
  obtain ⟨start, hstart⟩ : ∃ start, starts[page]? = some start :=
    ⟨_, List.getElem?_eq_getElem hpage⟩
  have hentry : starts.getD page 0xFFFF = start := by
    rw [List.getD_eq_getElem?_getD, hstart, Option.getD_some]
  simp only [followPage, hentry]
  constructor
  · intro h
    split at h
    · rename_i hnone
      obtain rfl := Except.ok.inj h
      exact ⟨[], [], .none (hnone ▸ hstart), .nil, rfl⟩
    · rename_i hpresent
      split at h
      · rename_i hseveral
        obtain ⟨offsets, chains, hlisted, hchains, rfl⟩ := followChains_eq_ok_iff.1 h
        have hseveral' : IsSeveral segment.format start := by simpa [IsSeveral] using hseveral
        exact ⟨offsets, chains, .several hstart hpresent hseveral' hlisted, hchains, rfl⟩
      · rename_i hone
        exact ⟨[start], [fixups], .one hstart hpresent (by simpa [IsSeveral] using hone),
          .cons (followChain_eq_ok_iff.1 h) .nil, by simp⟩
  · rintro ⟨offsets, chains, hoffsets, hchains, rfl⟩
    -- the page has just one entry among the starts, which decides between the cases
    have hsame {start' : UInt16} (h : starts[page]? = some start') : start' = start :=
      Option.some.inj (h.symm.trans hstart)
    cases hoffsets with
    | none h =>
      obtain rfl := List.forall₂_nil_left_iff.1 hchains
      rw [if_pos (hsame h).symm]
      rfl
    | one h hpresent hone =>
      obtain rfl := hsame h
      obtain ⟨chain, chains, hchain, hnil, rfl⟩ := List.forall₂_cons_left_iff.1 hchains
      obtain rfl := List.forall₂_nil_left_iff.1 hnil
      rw [if_neg hpresent, if_neg (by simpa [IsSeveral] using hone)]
      simpa using followChain_eq_ok_iff.2 hchain
    | several h hpresent hseveral hlisted =>
      obtain rfl := hsame h
      rw [if_neg hpresent, if_pos (by simpa [IsSeveral] using hseveral)]
      exact followChains_eq_ok_iff.2 ⟨offsets, chains, hlisted, hchains, rfl⟩

end Page

section Segments

/-- The walk through a segment whose pages all have an entry among the page starts. -/
theorem followSegment_eq_ok_iff {segment : SegmentStarts} {segmentIndex : Nat}
    (hcovers : segment.CoversPages) {fixups : List Fixup} :
    followSegment order image imports segmentIndex segment = .ok fixups ↔
      IsSegment order image imports segment fixups := by
  unfold followSegment IsSegment
  cases hstarts : segment.starts with
  | none =>
    constructor
    · rintro ⟨⟩
      rfl
    · rintro rfl
      rfl
  | some starts =>
    -- a page is followed as its own relation says, since the table covers the page
    have hpages (pages : List (List Fixup)) :
        (List.range segment.pageCount.toNat).mapM
            (followPage order image imports segment segmentIndex starts) = .ok pages ↔
          List.Forall₂ (IsPage order image imports segment starts)
            (List.range segment.pageCount.toNat) pages := by
      apply Except.mapM_eq_ok_iff
      intro page hpage fixups
      exact followPage_eq_ok_iff ((List.mem_range.1 hpage).trans_le (hcovers starts hstarts))
    simp only [Except.bind_eq_ok_iff, hpages]
    constructor
    · rintro ⟨pages, h, ⟨⟩⟩
      exact ⟨pages, h, rfl⟩
    · rintro ⟨pages, h, rfl⟩
      exact ⟨pages, h, rfl⟩

/-- A segment that is read has an entry for every page its header counts. -/
private theorem readSegment_covers {payload : Text} {index offset : Nat} {segment : SegmentStarts}
    (h : readSegment order payload index offset = .ok segment) : segment.CoversPages := by
  obtain ⟨bytes, -, h⟩ := Except.bind_eq_ok_iff.1 h
  dsimp only at h
  split at h
  · cases h
  · obtain rfl := Except.ok.inj h
    rintro _ ⟨⟩
    simp

/-- There are at least as many page starts as pages. -/
theorem readSegments_covers {payload : Text} {header : FixupsHeader}
    {segments : List SegmentStarts} (h : readSegments order payload header = .ok segments) :
    ∀ segment ∈ segments, segment.CoversPages := by
  obtain ⟨bytes, -, h⟩ := Except.bind_eq_ok_iff.1 h
  dsimp only at h
  split at h
  · cases h
  · intro segment hsegment
    obtain ⟨index, -, hread⟩ := Except.exists_of_mem_mapM h hsegment
    split at hread
    · obtain rfl := Except.ok.inj hread
      rintro _ ⟨⟩
    · exact readSegment_covers hread

/-- Chained fixups are parsed if and only if they follow the chains of the payload. -/
theorem parse_eq_ok_iff {payload : Text} {chained : ChainedFixups} :
    parse order payload image = .ok chained ↔ FollowsChains order payload image chained := by
  -- the index of a segment only goes into errors
  have hfixups {segments : List SegmentStarts} {header : FixupsHeader} {imports : List Import}
      (hsegments : readSegments order payload header = .ok segments) (fixups : List (List Fixup)) :
      (segments.zipIdx.mapM fun pair =>
          followSegment order image imports pair.2 pair.1) = .ok fixups ↔
        List.Forall₂ (IsSegment order image imports) segments fixups := by
    have hsegment : ∀ pair ∈ segments.zipIdx, ∀ fixups,
        followSegment order image imports pair.2 pair.1 = .ok fixups ↔
          IsSegment order image imports pair.1 fixups := by
      intro pair hpair fixups
      apply followSegment_eq_ok_iff
      exact readSegments_covers hsegments _ (List.fst_mem_of_mem_zipIdx hpair)
    rw [Except.mapM_eq_ok_iff hsegment]
    conv_rhs => rw [← List.zipIdx_map_fst 0 segments]
    rw [List.forall₂_map_left_iff]
  unfold parse
  simp only [Except.bind_eq_ok_iff]
  constructor
  · rintro ⟨header, hheader, segments, hsegments, imports, himports, fixups, h, ⟨⟩⟩
    exact ⟨⟨header, hheader, hsegments, himports⟩, (hfixups hsegments fixups).1 h⟩
  · rintro ⟨⟨header, hheader, hsegments, himports⟩, h⟩
    exact ⟨header, hheader, _, hsegments, _, himports, _, (hfixups hsegments _).2 h, rfl⟩

/-- A payload with a chain of too many links has no chained fixups. -/
theorem HasLongChain.not_followsChains {payload : Text} {chained : ChainedFixups}
    (h : HasLongChain order payload image) : ¬ FollowsChains order payload image chained := by
  rintro ⟨⟨header', hheader', hsegments', himports'⟩, hfixups⟩
  obtain ⟨header, segments, imports, hheader, hsegments, himports, segment, hsegment, starts,
    hstarts, page, hpage, offsets, hoffsets, offset, hoffset, hlong⟩ := h
  obtain rfl := Except.ok.inj (hheader.symm.trans hheader')
  obtain rfl := Except.ok.inj (hsegments.symm.trans hsegments')
  obtain rfl := Except.ok.inj (himports.symm.trans himports')
  obtain ⟨fixups, -, hpages⟩ := hfixups.exists_of_mem hsegment
  rw [IsSegment, hstarts] at hpages
  obtain ⟨pages, hpages, -⟩ := hpages
  obtain ⟨fixups, -, offsets', chains, hoffsets', hchains, -⟩ :=
    hpages.exists_of_mem (List.mem_range.2 hpage)
  obtain rfl := hoffsets.unique hoffsets'
  obtain ⟨chain, -, hchain, hlength⟩ := hchains.exists_of_mem hoffset
  exact absurd (hlong.lt_length hchain) (not_lt.2 hlength)

end Segments

end ChainedFixups
end ObjcLens
