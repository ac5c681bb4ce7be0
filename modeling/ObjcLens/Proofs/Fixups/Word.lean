import ObjcLens.Proofs.Fixups.Walk

/-!
# Pointers keep their words

A decoded pointer tells where it was found, the word that was there, and the layout by which the
word was decoded. Whatever the layout is, and wherever the pointer stands in its chain, the image
shows this word at this place.

## Main results

* `decodePointer_endsIn`: what a decoded pointer keeps.
* `FollowsChains.exists_link`: every pointer is a link of a chain.
* `FollowsChains.shows`: the words of all pointers are those of the image.
-/

namespace ObjcLens

/-- The number of bytes that a pointer takes. -/
def PointerFormat.size (format : PointerFormat) : Nat := if format.is32 then 4 else 8

/-- The layout of the word of a pointer. -/
def Fixup.format : Fixup → PointerFormat
  | .rebase r => r.format
  | .bind b => b.format

/-- The pointer was decoded from a word at a location. -/
structure Fixup.IsFrom (fixup : Fixup) (format : PointerFormat) (location raw : UInt64) : Prop where
  format_eq : fixup.format = format
  location_eq : fixup.location = location
  raw_eq : fixup.raw = raw

namespace ChainedFixups

variable {order : ByteOrder} {image : ImageReader} {imports : List Import}
  {format : PointerFormat} {location raw : UInt64}

/-- The layouts differ in their fields, but all of them keep the word of a pointer into the
image. -/
theorem PointerWord.ofRaw_endsIn :
    (PointerWord.ofRaw format location raw).EndsIn (fun _ => True) fun decoded =>
      ∀ r, decoded.1 = .rebase r → (Fixup.rebase r).IsFrom format location raw := by
  have hrebase {r : Rebase} (h : (Fixup.rebase r).IsFrom format location raw) (next : UInt64) :
      (.ok (.rebase r, next) : Except FixupError (PointerWord × UInt64)).EndsIn (fun _ => True)
        fun decoded =>
          ∀ r, decoded.1 = .rebase r → (Fixup.rebase r).IsFrom format location raw := by
    rintro _ ⟨⟩
    exact h
  unfold PointerWord.ofRaw
  dsimp only
  -- one step per format, in the order of the tests; a bind says nothing about rebases
  refine .ite (hrebase ⟨rfl, rfl, rfl⟩ _) ?_
  refine .ite (hrebase ⟨rfl, rfl, rfl⟩ _) ?_
  refine .ite (.ite nofun (hrebase ⟨rfl, rfl, rfl⟩ _)) ?_
  refine .ite (.ite nofun (hrebase ⟨rfl, rfl, rfl⟩ _)) ?_
  refine .ite (hrebase ⟨rfl, rfl, rfl⟩ _) (.ite ?_ trivial)
  split
  · exact nofun
  · exact nofun
  · exact hrebase ⟨rfl, rfl, rfl⟩ _
  · exact hrebase ⟨rfl, rfl, rfl⟩ _

/-- A bound pointer keeps its place and its word. -/
theorem bindPointer_endsIn {ordinal : UInt32} {addend : Int} {auth : Bool} :
    (bindPointer imports format location raw ordinal addend auth).EndsIn (fun _ => True)
      fun fixup => fixup.IsFrom format location raw := by
  unfold bindPointer
  split
  · trivial
  · exact ⟨rfl, rfl, rfl⟩

/-- A decoded pointer keeps its word, its place and its layout. -/
theorem decodePointer_endsIn :
    (decodePointer imports format location raw).EndsIn (fun _ => True) fun decoded =>
      decoded.1.IsFrom format location raw := by
  refine PointerWord.ofRaw_endsIn.bind fun ⟨word, next⟩ _ hword => ?_
  cases word with
  | rebase r => exact hword r rfl
  | bind ordinal addend auth => exact bindPointer_endsIn.bind fun _ _ hfixup => hfixup

/-- The image shows the word of a pointer at its place. -/
def Shows (order : ByteOrder) (image : ImageReader) (fixup : Fixup) : Prop :=
  readWord order image fixup.format fixup.location = .ok fixup.raw

/-- A link is found at its location, with a pointer that keeps its word. -/
theorem IsLink.exists_isFrom {fixup : Fixup} {next : UInt64}
    (h : IsLink order image imports format location fixup next) :
    ∃ raw, readWord order image format location = .ok raw ∧ fixup.IsFrom format location raw := by
  obtain ⟨raw, hraw, hdecode⟩ := h
  exact ⟨raw, hraw, decodePointer_endsIn.ok hdecode⟩

/-- A link shows the word that the image has at its place. -/
theorem IsLink.shows {fixup : Fixup} {next : UInt64}
    (h : IsLink order image imports format location fixup next) : Shows order image fixup := by
  obtain ⟨raw, hraw, hformat, hlocation, hword⟩ := h.exists_isFrom
  rw [Shows, hformat, hlocation, hword, hraw]

/-- Every pointer of a chain is one of its links. -/
theorem IsChain.exists_link {chain : List Fixup}
    (h : IsChain order image imports format location chain) :
    ∀ fixup ∈ chain, ∃ place next, IsLink order image imports format place fixup next := by
  induction h with
  | last hlink => simpa using ⟨_, _, hlink⟩
  | link hlink _ _ ih => exact List.forall_mem_cons.2 ⟨⟨_, _, hlink⟩, ih⟩

/-- Every pointer of a page is a link of one of its chains. -/
theorem IsPage.exists_link {segment : SegmentStarts} {starts : List UInt16} {page : Nat}
    {fixups : List Fixup} (h : IsPage order image imports segment starts page fixups) :
    ∀ fixup ∈ fixups, ∃ place next,
      IsLink order image imports segment.format place fixup next := by
  obtain ⟨offsets, chains, -, hchains, rfl⟩ := h
  intro fixup hfixup
  obtain ⟨chain, hchain, hfixup⟩ := List.mem_flatten.1 hfixup
  obtain ⟨offset, -, hoffset⟩ := hchains.flip.exists_of_mem hchain
  exact hoffset.1.exists_link fixup hfixup

/-- Every pointer of a segment is a link, and the segment has page starts. -/
theorem IsSegment.exists_link {segment : SegmentStarts} {fixups : List Fixup}
    (h : IsSegment order image imports segment fixups) :
    ∀ fixup ∈ fixups, segment.starts.isSome = true ∧
      ∃ place next, IsLink order image imports segment.format place fixup next := by
  unfold IsSegment at h
  split at h
  · simp [h]
  · rename_i hstarts
    obtain ⟨pages, hpages, rfl⟩ := h
    intro fixup hfixup
    obtain ⟨page, hpage, hfixup⟩ := List.mem_flatten.1 hfixup
    obtain ⟨index, -, hindex⟩ := hpages.flip.exists_of_mem hpage
    exact ⟨by rw [hstarts]; rfl, IsPage.exists_link hindex fixup hfixup⟩

/-- Every pointer is a link of a chain of some segment. -/
theorem FollowsChains.exists_link {payload : Text} {chained : ChainedFixups}
    (h : FollowsChains order payload image chained) :
    ∀ fixup ∈ chained.fixups.flatten, ∃ segment ∈ chained.segments,
      segment.starts.isSome = true ∧
        ∃ place next, IsLink order image chained.imports segment.format place fixup next := by
  intro fixup hfixup
  obtain ⟨fixups, hfixups, hfixup⟩ := List.mem_flatten.1 hfixup
  obtain ⟨segment, hmem, hsegment⟩ := h.fixups.flip.exists_of_mem hfixups
  exact ⟨segment, hmem, IsSegment.exists_link hsegment fixup hfixup⟩

/-- All pointers of chained fixups have the words that the image shows. -/
theorem FollowsChains.shows {payload : Text} {chained : ChainedFixups}
    (h : FollowsChains order payload image chained) :
    ∀ fixup ∈ chained.fixups.flatten, Shows order image fixup := by
  intro fixup hfixup
  obtain ⟨segment, -, -, place, next, hlink⟩ := h.exists_link fixup hfixup
  exact hlink.shows

end ChainedFixups

end ObjcLens
