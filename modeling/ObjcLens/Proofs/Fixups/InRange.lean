import Mathlib
import ObjcLens.Proofs.Fixups.Walk

/-!
# Tables are only looked up where they have entries

The payload steers the walk through the chains: it holds the indices at which page starts, imports
and segments are looked up. In `Checked` the walk is written with look-ups that end it where the
table has no entry. It never ends in this way, so that it is the walk itself.

## Main results

* `Checked.parse_eq`: the checked walk ends as the walk does, and never by a look-up.
* `parse_follows_chains`: the walk looks up entries that are there, finds the pointers of the
  chains and nothing else, and fails if a chain is too long.
-/

namespace ObjcLens.ChainedFixups

/-- Why a checked walk ends early: a table has no entry at an index, or the chained fixups have a
fault. -/
inductive Halt where
  | outside
  | fault (e : FixupError)

namespace Checked

/-- The entry of a table at an index. -/
def lookUp {α : Type} (table : List α) (index : Nat) : Except Halt α :=
  match table[index]? with
  | some a => .ok a
  | none => .error .outside

/-- The table with an entry put at an index. -/
def put {α : Type} (table : List α) (index : Nat) (a : α) : Except Halt (List α) :=
  if index < table.length then .ok (table.set index a) else .error .outside

/-- A step that looks up no table. -/
def lift {α : Type} (x : Except FixupError α) : Except Halt α := x.mapError .fault

section Walk

variable (order : ByteOrder) (image : ImageReader) (imports : List Import)

/-- The record of a segment, from its offset in the table of the payload, if it has chains. -/
def segmentRecord? (payload table : Text) (base index : Nat) :
    Except FixupError (Option SegmentStarts) := do
  let offset := order.word32 (table.drop (4 * index))
  if offset = 0 then return none
  else return some (← readSegment order payload index (base + offset.toNat))

/-- The record of a segment is put into the table of the segments. -/
def putRecord (record? : Nat → Except FixupError (Option SegmentStarts))
    (segments : List SegmentStarts) (index : Nat) : Except Halt (List SegmentStarts) := do
  match ← lift (record? index) with
  | none => return segments
  | some segment => put segments index segment

/-- The records of the segments, put one by one into a table that is made beforehand. -/
def readSegments (payload : Text) (header : FixupsHeader) : Except Halt (List SegmentStarts) := do
  let base := header.startsOffset.toNat
  let count := order.word32 (← lift (recordOr .segmentCount payload base 4))
  let table := payload.drop (base + 4)
  if table.length < 4 * count.toNat then throw (.fault (.tooManySegments count))
  (List.range count.toNat).foldlM (putRecord (segmentRecord? order payload table base))
    (List.replicate count.toNat {})

def bindPointer (format : PointerFormat) (location raw : UInt64) (ordinal : UInt32)
    (addend : Int) (auth : Bool) : Except Halt Fixup := do
  if imports.length ≤ ordinal.toNat then throw (.fault (.ordinal ordinal location imports.length))
  let target ← lookUp imports ordinal.toNat
  return .bind {
    location, raw, format, ordinal, auth
    addend := signed64 (wrap64 (addend + target.addend))
    symbol := target.name }

def decodePointer (format : PointerFormat) (location raw : UInt64) :
    Except Halt (Fixup × UInt64) := do
  match ← lift (PointerWord.ofRaw format location raw) with
  | (.rebase r, next) => return (.rebase r, next)
  | (.bind ordinal addend auth, next) =>
    return (← bindPointer imports format location raw ordinal addend auth, next)

def followLinks (format : PointerFormat) (endless : FixupError) : Nat → UInt64 →
    Except Halt (List Fixup)
  | 0, _ => .error (.fault endless)
  | links + 1, location => do
    let raw ← lift (readWord order image format location)
    let (fixup, next) ← decodePointer imports format location raw
    if next = 0 then return [fixup]
    else
      let rest ← followLinks format endless links (location + next * format.stride)
      return fixup :: rest

variable (segments : List SegmentStarts) (segmentIndex page : Nat) (starts : List UInt16)

/-- The segment of a chain is looked up anew for every chain. -/
def followChain (offset : UInt16) : Except Halt (List Fixup) := do
  let segment ← lookUp segments segmentIndex
  followLinks order image imports segment.format (.endless segmentIndex page) segment.maxLinks
    (segment.chainStart page offset)

def followChains (index : Nat) : Except Halt (List Fixup) := do
  if starts.length ≤ index then throw (.fault (.startIndex index segmentIndex))
  else
    let start ← lookUp starts index
    let first ← followChain order image imports segments segmentIndex page (start &&& 0x7FFF)
    if start &&& 0x8000 ≠ 0 then return first
    else return first ++ (← followChains (index + 1))
termination_by starts.length - index

def followPage (format : PointerFormat) : Except Halt (List Fixup) := do
  let start ← lookUp starts page
  if start = 0xFFFF then return []
  else if start &&& 0x8000 ≠ 0 && format.is32 then
    followChains order image imports segments segmentIndex page starts (start &&& 0x7FFF).toNat
  else followChain order image imports segments segmentIndex page start

def followSegment (segment : SegmentStarts) : Except Halt (List Fixup) :=
  match segment.starts with
  | none => .ok []
  | some starts => do
    let pages ← (List.range segment.pageCount.toNat).mapM fun page =>
      followPage order image imports segments segmentIndex page starts segment.format
    return pages.flatten

end Walk

/-- The chained fixups that a payload describes, with all look-ups checked. -/
def parse (order : ByteOrder) (payload : Text) (image : ImageReader) :
    Except Halt ChainedFixups := do
  let header ← lift (readHeader order payload)
  let segments ← readSegments order payload header
  let imports ← lift (readImports order payload header)
  let fixups ← segments.zipIdx.mapM fun (segment, index) =>
    followSegment order image imports segments index segment
  return ⟨imports, segments, fixups⟩

/-! ## No look-up is outside

Each checked function is the unchecked one, lifted: where it looks up a table, a comparison in front
of the look-up, or the shape of the table, says that there is an entry. -/

section Lift

variable {α β : Type}

/-- Steps with a checked index follow each other as those without one do. -/
theorem lift_bind (x : Except FixupError α) (f : α → Except FixupError β) :
    lift (x >>= f) = lift x >>= fun a => lift (f a) := by
  cases x <;> rfl

/-- A list is mapped by lifted steps where its elements are. -/
theorem mapM_eq_lift {f : α → Except FixupError β} {g : α → Except Halt β} {l : List α}
    (h : ∀ a ∈ l, g a = lift (f a)) : l.mapM g = lift (l.mapM f) := by
  induction l with
  | nil => rfl
  | cons a rest ih =>
    have hrest : rest.mapM g = lift (rest.mapM f) :=
      ih fun a ha => h a (List.mem_cons_of_mem _ ha)
    simp only [List.mapM_cons, lift_bind, h a List.mem_cons_self, hrest]
    rfl

@[simp]
theorem lift_pure (a : α) : lift (pure a : Except FixupError α) = pure a := rfl

@[simp]
theorem lift_throw (e : FixupError) : lift (throw e : Except FixupError α) = throw (.fault e) := rfl

theorem lift_ite (c : Prop) [Decidable c] (x y : Except FixupError α) :
    lift (if c then x else y) = if c then lift x else lift y := apply_ite _ _ _ _

end Lift

variable {order : ByteOrder} {image : ImageReader} {imports : List Import}

/-- An import is looked up behind a comparison with their number. -/
theorem bindPointer_eq (format : PointerFormat) (location raw : UInt64) (ordinal : UInt32)
    (addend : Int) (auth : Bool) :
    bindPointer imports format location raw ordinal addend auth =
      lift (ChainedFixups.bindPointer imports format location raw ordinal addend auth) := by
  unfold bindPointer ChainedFixups.bindPointer lookUp
  by_cases h : imports.length ≤ ordinal.toNat
  · rw [if_pos h, List.getElem?_eq_none h]
    rfl
  · rw [if_neg h, List.getElem?_eq_getElem (not_le.1 h)]
    rfl

/-- No import is looked up out of range. -/
theorem decodePointer_eq (format : PointerFormat) (location raw : UInt64) :
    decodePointer imports format location raw =
      lift (ChainedFixups.decodePointer imports format location raw) := by
  rw [decodePointer, ChainedFixups.decodePointer, lift_bind]
  congr 1
  funext ⟨word, next⟩
  cases word with
  | rebase r => rfl
  | bind ordinal addend auth => simp only [lift_bind, bindPointer_eq, lift_pure]

/-- No link of a chain is decoded with an index out of range. -/
theorem followLinks_eq (format : PointerFormat) (endless : FixupError) (links : Nat)
    (location : UInt64) :
    followLinks order image imports format endless links location =
      lift (ChainedFixups.followLinks order image imports format endless links location) := by
  induction links generalizing location with
  | zero => rfl
  | succ links ih =>
    simp only [followLinks, ChainedFixups.followLinks, lift_bind, decodePointer_eq, lift_ite,
      lift_pure, ih]

section Segment

variable {segments : List SegmentStarts} {segmentIndex page : Nat} {starts : List UInt16}
  {segment : SegmentStarts}

/-- A chain looks up the segment that it belongs to. -/
theorem followChain_eq (hsegment : segments[segmentIndex]? = some segment) (offset : UInt16) :
    followChain order image imports segments segmentIndex page offset =
      lift (ChainedFixups.followChain order image imports segment segmentIndex page offset) := by
  rw [followChain, lookUp, hsegment]
  -- nothing is looked up after the segment but imports
  exact followLinks_eq _ _ _ _

/-- A list of starts is compared with its end before each look-up. -/
theorem followChains_eq (hsegment : segments[segmentIndex]? = some segment) (index : Nat) :
    followChains order image imports segments segmentIndex page starts index =
      lift (ChainedFixups.followChains order image imports segment segmentIndex page index
        (starts.drop index)) := by
  rw [followChains]
  by_cases hend : starts.length ≤ index
  · rw [if_pos hend, List.drop_eq_nil_of_le hend]
    rfl
  · rw [if_neg hend, lookUp, List.getElem?_eq_getElem (not_le.1 hend),
      List.drop_eq_getElem_cons (not_le.1 hend), ChainedFixups.followChains, lift_bind]
    have hrest := followChains_eq hsegment (index + 1)
    simp only [followChain_eq hsegment, hrest, lift_ite, lift_bind, lift_pure]
    rfl
termination_by starts.length - index

/-- A page has an entry among the page starts. -/
theorem followPage_eq (hsegment : segments[segmentIndex]? = some segment)
    (hpage : page < starts.length) :
    followPage order image imports segments segmentIndex page starts segment.format =
      lift (ChainedFixups.followPage order image imports segment segmentIndex starts page) := by
  have hentry : starts.getD page 0xFFFF = starts[page] := by
    rw [List.getD_eq_getElem?_getD, List.getElem?_eq_getElem hpage, Option.getD_some]
  rw [followPage, lookUp, List.getElem?_eq_getElem hpage]
  simp only [ChainedFixups.followPage, hentry, lift_ite, followChain_eq hsegment,
    followChains_eq hsegment]
  rfl

/-- In a segment that covers its pages, no page is looked up out of range. -/
theorem followSegment_eq (hsegment : segments[segmentIndex]? = some segment)
    (hcovers : segment.CoversPages) :
    followSegment order image imports segments segmentIndex segment =
      lift (ChainedFixups.followSegment order image imports segmentIndex segment) := by
  unfold followSegment ChainedFixups.followSegment
  cases hstarts : segment.starts with
  | none => rfl
  | some starts =>
    simp only [lift_bind, lift_pure]
    rw [mapM_eq_lift]
    intro page hpage
    exact followPage_eq hsegment ((List.mem_range.1 hpage).trans_le (hcovers starts hstarts))

end Segment

/-- The records in front of an index are there, those from it on are missing. -/
private theorem foldlM_putRecord (record? : Nat → Except FixupError (Option SegmentStarts))
    (done : List SegmentStarts) (count : Nat) :
    (List.range' done.length count).foldlM (putRecord record?)
        (done ++ List.replicate count ({} : SegmentStarts)) =
      lift ((List.range' done.length count).mapM fun index => do
        return (← record? index).getD {}) >>= fun rest => pure (done ++ rest) := by
  induction count generalizing done with
  | zero => simp
  | succ count ih =>
    have hput : putRecord record? (done ++ List.replicate (count + 1) ({} : SegmentStarts))
        done.length = lift (record? done.length) >>= fun found =>
          pure (done ++ [found.getD {}] ++ List.replicate count ({} : SegmentStarts)) := by
      unfold putRecord
      congr 1
      funext found
      cases found with
      | none => simp [List.replicate_succ]
      | some segment =>
        simp [put, List.replicate_succ]
        rfl
    -- the next record moves from those that are missing to those that are there
    rw [List.range'_succ, List.foldlM_cons, hput, List.mapM_cons]
    simp only [lift_bind, lift_pure, bind_assoc, pure_bind]
    congr 1
    funext found
    have hrest := ih (done ++ [found.getD {}])
    rw [List.length_append, List.length_singleton] at hrest
    rw [hrest]
    simp

/-- Each record is put into a place of the table. -/
theorem readSegments_eq (payload : Text) (header : FixupsHeader) :
    readSegments order payload header = lift (ChainedFixups.readSegments order payload header) := by
  unfold readSegments ChainedFixups.readSegments
  simp only [lift_bind, lift_ite, lift_throw]
  congr 1
  funext bytes
  split
  · rfl
  · have hrecord (index : Nat) (table : Text) (base : Nat) :
        (do return (← segmentRecord? order payload table base index).getD {}) =
          if order.word32 (table.drop (4 * index)) = 0 then pure ({} : SegmentStarts)
          else readSegment order payload index
            (base + (order.word32 (table.drop (4 * index))).toNat) := by
      unfold segmentRecord?
      by_cases habsent : order.word32 (table.drop (4 * index)) = 0 <;> simp [habsent]
    -- writing record after record into a table of empty ones gives the list of them
    have hfold := foldlM_putRecord (segmentRecord? order payload
      (payload.drop (header.startsOffset.toNat + 4)) header.startsOffset.toNat) []
      (order.word32 bytes).toNat
    simp only [List.nil_append, List.length_nil, hrecord, ← List.range_eq_range'] at hfold
    rw [hfold]
    simp

/-- No look-up of a walk is outside of its table: the walk ends as it does without checks. -/
theorem parse_eq (payload : Text) :
    parse order payload image = lift (ChainedFixups.parse order payload image) := by
  unfold parse ChainedFixups.parse
  simp only [lift_bind, lift_pure, readSegments_eq]
  congr 1
  funext header
  cases hsegments : ChainedFixups.readSegments order payload header with
  | error e => rfl
  | ok segments =>
    have hok : lift (.ok segments) = (pure segments : Except Halt (List SegmentStarts)) := rfl
    simp only [hok, pure_bind]
    congr 1
    funext imports
    rw [mapM_eq_lift]
    intro pair hpair
    -- a segment is walked with the starts that were read for its own index
    have hentry : segments[pair.2]? = some pair.1 := List.mem_zipIdx_iff_getElem?.1 hpair
    exact followSegment_eq hentry (readSegments_covers hsegments _ (List.mem_of_getElem? hentry))

end Checked

/-- The walk looks up entries that are there. It ends with the pointers of the chains if there are
such pointers, and with a fault otherwise, among others if a chain has too many links. -/
theorem parse_follows_chains (order : ByteOrder) (payload : Text) (image : ImageReader) :
    Checked.parse order payload image = Checked.lift (parse order payload image) ∧
      (∀ chained, parse order payload image = .ok chained ↔
        FollowsChains order payload image chained) ∧
      (HasLongChain order payload image → ∀ chained, parse order payload image ≠ .ok chained) := by
  refine ⟨Checked.parse_eq payload, fun chained => parse_eq_ok_iff, ?_⟩
  intro hlong chained hparse
  exact hlong.not_followsChains (parse_eq_ok_iff.1 hparse)

/-- A payload with one segment of one page, which has a chain at its start. A page of no bytes
allows for two links. -/
private def onePage : Text :=
  let words (ns : List UInt32) := ns.flatMap ByteOrder.little.bytes32
  let halves (ns : List UInt16) := ns.flatMap fun n => ByteOrder.little.bytes 2 n.toNat
  words [0, 28, 0, 0, 0, 1, 0] ++ words [1, 8] ++ words [24] ++ halves [0, 2] ++ words [0, 0, 0] ++
    halves [1, 0]

/-- An image that shows the same word everywhere. -/
private def everywhere (word : UInt64) : ImageReader := fun _ _ =>
  .ok (ByteOrder.little.bytes64 word)

/-- The word leads to the one behind it, and so does that. -/
theorem parse_everywhere :
    HasLongChain .little onePage (everywhere 0x0008000000000000) ∧
      ∀ chained, parse .little onePage (everywhere 0x0008000000000000) ≠ .ok chained := by
  have hlong : HasLongChain .little onePage (everywhere 0x0008000000000000) := by
    refine ⟨⟨0, 28, 0, 0, 0, 1, 0⟩, [⟨24, 0, 2, 0, 0, 1, some [0]⟩], [], by decide +kernel,
      by decide +kernel, by decide +kernel, _, List.mem_singleton_self _, [0], rfl, 0, by decide,
      [0], .one rfl (by decide) (by simp [IsSeveral]), 0, List.mem_singleton_self _, ?_⟩
    have hlink (location : UInt64) : IsLink .little (everywhere 0x0008000000000000) [] 2 location
        (.rebase ⟨location, 0x0008000000000000, 2, 0, true, 0, false, 0, 0⟩) 1 :=
      ⟨0x0008000000000000, rfl, rfl⟩
    exact .succ (hlink _) (by decide) (.succ (hlink _) (by decide) (.zero _))
  exact ⟨hlong, (parse_follows_chains .little onePage _).2.2 hlong⟩

end ObjcLens.ChainedFixups
