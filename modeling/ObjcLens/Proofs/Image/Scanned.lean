import ObjcLens.Proofs.Image.InRange
import ObjcLens.Proofs.Image.Written

/-!
# Load commands and sections leave no gaps

The load commands of an image fill the start of the block behind the header, one command behind the
other. Each segment command lists sections and tells how many were listed in front of it, so that
the sections of the image are those of its segments, one segment behind the other. All of this comes
from scanning the block: every command takes its bytes from the block and adds its sections, and the
command behind it starts where it has ended.

## Main results

* `Scans.forall_isFramed`, `Scans.flatten_raw_prefix`: what scanning a block takes from it.
* `Scans.isTiling`: the sections that the segments list.
* `ofSlice_partitions`: what is known of a slice that is opened, and of one that is not.
-/

namespace ObjcLens

namespace Load

/-- The segments that load commands describe. -/
def segments (loads : List Load) : List Segment :=
  loads.filterMap fun load => match load.body with
    | .segment s => some s
    | _ => none

/-- The number of sections that segments list. -/
def sectionTotal (segments : List Segment) : Nat := (segments.map (·.sectionCount.toNat)).sum

/-- Each segment has the sections of those in front of it before its own ones, and some further
ones, and all of them together list a number of sections. -/
structure IsTiling (first : Nat) (segments : List Segment) (count : Nat) : Prop where
  first_eq : ∀ k s, segments[k]? = some s →
    s.firstSection.toNat = first + sectionTotal (segments.take k)
  total_eq : sectionTotal segments = count

variable {order : ByteOrder} {first : Nat} {place : Int} {block : Text} {load : Load}
  {loads : List Load} {sections listed : List Section}

theorem segments_cons_of_segment {s : Segment} (h : load.body = .segment s) :
    segments (load :: loads) = s :: segments loads :=
  List.filterMap_cons_some (by simp only [h])

theorem segments_cons_of_other (h : ∀ s, load.body ≠ .segment s) :
    segments (load :: loads) = segments loads := by
  refine List.filterMap_cons_none ?_
  split
  · rename_i s hbody
    exact absurd hbody (h s)
  · rfl

theorem sectionTotal_cons (s : Segment) (rest : List Segment) :
    sectionTotal (s :: rest) = s.sectionCount.toNat + sectionTotal rest := by
  rw [sectionTotal, List.map_cons, List.sum_cons, sectionTotal]

/-- The sections of two lists of segments are counted together. -/
theorem sectionTotal_append (front back : List Segment) :
    sectionTotal (front ++ back) = sectionTotal front + sectionTotal back := by
  rw [sectionTotal, List.map_append, List.sum_append, sectionTotal, sectionTotal]

/-! ## One command after the other -/

/-- A segment in front of others lists the first sections. -/
theorem IsTiling.cons {s : Segment} {rest : List Segment} {count : Nat}
    (hfirst : s.firstSection.toNat = first)
    (h : IsTiling (first + s.sectionCount.toNat) rest count) :
    IsTiling first (s :: rest) (s.sectionCount.toNat + count) := by
  refine ⟨fun k t ht => ?_, by rw [sectionTotal_cons, h.total_eq]⟩
  cases k with
  | zero =>
    obtain rfl : s = t := by simpa using ht
    exact hfirst
  | succ k =>
    rw [List.getElem?_cons_succ] at ht
    rw [h.first_eq k t ht, List.take_succ_cons, sectionTotal_cons]
    omega

/-- Every command has its own bytes, which state its code and its size. -/
theorem Scans.forall_isFramed (h : Scans order first place block loads sections) :
    ∀ load ∈ loads, IsFramed order load.raw ∧ order.word32 load.raw = load.code := by
  induction h with
  | done => simp
  | command hframed hparse _ ih =>
    obtain ⟨hcode, hraw, -⟩ := parse_endsIn.ok hparse
    exact List.forall_mem_cons.2 ⟨⟨hraw ▸ hframed, by rw [hcode, hraw]⟩, ih⟩

/-- The commands are at the start of the block, without gaps. -/
theorem Scans.flatten_raw_prefix (h : Scans order first place block loads sections) :
    (loads.map (·.raw)).flatten <+: block := by
  induction h with
  | done => exact List.nil_prefix
  | command _ hparse _ ih =>
    obtain ⟨-, hraw, -⟩ := parse_endsIn.ok hparse
    rw [List.map_cons, List.flatten_cons, hraw]
    exact (List.prefix_append_right_inj _).2 ih

/-- The sections that the segments list are all that are found. Their numbers are words, as every
section takes room in the block. -/
theorem Scans.isTiling (h : Scans order first place block loads sections)
    (hroom : first + block.length < 2 ^ 32) : IsTiling first (segments loads) sections.length := by
  induction h with
  | done => exact ⟨by simp [segments], rfl⟩
  | @command first place raw rest load loads listed sections _ hparse _ ih =>
    have hlists : Lists first raw.length load.body listed := (parse_endsIn.ok hparse).2.2
    rw [List.length_append] at hroom ⊢
    generalize hbody : load.body = body at hlists
    cases hlists with
    | @segment s _ hfirst hcount hlisted =>
      -- the number of sections in front of the segment is not reduced to a word
      have hword : s.firstSection.toNat = first := by
        rw [hfirst]
        exact UInt32.toNat_ofNat_of_lt' (by rw [UInt32.size]; omega)
      have hrest := ih (by omega)
      rw [hcount] at hrest ⊢
      rw [segments_cons_of_segment hbody]
      exact hrest.cons hword
    | other hother =>
      rw [segments_cons_of_other fun s => hbody ▸ hother s, List.length_nil, Nat.zero_add]
      exact ih (by rw [List.length_nil]; omega)

end Load

namespace Image

/-- The bytes behind the header that are there for the load commands. -/
def commandBlock (image : Image) : Text :=
  bytesAt image.contents (headerLength image.header.magic) image.header.commandSize.toNat

/-- The sections of an image are those of its segments, one segment behind the other. -/
structure IsTiled (image : Image) : Prop where
  first_eq : ∀ k s, image.segments[k]? = some s → s.firstSection.toNat =
    ((image.segments.take k).map (·.sectionCount.toNat)).sum
  stop_eq : ∀ s, image.segments.getLast? = some s →
    s.firstSection.toNat + s.sectionCount.toNat = image.sections.length
  nil : image.segments = [] → image.sections = []

/-- Ranges that tile the list of sections give each section to one segment. -/
theorem IsTiled.of_isTiling {image : Image}
    (h : Load.IsTiling 0 image.segments image.sections.length) : image.IsTiled := by
  refine ⟨fun k s hs => ?_, fun s hs => ?_, fun hnil => ?_⟩
  · rw [h.first_eq k s hs, Nat.zero_add, Load.sectionTotal]
  -- the last segment ends where all section counts together end
  · obtain ⟨front, hfront⟩ := List.getLast?_eq_some_iff.1 hs
    have hfirst := h.first_eq front.length s (by simp [hfront])
    have htotal := h.total_eq
    rw [hfront, List.take_left] at hfirst
    rw [hfront, Load.sectionTotal_append] at htotal
    rw [hfirst, Nat.zero_add, ← htotal]
    simp [Load.sectionTotal]
  · have htotal := h.total_eq
    rw [hnil] at htotal
    exact List.eq_nil_of_length_eq_zero htotal.symm

/-- Opening a slice indexes no bytes that are not there. If it succeeds, there are as many load
commands as the header says. Each has at least the eight bytes that state its code and its size, its
size is the number of its bytes, and all of them together are at the start of the block behind the
header. The sections are those of the segments, without gaps. If it fails, the slice is no image, or
too short, or malformed. -/
theorem ofSlice_partitions (source : Array UInt8) (told : Option Nat) (bounds : SliceBounds) :
    Checked.ofSlice source told bounds = OptionT.lift (ofSlice source told bounds) ∧
      (∀ image, ofSlice source told bounds = .ok image →
        image.contents = source.extract 0 (sliceSize bounds told) ∧
        image.loads.length = image.header.commandCount.toNat ∧
        (∀ load ∈ image.loads,
          Load.IsFramed image.order load.raw ∧ image.order.word32 load.raw = load.code) ∧
        image.commandBlock.length = image.header.commandSize.toNat ∧
        (image.loads.map (·.raw)).flatten <+: image.commandBlock ∧
        image.IsTiled) ∧
      ∀ e, ofSlice source told bounds = .error e →
        e.kind = .notMachO ∨ e.kind = .truncated ∨ e.kind = .format := by
  have hends := ofContents_endsIn (source.extract 0 (sliceSize bounds told))
    (sliceSize bounds told) bounds.offset
  rw [← ofSlice_eq_ofContents] at hends
  refine ⟨Checked.ofSlice_eq source told bounds, fun image himage => ?_,
    fun e he => hends.error he⟩
  obtain ⟨hcontents, -, block, sections, hblock, hscans, hcount, hsections⟩ := hends.ok himage
  obtain ⟨-, hbytes, hlength⟩ := readAll_eq_ok_iff.1 hblock
  have hcommands : image.commandBlock = block := by rw [commandBlock, hcontents, hbytes]
  -- the block is shorter than 2 ^ 32 bytes, so no running count of sections wraps around
  have hroom : 0 + block.length < 2 ^ 32 := by
    rw [hlength, Nat.zero_add]
    exact image.header.commandSize.toNat_lt
  have htotal : image.sections.length = sections.length := by
    rw [hsections, markEncrypted, List.length_map]
  refine ⟨hcontents, hcount, hscans.forall_isFramed, ?_, ?_, .of_isTiling ?_⟩
  · rw [hcommands, hlength]
  · rw [hcommands]
    exact hscans.flatten_raw_prefix
  · rw [htotal]
    exact hscans.isTiling hroom

/-- The header of an image with two load commands. -/
private def twoSegments : FileHeader := ⟨Magic.image32, 7, 3, FileType.dylib, 2, 316, 0, 0⟩

/-- Two segments, of which the first one lists one section and the other one two. -/
private def threeSections : Text :=
  let words (ns : List UInt32) := ns.flatMap ByteOrder.big.bytes32
  let blank (count : Nat) : Text := List.replicate count 0
  words [1, 124] ++ blank 16 ++ words [0x1000, 0x1000, 0, 0, 3, 3, 1, 0] ++ blank 68 ++
    words [1, 192] ++ blank 16 ++ words [0x2000, 0x1000, 0, 0, 3, 3, 2, 0] ++ blank 136

/-- The last segment tells how many sections there are. -/
theorem ofSlice_partitions_threeSections :
    ∃ image, ofSlice (twoSegments.encode .big ++ threeSections ++ []).toArray (some 344) {} =
        .ok image ∧
      image.loads.length = 2 ∧ image.sections.length = 3 := by
  have hlength : threeSections.length = 316 := by decide +kernel
  have hroom : twoSegments.size + threeSections.length ≤ sliceSize {} (some 344) := by
    rw [hlength]
    decide
  have hopen := ofSlice_encode_append .big (.inl (by decide) : twoSegments.IsImage) hlength.symm []
    hroom
  have hfound : (Load.parseAll .big 2 0 twoSegments.size threeSections).toOption.map (fun found =>
      (Load.segments found.1).getLast?.map fun s =>
        (s.firstSection.toNat, s.sectionCount.toNat)) = some (some (1, 2)) := by
    decide +kernel
  obtain ⟨found, hparse, hfound⟩ := Option.map_eq_some_iff.1 hfound
  obtain ⟨s, hs, hcounts⟩ := Option.map_eq_some_iff.1 hfound
  obtain ⟨hfirst, hcount⟩ := Prod.mk.inj hcounts
  rw [Except.toOption_eq_some_iff] at hparse
  replace hopen := hopen.trans (congrArg _ hparse)
  obtain ⟨-, hloads, -, -, -, htiled⟩ := (ofSlice_partitions _ (some 344) {}).2.1 _ hopen
  have hstop := htiled.stop_eq s hs
  rw [hfirst, hcount] at hstop
  exact ⟨_, hopen, hloads, hstop.symm⟩

end Image

end ObjcLens
