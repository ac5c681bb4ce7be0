import ObjcLens.Proofs.Image.Mapped
import ObjcLens.Proofs.Text.Cut

/-!
# Texts are read in pieces

The text at an address ends with a zero byte, which must lie in the section of the address. Nobody
knows where it is, so that the text is read in pieces of `chunkSize` bytes until one has a zero
byte; the last piece of a section is shorter. The pieces make no difference: the text is what stands
in front of the first zero byte of the section, wherever the pieces are cut.

`Image.cstringFrom` bounds the number of pieces by its fuel. The loop itself has no bound.
`TextLoop.turn` is one turn of it, and every loop comes to its end, with the result that
`Image.cstringFrom` has for all fuel that is enough.

## Main results

* `TextLoop.iterate_turn`: the loop ends, whatever is read.
* `cstringFrom_eq`: pieces of readable bytes are put together again.
* `cstring_eq_untilZero`: the text at an address of a section.
-/

namespace ObjcLens

namespace Image

/-! ## The loop -/

/-- The loop that reads a text. Between two turns it has reached an address and has the text in
front of it. After the last one it has a result. -/
inductive TextLoop
  | reading (addr : UInt64) (text : Text)
  | done (result : Except Error Text)

/-- One turn of the loop reads one piece. -/
def TextLoop.turn (image : Image) (s : Section) (start : UInt64) : TextLoop → TextLoop
  | .done result => .done result
  | .reading addr text =>
    if addr < s.addr + s.size then
      let count := min chunkSize (s.addr + s.size - addr).toNat
      match image.readAt (sectionOffset s addr) count with
      | .error e => .done (.error e)
      | .ok piece =>
        match Text.cut? 0 piece with
        | some (front, _) => .done (.ok (text ++ front))
        | none => .reading (addr + count.toUInt64) (text ++ piece)
    else .done (.error (.dangling start [] "cstring"))

/-- The next piece starts where a piece ends, and the end of the section is not behind that. -/
private theorem toNat_nextPiece {addr stop : UInt64} (h : addr < stop) :
    (stop - addr).toNat = stop.toNat - addr.toNat ∧
      (addr + (min chunkSize (stop.toNat - addr.toNat)).toUInt64).toNat =
        addr.toNat + min chunkSize (stop.toNat - addr.toNat) := by
  have hlt := UInt64.lt_iff_toNat_lt.1 h
  have hstop := stop.toNat_lt
  have hcount : (min chunkSize (stop.toNat - addr.toNat)).toUInt64.toNat =
      min chunkSize (stop.toNat - addr.toNat) :=
    UInt64.toNat_ofNat_of_lt' (by rw [UInt64.size]; omega)
  refine ⟨UInt64.toNat_sub_of_le _ _ (UInt64.le_iff_toNat_le.2 hlt.le), ?_⟩
  rw [UInt64.toNat_add, hcount, Nat.mod_eq_of_lt (by omega)]

/-- A loop that has a result keeps it. -/
theorem TextLoop.iterate_done (image : Image) (s : Section) (start : UInt64) (turns : Nat)
    (result : Except Error Text) : (turn image s start)^[turns] (.done result) = .done result := by
  induction turns with
  | zero => rfl
  | succ turns ih => rw [Function.iterate_succ_apply, turn, ih]

/-- The loop ends. If all pieces up to the end of the section can be full, one turn more than their
number is enough, and what is read does not matter. -/
theorem TextLoop.iterate_turn (image : Image) (s : Section) (start : UInt64) (fuel : Nat)
    (addr : UInt64) (text : Text)
    (hfuel : (s.addr + s.size).toNat - addr.toNat ≤ fuel * chunkSize) :
    (turn image s start)^[fuel + 1] (.reading addr text) =
      .done ((image.cstringFrom s start fuel addr).map (text ++ ·)) := by
  -- the rest of the section gets shorter by a full piece or is at its end
  induction fuel generalizing addr text with
  | zero =>
    have hend : ¬ addr < s.addr + s.size := by
      rw [UInt64.lt_iff_toNat_lt]
      omega
    rw [Function.iterate_one, turn, if_neg hend, cstringFrom]
    rfl
  | succ fuel ih =>
    rw [Function.iterate_succ_apply]
    by_cases hinside : addr < s.addr + s.size
    · obtain ⟨hrest, hnext⟩ := toNat_nextPiece hinside
      simp only [turn, cstringFrom, if_pos hinside, hrest]
      cases image.readAt (sectionOffset s addr)
          (min chunkSize ((s.addr + s.size).toNat - addr.toNat)) with
      | error e => exact iterate_done image s start _ _
      | ok piece =>
        simp only [bind, Except.bind]
        cases Text.cut? 0 piece with
        | some pieces => exact iterate_done image s start _ _
        | none =>
          -- one piece less is left, or nothing at all
          rw [Nat.add_mul] at hfuel
          simp only
          rw [ih _ _ (by rw [hnext]; omega)]
          cases image.cstringFrom s start fuel _ with
          | error e => rfl
          | ok behind => exact congrArg (fun text => done (.ok text)) (List.append_assoc _ _ _)
    · -- there is fuel left, but no byte of the section
      rw [turn, cstringFrom, if_neg hinside, if_neg hinside]
      exact iterate_done image s start _ _

/-! ## Readable bytes -/

/-- The section ends with the bytes that start at an address, and each piece of them can be
read. -/
structure EndsWith (image : Image) (s : Section) (addr : UInt64) (bytes : Text) : Prop where
  stop_eq : addr.toNat + bytes.length = (s.addr + s.size).toNat
  readAt_eq : ∀ skip count, 0 < count → skip + count ≤ bytes.length →
    image.readAt (sectionOffset s (addr + skip.toUInt64)) count =
      .ok ((bytes.drop skip).take count)

variable {image : Image} {s : Section} {addr : UInt64} {bytes : Text}

/-- The bytes behind a piece. -/
theorem EndsWith.drop (h : image.EndsWith s addr bytes) {count : Nat}
    (hcount : count ≤ bytes.length) :
    image.EndsWith s (addr + count.toUInt64) (bytes.drop count) := by
  have hstop := (s.addr + s.size).toNat_lt
  have hstart := h.stop_eq
  constructor
  -- what is dropped is within the section, so the address does not wrap around
  · have hword : count.toUInt64.toNat = count :=
      UInt64.toNat_ofNat_of_lt' (by rw [UInt64.size]; omega)
    rw [UInt64.toNat_add, hword, Nat.mod_eq_of_lt (by omega), List.length_drop]
    omega
  · intro skip more hpos hmore
    have hread := h.readAt_eq (count + skip) more hpos (by rw [List.length_drop] at hmore; omega)
    have hplace : addr + (count + skip).toUInt64 = addr + count.toUInt64 + skip.toUInt64 := by
      rw [UInt64.add_assoc]
      exact congrArg (addr + ·) (UInt64.ofNat_add count skip)
    rw [hplace] at hread
    rw [hread, List.drop_drop]

/-- Reading in pieces finds the first zero byte of the section, and nothing if there is none. -/
theorem cstringFrom_eq (h : image.EndsWith s addr bytes) (start : UInt64) (fuel : Nat)
    (hfuel : bytes.length ≤ fuel * chunkSize) :
    image.cstringFrom s start fuel addr =
      if 0 ∈ bytes then .ok (untilZero bytes) else .error (.dangling start [] "cstring") := by
  -- what is behind a piece is the end of the section again
  induction fuel generalizing addr bytes with
  | zero =>
    have hnil : bytes = [] := List.length_eq_zero_iff.1 (by omega)
    rw [hnil, cstringFrom, if_neg List.not_mem_nil]
  | succ fuel ih =>
    have hstop := h.stop_eq
    rw [cstringFrom]
    by_cases hinside : addr < s.addr + s.size
    · obtain ⟨hrest, -⟩ := toNat_nextPiece hinside
      have hlength : (s.addr + s.size).toNat - addr.toNat = bytes.length := by omega
      have hpos : 0 < bytes.length := by
        rw [UInt64.lt_iff_toNat_lt] at hinside
        omega
      have hread := h.readAt_eq 0 (min chunkSize bytes.length) (by rw [chunkSize]; omega) (by omega)
      have hsplit := List.take_append_drop (min chunkSize bytes.length) bytes
      have hzero : addr + (0 : Nat).toUInt64 = addr := UInt64.add_zero addr
      rw [hzero, List.drop_zero] at hread
      simp only [if_pos hinside, hrest, hlength, hread, bind, Except.bind]
      cases hcut : Text.cut? 0 (bytes.take (min chunkSize bytes.length)) with
      | some pieces =>
        obtain ⟨front, behind⟩ := pieces
        obtain ⟨hpiece, hfront⟩ := Text.eq_append_of_cut? hcut
        rw [← hsplit, hpiece, List.append_assoc, List.cons_append, if_pos List.mem_append_cons_self,
          untilZero_append hfront]
        exact congrArg Except.ok (List.append_nil front).symm
      | none =>
        have hnone := Text.cut?_eq_none_iff.1 hcut
        have hnext := h.drop (Nat.min_le_right chunkSize bytes.length)
        rw [Nat.add_mul] at hfuel
        simp only
        rw [ih hnext (by rw [List.length_drop]; omega)]
        by_cases hmem : 0 ∈ bytes.drop (min chunkSize bytes.length)
        · rw [if_pos hmem, if_pos (List.mem_of_mem_drop hmem)]
          have htext := untilZero_append hnone (bytes.drop (min chunkSize bytes.length))
          rw [hsplit] at htext
          rw [htext]
          rfl
        · have hall : 0 ∉ bytes := by
            rw [← hsplit, List.mem_append, not_or]
            exact ⟨hnone, hmem⟩
          rw [if_neg hmem, if_neg hall]
    · have hnil : bytes = [] := by
        rw [UInt64.lt_iff_toNat_lt] at hinside
        exact List.length_eq_zero_iff.1 (by omega)
      rw [if_neg hinside, hnil, if_neg List.not_mem_nil]

/-- The fuel with which a text is read is enough for the rest of its section. -/
private theorem le_fuel_mul (n : Nat) : n ≤ (n / chunkSize + 1) * chunkSize := by
  rw [chunkSize]
  omega

/-- The text at an address of a section that can be read up to its end. -/
theorem cstring_of_endsWith (hsection : image.sectionAt? addr = some s)
    (hclear : s.encrypted = false) (hzero : s.isZeroFill = false)
    (h : image.EndsWith s addr bytes) :
    image.cstring addr =
      if 0 ∈ bytes then .ok (untilZero bytes) else .error (.dangling addr [] "cstring") := by
  have hstop := h.stop_eq
  have hrest : (s.addr + s.size - addr).toNat = bytes.length := by
    rw [UInt64.toNat_sub_of_le _ _ (UInt64.le_iff_toNat_le.2 (by omega))]
    omega
  simp only [cstring, hsection, hclear, hzero, Bool.false_eq_true, if_false, hrest]
  exact cstringFrom_eq h addr _ (le_fuel_mul bytes.length)

/-! ## Sections of opened images -/

/-- The bytes of a section from an address to its end, as the slice has them. -/
def sectionRest (image : Image) (s : Section) (addr : UInt64) : Text :=
  (image.contents.extract (s.offset.toNat + (addr.toNat - s.addr.toNat))
    (s.offset.toNat + s.size.toNat)).toList

/-- All bytes of a section may be shown if it is not marked as encrypted. -/
theorem isStored_of_mem_sections (hmarked : image.IsMarked) (hsize : image.size < 2 ^ 63)
    (hs : s ∈ image.sections) (hclear : s.encrypted = false) (hzero : s.isZeroFill = false)
    (hfile : s.offset.toNat + s.size.toNat ≤ image.size) {i : Nat} {b : UInt8}
    (hlow : s.offset.toNat ≤ i) (hhigh : i < s.offset.toNat + s.size.toNat)
    (hbyte : image.contents[i]? = some b) : image.IsStored i b := by
  refine ⟨by omega, hbyte, fun r hr => ?_⟩
  have hne : (s.size != 0) = true := by
    rw [bne_iff_ne]
    intro hempty
    rw [hempty, UInt64.toNat_zero] at hhigh
    omega
  -- the mark is off although the section is filled and not empty: no active range overlaps it
  rw [hmarked s hs, hzero, hne, Bool.not_false, Bool.true_and, Bool.true_and,
    List.any_eq_false] at hclear
  have hoffset : s.offset.toUInt64.toNat = s.offset.toNat := UInt32.toNat_toUInt64 s.offset
  apply r.not_covers_of_not_overlaps (by omega) (Bool.eq_false_iff.2 (hclear r hr))
  · omega
  · omega

/-- A section in the file ends with its bytes, from every address in it. -/
theorem endsWith_sectionRest (hmarked : image.IsMarked) (hsize : image.size < 2 ^ 63)
    (hs : s ∈ image.sections) (hcontains : s.contains addr = true) (hclear : s.encrypted = false)
    (hzero : s.isZeroFill = false) (hfile : s.offset.toNat + s.size.toNat ≤ image.size)
    (hdata : s.offset.toNat + s.size.toNat ≤ image.contents.size) :
    image.EndsWith s addr (image.sectionRest s addr) := by
  obtain ⟨hlow, hhigh, hfits⟩ := Section.contains_iff.1 hcontains
  have hlength : (image.sectionRest s addr).length =
      s.size.toNat - (addr.toNat - s.addr.toNat) := by
    rw [sectionRest, Array.length_toList, Array.size_extract]
    omega
  constructor
  · rw [hlength, UInt64.toNat_add, Nat.mod_eq_of_lt hfits]
    omega
  · intro skip count hpos hcount
    -- no sum of words wraps, as the section lies in the slice and in the address space
    rw [hlength] at hcount
    have htaken : (((image.sectionRest s addr).drop skip).take count).length = count := by
      rw [List.length_take, List.length_drop]
      omega
    have hskip : skip.toUInt64.toNat = skip :=
      UInt64.toNat_ofNat_of_lt' (by rw [UInt64.size]; omega)
    have haddr : (addr + skip.toUInt64).toNat = addr.toNat + skip := by
      rw [UInt64.toNat_add, hskip, Nat.mod_eq_of_lt (by omega)]
    have hplace : (s.offset.toUInt64 + (addr + skip.toUInt64 - s.addr)).toNat =
        s.offset.toNat + (addr.toNat + skip - s.addr.toNat) := by
      have hle : s.addr ≤ addr + skip.toUInt64 := by
        rw [UInt64.le_iff_toNat_le, haddr]
        omega
      rw [UInt64.toNat_add, UInt64.toNat_sub_of_le _ _ hle, UInt32.toNat_toUInt64, haddr,
        Nat.mod_eq_of_lt (by omega)]
    have hread : image.readAt (sectionOffset s (addr + skip.toUInt64))
        (((image.sectionRest s addr).drop skip).take count).length =
          .ok (((image.sectionRest s addr).drop skip).take count) := by
      apply readAt_of_isStored hsize
      · rw [← List.length_pos_iff]
        omega
      · intro i hi
        apply isStored_of_mem_sections hmarked hsize hs hclear hzero hfile
        · omega
        · omega
        · rw [hplace, List.getElem_take, List.getElem_drop, ← List.getElem?_eq_getElem,
            sectionRest, Array.getElem?_toList, Array.getElem?_extract, if_pos (by omega)]
          congr 1
          omega
    rwa [htaken] at hread

/-- The text at an address of an opened image is what stands in front of the first zero byte of the
section, wherever that is. The section is the first one that contains the address; it is neither
encrypted nor filled with zeros. If the file has all of it, reading fails only if there is no zero
byte between the address and the end of the section. Whatever the file has, the loop ends: it takes
at most two turns more than there are full pieces from the address to the end of the section. -/
theorem cstring_eq_untilZero {source : Array UInt8} {told : Option Nat} {bounds : SliceBounds}
    (hopen : ofSlice source told bounds = .ok image) (hsize : sliceSize bounds told < 2 ^ 63)
    (hsection : image.sectionAt? addr = some s) (hclear : s.encrypted = false)
    (hzero : s.isZeroFill = false) :
    (s.offset.toNat + s.size.toNat ≤ image.contents.size →
        image.cstring addr =
          if 0 ∈ image.sectionRest s addr then .ok (untilZero (image.sectionRest s addr))
          else .error (.dangling addr [] "cstring")) ∧
      (TextLoop.turn image s addr)^[(s.addr.toNat + s.size.toNat - addr.toNat) / chunkSize + 2]
        (.reading addr []) = .done (image.cstring addr) := by
  obtain ⟨himage, hcontents, hmarked⟩ := ofSlice_eq_ok hopen
  obtain ⟨hs, hcontains⟩ := contains_of_sectionAt? hsection
  rw [← himage] at hsize
  constructor
  · intro hdata
    -- an opened image has no bytes behind the end of its slice
    have hfile : image.contents.size ≤ image.size := by
      rw [hcontents, Array.size_extract]
      omega
    have hends := endsWith_sectionRest hmarked hsize hs hcontains hclear hzero
      (hdata.trans hfile) hdata
    exact cstring_of_endsWith hsection hclear hzero hends
  · obtain ⟨hlow, hhigh, hfits⟩ := Section.contains_iff.1 hcontains
    have hstop : (s.addr + s.size).toNat = s.addr.toNat + s.size.toNat := by
      rw [UInt64.toNat_add, Nat.mod_eq_of_lt hfits]
    have hrest : (s.addr + s.size - addr).toNat = s.addr.toNat + s.size.toNat - addr.toNat := by
      rw [UInt64.toNat_sub_of_le _ _ (UInt64.le_iff_toNat_le.2 (by omega)), hstop]
    rw [TextLoop.iterate_turn _ _ _ _ _ _ (by rw [hstop]; exact le_fuel_mul _)]
    simp only [cstring, hsection, hclear, hzero, Bool.false_eq_true, if_false, hrest]
    exact congrArg TextLoop.done (congrFun Except.map_id _)

/-- A slice with a section of 65 bytes at 4096: 64 letters and a zero byte, which is the first one
of the second piece. -/
def letterSlice : Array UInt8 :=
  ([0xFEEDFACE, 7, 3, 6, 1, 124, 0, 1, 124].flatMap ByteOrder.big.bytes32 ++ List.replicate 16 0 ++
    [0x1000, 65, 152, 65, 3, 3, 1, 0].flatMap ByteOrder.big.bytes32 ++ List.replicate 32 0 ++
    [0x1000, 65, 152, 0, 0, 0, 0, 0, 0].flatMap ByteOrder.big.bytes32 ++
    List.replicate 64 97 ++ [0]).toArray

/-- The section with the letters. -/
def letterSection : Section :=
  { name := [], segment := [], addr := 0x1000, size := 65, offset := 152, align := 0,
    relocOffset := 0, relocCount := 0, flags := 0, reserved := (0, 0, 0) }

/-- All letters are read, in three turns of the loop. -/
theorem cstring_eq_untilZero_letterSlice :
    ∃ image, (ofSlice letterSlice (some 217) {} = .ok image ∧
        sliceSize {} (some 217) < 2 ^ 63 ∧ image.sectionAt? 0x1000 = some letterSection ∧
        letterSection.encrypted = false ∧ letterSection.isZeroFill = false ∧
        letterSection.offset.toNat + letterSection.size.toNat ≤ image.contents.size) ∧
      image.cstring 0x1000 = .ok (List.replicate 64 97) ∧
      (TextLoop.turn image letterSection 0x1000)^[3] (.reading 0x1000 []) =
        .done (.ok (List.replicate 64 97)) := by
  -- nothing is behind the slice, so that cutting it out keeps all of it
  have hwhole : letterSlice.extract 0 (sliceSize {} (some 217)) = letterSlice := by
    apply Array.extract_eq_self_of_le
    decide +kernel
  have hfound : (do
      let image ← ofContents letterSlice 217 0
      return (image.sectionAt? 0x1000, image.contents.size)).toOption =
      some (some letterSection, 217) := by decide +kernel
  rw [Except.toOption_eq_some_iff, Except.bind_eq_ok_iff] at hfound
  obtain ⟨image, himage, hfields⟩ := hfound
  obtain ⟨hsection, hdata⟩ := Prod.mk.inj (Except.ok.inj hfields)
  have hopen : ofSlice letterSlice (some 217) {} = .ok image := by
    rw [ofSlice_eq_ofContents, hwhole]
    exact himage
  have hfile : letterSection.offset.toNat + letterSection.size.toNat ≤ image.contents.size :=
    hdata.ge
  have hrest : image.sectionRest letterSection 0x1000 = List.replicate 64 97 ++ [0] := by
    obtain ⟨hsize, hcontents, -⟩ := ofSlice_eq_ok hopen
    rw [hsize, hwhole] at hcontents
    rw [sectionRest, hcontents, letterSlice, List.extract_toArray]
    decide +kernel
  obtain ⟨htext, hturns⟩ := cstring_eq_untilZero hopen (by decide) hsection rfl rfl
  have hletters := htext hfile
  rw [hrest, if_pos (by decide)] at hletters
  have hcut : untilZero (List.replicate 64 97 ++ [0]) = List.replicate 64 97 := by decide
  rw [hcut] at hletters
  rw [hletters] at hturns
  exact ⟨image, ⟨hopen, by decide, hsection, rfl, rfl, hfile⟩, hletters, hturns⟩

end Image

end ObjcLens
