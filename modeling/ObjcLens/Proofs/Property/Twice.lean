import ObjcLens.Proofs.Decoder.Bounded
import ObjcLens.Proofs.Except
import ObjcLens.Proofs.ObjcType.Comma
import ObjcLens.Proofs.Record.Reads

/-!
# The type of a property is decoded twice

The attributes of a property are parsed with the type in them. The reader of records then asks the
decoder for the type of the text that was cut out, and takes the answer instead. The decoder may
have the answer from before, and others ask it meanwhile. All this makes no difference: the first
decoding, with the other attributes behind the type, is that of the text alone.

## Main results

* `attributes_of_run_property`: the attributes of one property.
* `properties_keep_types`: both decodings agree, and the second one changes no property.
-/

namespace ObjcLens.RecordReader

variable {context : Context} {progress after : Progress}

/-- The second decoding of the type gives the attributes as they were parsed. -/
theorem attributes_of_run_property {addr : UInt64} {p : Property}
    (h : (property addr context progress).run = (.ok p, after)) :
    p.attributes = PropertyAttributes.parse p.encoded := by
  obtain ⟨words, _, -, h⟩ := exists_of_run_bind _ _ h
  obtain ⟨name, _, -, h⟩ := exists_of_run_bind _ _ h
  obtain ⟨encoded, _, -, h⟩ := exists_of_run_bind _ _ h
  dsimp only at h
  split at h
  · obtain rfl := Except.ok.inj (Prod.mk.inj h).1
    rfl
  · -- the decoder is asked for the text of the type
    rename_i hencoding
    have htype := (PropertyAttributes.isDecoded_parse encoded).type_eq (by simpa using hencoding)
    obtain ⟨type, _, htypeRun, h⟩ := exists_of_run_bind _ _ h
    obtain rfl := Except.ok.inj (Prod.mk.inj h).1
    obtain rfl : ObjcType.parse (PropertyAttributes.parse encoded).typeEncoding = type :=
      Except.ok.inj (Prod.mk.inj htypeRun).1
    rw [← htype]

/-- The attributes of all properties of a list. -/
theorem attributes_of_run_properties {addr : UInt64} {ps : List Property}
    (h : (properties addr context progress).run = (.ok ps, after)) {p : Property} (hp : p ∈ ps) :
    p.attributes = PropertyAttributes.parse p.encoded := by
  rw [properties] at h
  split at h
  · obtain rfl : [] = ps := Except.ok.inj (Prod.mk.inj h).1
    cases hp
  · obtain ⟨size, _, -, h⟩ := exists_of_run_bind _ _ h
    obtain ⟨header, _, -, h⟩ := exists_of_run_bind _ _ h
    obtain ⟨_, _, _, hrun⟩ := exists_of_mem_entriesFrom h hp
    exact attributes_of_run_property hrun

/-- The two decodings of the type of a property agree. The attributes, well-formed or not, have the
type that the text of the type alone is the encoding of. So properties that are read from an image
have the attributes that their texts are parsed to, with all types as they were, whatever the
decoder remembers: however large it is, and whoever else asks it before and meanwhile. -/
theorem properties_keep_types :
    (∀ s t, (PropertyAttributes.parse s).type = some t →
        t = ObjcType.parse (PropertyAttributes.parse s).typeEncoding) ∧
      (∀ (capacity : Int) (others : ℕ → List DecodeRequest) (context : Context)
        (progress after : Progress) (addr : UInt64) (ps : List Property),
        ((properties addr context progress).runAmong others (DecoderCache.empty capacity)).1 =
            (.ok ps, after) →
          ∀ p ∈ ps, p.attributes = PropertyAttributes.parse p.encoded) := by
  constructor
  · intro s t ht
    rcases PropertyAttributes.isDecoded_parse s with ⟨hnone, -⟩ | htype
    · rw [hnone] at ht
      cases ht
    · exact Option.some.inj (ht.symm.trans htype)
  · intro capacity others context progress after addr ps h p hp
    -- what others ask in between makes no difference to the answers
    rw [(Dialogue.runAmong_eq _ others (DecoderCache.isRight_empty capacity)).1] at h
    exact attributes_of_run_properties h hp

/-- An image with a list of two properties at 4096. The first one has a type with a comma in its
name, the second one is malformed: its type ends at a digit. -/
def twoProperties : Context :=
  let texts : List Text := ["p", "T{pair<int,float>=if},N", "Ti4,R"]
  let contents : Text :=
    [8, 2, 0x1018, 0x101A, 0x1018, 0x1032].flatMap ByteOrder.little.bytes32 ++
      texts.flatMap (· ++ [0])
  let image : Image :=
    { (default : Image) with
      order := .little
      sections := [⟨[], [], 0x1000, contents.length.toUInt64, 0, 0, 0, 0, 0, (0, 0, 0), false⟩]
      size := contents.length
      contents := contents.toArray }
  ⟨image, image.chainedFixups, false, true⟩

/-- Both properties are read. The decoder remembers one type, which others have asked for. -/
theorem properties_keep_types_twoProperties :
    (∃ ps after, ((properties 0x1000 twoProperties default).runAmong
          (fun _ => [.type "{pair<int,float>=if}"]) (DecoderCache.empty 1)).1 = (.ok ps, after) ∧
        ps.map (·.encoded) = (["T{pair<int,float>=if},N", "Ti4,R"] : List Text) ∧
        ∀ p ∈ ps, p.attributes = PropertyAttributes.parse p.encoded) ∧
      (PropertyAttributes.parse "Ti4,R").type = some (.unknown "i4") ∧
      .unknown "i4" = ObjcType.parse (PropertyAttributes.parse "Ti4,R").typeEncoding := by
  obtain ⟨hparse, hread⟩ := properties_keep_types
  have htype : (PropertyAttributes.parse "Ti4,R").type = some (.unknown "i4") := rfl
  refine ⟨?_, htype, hparse _ _ htype⟩
  have hencoded : (do
      let ps ← ((properties 0x1000 twoProperties default).runAmong
        (fun _ => [.type "{pair<int,float>=if}"]) (DecoderCache.empty 1)).1.1
      return ps.map Property.encoded).toOption =
        some (["T{pair<int,float>=if},N", "Ti4,R"] : List Text) := by decide +kernel
  rw [Except.toOption_eq_some_iff, Except.bind_eq_ok_iff] at hencoded
  generalize hrun : ((properties 0x1000 twoProperties default).runAmong
    (fun _ => [.type "{pair<int,float>=if}"]) (DecoderCache.empty 1)).1 = run at hencoded ⊢
  obtain ⟨result, after⟩ := run
  obtain ⟨ps, rfl, hencoded⟩ := hencoded
  exact ⟨ps, after, rfl, Except.ok.inj hencoded, hread _ _ _ _ _ _ _ hrun⟩

end ObjcLens.RecordReader
