import CounterStream.Proofs.Numerals
import CounterStream.Proofs.Record
import CounterStream.Proofs.Window
import CounterStream.Proofs.CheckpointFile

/-!
# Samples as lines and as items

The same samples can be printed as the lines of a report or as the items of a document. Both move
the engine alike, and a finite sample is told from its line or from its item, except that the item
of a half is the number of its bits.
-/

namespace CounterStream

theorem Format.half_widens_single : half.Widens single := ⟨by decide, by decide, by decide +kernel⟩

/-! ## One sample -/

namespace SampleType

def isFinite : (t : SampleType) → t.Value → Bool
  | half, x => Binary.isFinite (F := Format.half) x
  | single, x => Binary.isFinite (F := Format.single) x
  | double, x => Binary.isFinite (F := Format.double) x
  | integer, _ => true

/-- The value of a finite sample. -/
def toRat : (t : SampleType) → t.Value → ℚ
  | half, x => Binary.toRat (F := Format.half) x
  | single, x => Binary.toRat (F := Format.single) x
  | double, x => Binary.toRat (F := Format.double) x
  | integer, x => Int64.toInt x

/-- The number of the bits that store a sample. -/
def bits : (t : SampleType) → t.Value → Nat
  | half, x => Binary.bits (F := Format.half) x
  | single, x => Binary.bits (F := Format.single) x
  | double, x => Binary.bits (F := Format.double) x
  | integer, x => (Int64.toUInt64 x).toNat

/-- The sample that a text is read as, a half by way of the single that it equals. -/
def read? : (t : SampleType) → List Char → Option t.Value
  | half, cs => (Binary.read? Format.single cs).map Binary.convert
  | single, cs => Binary.read? Format.single cs
  | double, cs => Binary.read? Format.double cs
  | integer, cs => readInt64? cs

/-- A line and an item that show a sample. Both are decimal texts, and reading either gives the
sample; they denote the same number unless the sample is halfway between two decimals. The item of a
half denotes its bits instead. -/
def Shows (t : SampleType) (x : t.Value) (line : String) (item : Json) : Prop :=
  ∃ literal q r, item = .number literal ∧
    Decimal.denoted? line.toList = some q ∧ Decimal.denoted? literal = some r ∧
    t.read? line.toList = some x ∧
    (t ≠ half → t.read? literal = some x ∧ (q = r ∨ t ≠ integer ∧ q + r = 2 * t.toRat x)) ∧
    (t = half → r = t.bits x)

theorem shows_text_json (t : SampleType) (x : t.Value) (hx : t.isFinite x) :
    t.Shows x (t.text x) (t.json x) := by
  cases t with
  | half =>
    have hwide := (Binary.convert_exact (by decide) Format.half_widens_single x hx).1
    obtain ⟨-, q, -, -, -, hline, -, hq, -, -⟩ :=
      Binary.numerals_agree Format.single_moderate (-6) 12 (Binary.convert x) hwide
    have hread := congrArg (Option.map (Binary.convert (G := Format.half))) hline
    rw [Option.map_some,
      Binary.convert_convert (by decide) (by decide) Format.half_widens_single x hx] at hread
    exact ⟨_, q, _, rfl, hq, (Decimal.denoted?_toDigits _).1, hread, by simp, fun _ => rfl⟩
  | single =>
    obtain ⟨literal, q, r, hjson, -, hline, hliteral, hq, hr, hvalues⟩ :=
      Binary.numerals_agree Format.single_moderate (-6) 12 x hx
    exact ⟨literal, q, r, hjson, hq, hr, hline,
      fun _ => ⟨hliteral, hvalues.imp_right fun hsum => ⟨by decide, hsum⟩⟩, by simp⟩
  | double =>
    obtain ⟨literal, q, r, hjson, -, hline, hliteral, hq, hr, hvalues⟩ :=
      Binary.numerals_agree Format.double_moderate (-5) 15 x hx
    exact ⟨literal, q, r, hjson, hq, hr, hline,
      fun _ => ⟨hliteral, hvalues.imp_right fun hsum => ⟨by decide, hsum⟩⟩, by simp⟩
  | integer =>
    have hvalue := Decimal.denoted?_toString (Int64.toInt x)
    have hread : readInt64? (toString (Int64.toInt x)).toList = some x := by
      rw [readInt64?, Decimal.integer?_toString, Option.bind_some, int64?_toInt]
    exact ⟨_, _, _, rfl, hvalue, hvalue, hread, fun _ => ⟨hread, Or.inl rfl⟩, by simp⟩

theorem isPlain_real {F : Format} (hF : F.Moderate) (low high : Int) (x : Binary F) :
    (Json.real (Layout.bounded low high) x).IsPlain := by
  by_cases hx : x.isFinite
  · obtain ⟨literal, -, -, hjson, hliteral, -⟩ := x.numerals_agree hF low high hx
    exact hjson ▸ hliteral
  · rw [Json.real, if_neg hx]
    trivial

theorem isPlain_json (t : SampleType) (x : t.Value) : (t.json x).IsPlain := by
  cases t with
  | half => exact Json.isLiteral_toDigits _
  | single => exact isPlain_real Format.single_moderate _ _ x
  | double => exact isPlain_real Format.double_moderate _ _ x
  | integer => exact Json.isLiteral_toString _

end SampleType

/-! ## Documents -/

theorem Distribution.isPlainChar_of_mem_text (d : Distribution) (h : d.IsFinite) :
    ∀ c ∈ d.text.toList, Json.IsPlainChar c := by
  have hname := d.isPlainChar_of_mem_name
  have hnumber (c : Char) (hc : IsNumberChar c) : Json.IsPlainChar c := by
    rcases hc with hc | rfl | rfl
    · obtain ⟨hlow, hhigh⟩ := Text.toNat_of_isDigit c hc
      refine ⟨by omega, by omega, ?_, ?_⟩ <;> rintro rfl <;> exact absurd hc (by decide)
    · decide
    · decide
  cases hparameters : d.parameters with
  | nil => rwa [toList_text_nil d hparameters]
  | cons p ps =>
    have hparts : ∀ q ∈ (p :: ps).map String.toList, ∀ c ∈ q, Json.IsPlainChar c := by
      intro q hq c hc
      obtain ⟨r, hr, rfl⟩ := List.mem_map.mp hq
      exact hnumber c (d.isNumberChar_of_mem_parameters h r (hparameters ▸ hr) c hc)
    intro c hc
    rw [toList_text_cons d p ps hparameters, List.mem_append, List.mem_cons] at hc
    rcases hc with hc | rfl | hc
    · exact hname c hc
    · decide
    · exact Text.forall_mem_intercalate (by decide) _ hparts c hc

theorem Json.arePlain_iff (items : List Json) : ArePlain items ↔ ∀ item ∈ items, item.IsPlain := by
  induction items with
  | nil => simp [ArePlain]
  | cons item items ih => rw [ArePlain, ih, List.forall_mem_cons]

namespace Report

/-- The items that a printed document has under `samples`. -/
def itemsOf? (output : String) : Option (List Json) :=
  match Json.ofText? output with
  | some (.object members) =>
    match Json.once? "samples" members with
    | some (.array items) => some items
    | _ => none
  | _ => none

theorem isPlain_document (d : Distribution) (h : d.IsFinite) (start final : Engine)
    (samples : Samples) : (document d start final samples).IsPlain := by
  have hname (s : String) (hs : s.toList.all (Json.IsPlainChar ·)) : Json.IsPlainString (some s) :=
    ⟨s, rfl, Text.forall_mem_of_all hs⟩
  refine ⟨hname _ (by decide), ⟨d.text, rfl, d.isPlainChar_of_mem_text h⟩, hname _ (by decide),
    start.isPlain_toJson, hname _ (by decide), final.isPlain_toJson, hname _ (by decide), ?_,
    trivial⟩
  refine (Json.arePlain_iff _).mpr fun item hitem => ?_
  obtain ⟨x, -, rfl⟩ := List.mem_map.mp hitem
  exact samples.type.isPlain_json x

theorem itemsOf?_document (d : Distribution) (h : d.IsFinite) (start final : Engine)
    (samples : Samples) :
    itemsOf? ((document d start final samples).prettyText ++ "\n") =
      some (samples.values.map samples.type.json) := by
  have hread : Json.ofText? ((document d start final samples).prettyText ++ "\n") =
      some (document d start final samples) :=
    Json.ofText?_prettyText _ (isPlain_document d h start final samples) ['\n']
      Checkpoint.areBlank_lineEnd
  rw [itemsOf?, hread]
  simp [document, Json.record, Json.once?, Samples.toJson]

/-- The text and the document on the same samples leave the engine at the same place and hold a line
and an item for each sample. The two show every finite sample alike, except that the item of a half
is the number of its bits and that the other numbers differ where a sample is halfway between its
two shortest decimals. -/
theorem formats_show_same_samples (d : Distribution) (hcheck : d.check = .ok ())
    (sharding : Sharding) (hblocks : sharding.blocks ≠ 0) (e : Engine) (count : UInt64) :
    ∃ (xs : List d.sampleType.Value) (report document : String) (items : List Json)
      (final : Engine),
      d.generate sharding e count.toNat = .ok (⟨d.sampleType, xs⟩, final) ∧
      samples .text d sharding e count.toNat = .ok (report, final) ∧
      samples .json d sharding e count.toNat = .ok (document, final) ∧
      itemsOf? document = some items ∧ xs.length = count.toNat ∧
      (linesOf report).length = count.toNat ∧ items.length = count.toNat ∧
      ∀ (i : Nat) (x : d.sampleType.Value), xs[i]? = some x → d.sampleType.isFinite x →
        ∃ line item, (linesOf report)[i]? = some line ∧ items[i]? = some item ∧
          d.sampleType.Shows x line item := by
  have hgenerate := d.generate_eq sharding e count.toNat hcheck hblocks count.toNat_lt
  set xs := (List.range count.toNat).map (d.sampler.sampleAt e) with hxs
  set final := e.forward (blocksFor d.groupSize count.toNat)
  have hlines : linesOf (lines (xs.map d.sampleType.text)) = xs.map d.sampleType.text :=
    linesOf_lines _ (List.forall_mem_map.mpr fun x _ => d.sampleType.newline_not_mem_text x)
  have hlength : xs.length = count.toNat := by simp [hxs]
  refine ⟨xs, lines (xs.map d.sampleType.text),
    (document d e final ⟨d.sampleType, xs⟩).prettyText ++ "\n", xs.map d.sampleType.json, final,
    hgenerate, ?_, ?_, itemsOf?_document d (d.isFinite_of_check hcheck) e final _, hlength, ?_, ?_,
    ?_⟩
  · rw [samples, hgenerate]
    rfl
  · rw [samples, hgenerate]
    rfl
  · rw [hlines, List.length_map, hlength]
  · rw [List.length_map, hlength]
  · intro i x hx hfinite
    refine ⟨d.sampleType.text x, d.sampleType.json x, ?_, ?_,
      d.sampleType.shows_text_json x hfinite⟩
    · rw [hlines, List.getElem?_map, hx, Option.map_some]
    · rw [List.getElem?_map, hx, Option.map_some]

theorem formats_show_same_samples_when_sharded :
    let d := Distribution.uniformSingle
    let sharding : Sharding := ⟨0, 1⟩
    let e := Engine.new 0 0
    let x : Single := d.sampler.sampleAt e 1
    d.check = .ok () ∧ sharding.blocks ≠ 0 ∧ SampleType.single.isFinite x ∧
    ∃ (report document : String) (items : List Json) (final : Engine) (line : String) (item : Json),
      samples .text d sharding e 9 = .ok (report, final) ∧
      samples .json d sharding e 9 = .ok (document, final) ∧
      itemsOf? document = some items ∧ (linesOf report)[1]? = some line ∧ items[1]? = some item ∧
      SampleType.single.Shows x line item := by
  intro d sharding e x
  have hcheck : d.check = .ok () := rfl
  have hfinite : SampleType.single.isFinite x := by decide +kernel
  obtain ⟨xs, report, document, items, final, hgenerate, htext, hjson, hitems, -, -, -, hshows⟩ :=
    formats_show_same_samples d hcheck sharding (by decide) e 9
  have hxs : xs[1]? = some x := by
    rw [d.generate_eq sharding e (9 : UInt64).toNat hcheck (by decide) (by decide)] at hgenerate
    cases hgenerate
    rfl
  obtain ⟨line, item, hline, hitem, hshow⟩ := hshows 1 x hxs hfinite
  exact ⟨hcheck, by decide, hfinite, report, document, items, final, line, item, htext, hjson,
    hitems, hline, hitem, hshow⟩

theorem half_item_is_not_its_line :
    ¬ ∀ d : Distribution, d.check = .ok () → ∀ sharding : Sharding, sharding.blocks ≠ 0 →
      ∀ (e : Engine) (count : UInt64) (report document : String) (items : List Json)
        (final final' : Engine),
        samples .text d sharding e count.toNat = .ok (report, final) →
        samples .json d sharding e count.toNat = .ok (document, final') →
        itemsOf? document = some items →
        ∀ (i : Nat) (line : String) (literal : List Char),
          (linesOf report)[i]? = some line → items[i]? = some (.number literal) →
          Decimal.denoted? line.toList = Decimal.denoted? literal := by
  intro hall
  let d := Distribution.uniformHalf
  let e := Engine.new 0 0
  have htext : samples .text d {} e 1 = .ok ("0.20800781\n", e.forward 1) := by decide +kernel
  have hjson := @samples_eq_document d {} rfl (by decide) e 1 (by decide)
  have hitem : SampleType.half.json (d.sampler.sampleAt e 0) = .number (Nat.toDigits 10 12968) := by
    have hbits : Binary.bits (F := Format.half) (d.sampler.sampleAt e 0) = 12968 := by
      decide +kernel
    exact congrArg Json.natural hbits
  have hsame := hall d rfl {} (by decide) e 1 _ _ _ _ _ htext hjson
    (itemsOf?_document d (d.isFinite_of_check rfl) e _ _) 0 "0.20800781" (Nat.toDigits 10 12968)
    (by decide +kernel) (congrArg some hitem)
  have hline : Decimal.unsigned? "0.20800781".toList = some ⟨20800781, -8⟩ := by decide +kernel
  rw [(Decimal.denoted?_toDigits 12968).1,
    show Decimal.denoted? "0.20800781".toList =
      (Decimal.unsigned? "0.20800781".toList).map Decimal.value from rfl, hline] at hsame
  norm_num [Decimal.value] at hsame

end Report

end CounterStream
