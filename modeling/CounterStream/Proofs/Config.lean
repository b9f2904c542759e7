import CounterStream.Config
import CounterStream.Proofs.TomlDocument
import CounterStream.Proofs.TomlFit
import CounterStream.Proofs.Widening

/-!
# Configurations read back

A configuration that is accepted and can be written is read back from its text, every number bit for
bit. One that was read can always be written, since its document held no larger numbers.
-/

namespace CounterStream

namespace Distribution

theorem ofToml?_toToml (d : Distribution) (h : d.IsFinite) :
    ofToml? (.table .header d.toToml) = some d := by
  have hreal (x : Single) (hx : x.isFinite) : Toml.single? (.float x.convert) = some x := by
    show some _ = _
    rw [Binary.convert_convert (by decide) (by decide) Format.single_widens_double x hx]
  have hinteger (n : Int64) : Toml.int64? (.integer n.toInt) = some n := by
    rw [Toml.int64?, Int64.ofInt_toInt]
  cases d with
  | uniformRange low high =>
    simp [ofToml?, toToml, name, parameterNames, Toml.find?, ofValues?, hreal _ h.1, hreal _ h.2]
  | uniformInteger low high =>
    simp [ofToml?, toToml, name, parameterNames, Toml.find?, ofValues?, hinteger]
  | normal mean deviation =>
    simp [ofToml?, toToml, name, parameterNames, Toml.find?, ofValues?, hreal _ h.1, hreal _ h.2]
  | exponential rate =>
    simp [ofToml?, toToml, name, parameterNames, Toml.find?, ofValues?, hreal _ h]
  | _ => rfl

theorem isPlain_real (x : Single) (h : x.isFinite) : Toml.IsPlain (.float x.convert) :=
  .float x.convert (Binary.convert_exact (by decide) Format.single_widens_double x h).1

theorem isSection_toToml (d : Distribution) (h : d.IsFinite) : Toml.IsSection d.toToml := by
  have hname : Toml.IsPlain (.string d.name) := by
    apply Toml.IsPlain.string
    apply Text.forall_mem_of_all
    cases d <;> simp only [name] <;> decide
  have htype {entries : Toml.Entries} (hentries : Toml.IsSection entries)
      (hnew : "type" ∉ entries.map Prod.fst) :
      Toml.IsSection (("type", .string d.name) :: entries) :=
    hentries.cons (by decide) hname hnew
  have hpair {a b : String} {x y : Toml} (ha : Toml.IsBareKey a) (hb : Toml.IsBareKey b)
      (hab : a ≠ b) (hx : x.IsPlain) (hy : y.IsPlain) : Toml.IsSection [(a, x), (b, y)] :=
    (Toml.isSection_nil.cons hb hy (by simp)).cons ha hx (by simpa using hab)
  cases d with
  | uniformRange low high =>
    exact htype (hpair (a := "low") (b := "high") (by decide) (by decide) (by decide)
      (isPlain_real low h.1) (isPlain_real high h.2)) (by simp [name, parameterNames])
  | uniformInteger low high =>
    exact htype (hpair (a := "low") (b := "high") (by decide) (by decide) (by decide)
      (.integer low.toInt) (.integer high.toInt)) (by simp [name, parameterNames])
  | normal mean deviation =>
    exact htype (hpair (a := "mean") (b := "std_dev") (by decide) (by decide) (by decide)
      (isPlain_real mean h.1) (isPlain_real deviation h.2)) (by simp [name, parameterNames])
  | exponential rate =>
    exact htype (Toml.isSection_nil.cons (by decide) (isPlain_real rate h) (by simp))
      (by simp [name, parameterNames])
  | _ => exact htype Toml.isSection_nil (by simp)

end Distribution

namespace Config

/-! ## From a configuration to its text and back -/

theorem check_parts {c : Config} (h : c.check = .ok ()) :
    c.distribution.check = .ok () ∧ c.sharding.blocks ≠ 0 := by
  rw [check, Sharding.check] at h
  cases hd : c.distribution.check with
  | error e =>
    rw [hd] at h
    cases h
  | ok =>
    rw [hd] at h
    refine ⟨rfl, fun hblocks => ?_⟩
    rw [if_pos hblocks] at h
    cases h

/-- The keys of the root. -/
def keys (c : Config) : Toml.Entries :=
  (match c.seed with
    | none => []
    | some seed => [("seed", .integer seed.toInt)]) ++ [("offset", .integer c.offset.toNat)]

def fill (c : Config) : Toml.Entries := [
  ("parallel_threshold", .integer c.sharding.threshold.toNat),
  ("blocks_per_shard", .integer c.sharding.blocks.toNat)]

def sections (c : Config) : List (String × Toml.Entries) :=
  [("distribution", c.distribution.toToml), ("fill", c.fill)]

theorem toText_eq_ok_iff (c : Config) (s : String) :
    c.toText = .ok s ↔ Toml.write? c.keys c.sections = some s := by
  rw [toText]
  split
  · rename_i h
    have hnone : Toml.write? c.keys c.sections = none := h
    simp [hnone]
  · rename_i t h
    have hsome : Toml.write? c.keys c.sections = some t := h
    simp [hsome]

theorem isSection_keys (c : Config) : Toml.IsSection c.keys := by
  have hoffset : Toml.IsSection [("offset", .integer c.offset.toNat)] :=
    Toml.isSection_nil.cons (by decide) (.integer _) (by simp)
  rw [keys]
  cases c.seed with
  | none => exact hoffset
  | some seed => exact hoffset.cons (by decide) (.integer _) (by simp)

theorem isSection_fill (c : Config) : Toml.IsSection c.fill :=
  (Toml.isSection_nil.cons (by decide) (.integer _) (by simp)).cons (by decide) (.integer _)
    (by simp)

theorem isSection_sections (c : Config) (h : c.distribution.IsFinite) :
    ∀ part ∈ c.sections, Toml.IsSection part.2 := by
  simp only [sections, List.forall_mem_cons, List.not_mem_nil, false_implies, implies_true,
    and_true]
  exact ⟨c.distribution.isSection_toToml h, c.isSection_fill⟩

theorem document?_written (c : Config) (h : c.distribution.IsFinite) (s : String)
    (hs : Toml.write? c.keys c.sections = some s) :
    Toml.document? s = some (c.keys ++ [("distribution", .table .header c.distribution.toToml),
      ("fill", .table .header c.fill)]) := by
  have hnames : ∀ part ∈ c.sections, Toml.IsBareKey part.1 := by
    simp only [sections, List.forall_mem_cons, List.not_mem_nil, false_implies, implies_true,
      and_true]
    decide
  have hnodup : (c.keys.map Prod.fst ++ c.sections.map Prod.fst).Nodup := by
    rw [keys]
    cases c.seed <;> simp [sections]
  exact Toml.document?_write? c.isSection_keys hnames (c.isSection_sections h) hnodup hs

theorem ofEntries?_written (c : Config) (h : c.distribution.IsFinite) :
    ofEntries? (c.keys ++ [("distribution", .table .header c.distribution.toToml),
      ("fill", .table .header c.fill)]) = some c := by
  have hdistribution := c.distribution.ofToml?_toToml h
  have hnumber (n : UInt64) : Toml.uint64? (.integer n.toNat) = some n := by
    rw [Toml.uint64?, if_pos (Int.natCast_nonneg _), Int.toNat_natCast, UInt64.ofNat_toNat]
  have hsharding : Sharding.ofToml? (.table .header c.fill) = some c.sharding := by
    simp [Sharding.ofToml?, fill, Toml.find?, Toml.uint64Or?, hnumber]
  obtain ⟨seed, offset, distribution, sharding⟩ := c
  cases seed with
  | none =>
    simp [ofEntries?, keys, Toml.find?, Toml.uint64Or?, hnumber, hdistribution, hsharding]
  | some seed =>
    simp [ofEntries?, keys, Toml.find?, Toml.uint64Or?, hnumber, hdistribution, hsharding,
      Toml.int64?]

theorem ofText_toText (c : Config) (hcheck : c.check = .ok ()) (s : String)
    (h : c.toText = .ok s) : ofText s = .ok c := by
  have hfinite := c.distribution.isFinite_of_check (check_parts hcheck).1
  rw [ofText, c.document?_written hfinite s ((c.toText_eq_ok_iff s).mp h), Option.bind_some,
    c.ofEntries?_written hfinite]
  show (do c.check; return c) = _
  rw [hcheck]
  rfl

/-! ## Configurations that can be written -/

theorem int64?_natCast_isSome_iff (n : Nat) : (int64? n).isSome ↔ n < 2 ^ 63 := by
  have hleast : Int64.minValue.toInt = -2 ^ 63 := by decide
  have hgreatest : Int64.maxValue.toInt = 2 ^ 63 - 1 := by decide
  simp only [int64?, hleast, hgreatest, Option.isSome_ite]
  omega

/-- The numbers that have no sign fit 64 bits with one. -/
def Fits (c : Config) : Prop :=
  c.offset.toNat < 2 ^ 63 ∧ c.sharding.threshold.toNat < 2 ^ 63 ∧ c.sharding.blocks.toNat < 2 ^ 63

theorem entriesFit_toToml (d : Distribution) : Toml.EntriesFit d.toToml := by
  cases d <;> simp [Distribution.toToml, Distribution.name, Distribution.parameterNames,
    int64?_toInt]

theorem entriesFit_keys_iff (c : Config) :
    Toml.EntriesFit c.keys ↔ c.offset.toNat < 2 ^ 63 := by
  rw [keys]
  cases c.seed <;> simp [int64?_natCast_isSome_iff, int64?_toInt]

theorem exists_toText_iff (c : Config) (hcheck : c.check = .ok ()) :
    (∃ s, c.toText = .ok s) ↔ c.Fits := by
  have hfinite := c.distribution.isFinite_of_check (check_parts hcheck).1
  simp only [toText_eq_ok_iff, ← Option.isSome_iff_exists]
  rw [Toml.write?_isSome_iff c.isSection_keys (c.isSection_sections hfinite), entriesFit_keys_iff]
  simp [sections, fill, Fits, entriesFit_toToml, int64?_natCast_isSome_iff]

/-! ## From a document to a configuration and back -/

theorem ofText_eq_ok {s : String} {c : Config} (h : ofText s = .ok c) :
    c.check = .ok () ∧
      ∃ entries, Toml.document? s = some entries ∧ ofEntries? entries = some c := by
  rw [ofText] at h
  split at h
  · cases h
  · rename_i read hread
    cases hcheck : read.check with
    | error e =>
      rw [hcheck] at h
      cases h
    | ok =>
      rw [hcheck] at h
      cases h
      exact ⟨hcheck, Option.bind_eq_some_iff.mp hread⟩

theorem lt_of_uint64Or? {default n : UInt64} {value : Option Toml}
    (hdefault : default.toNat < 2 ^ 63) (hvalue : ∀ v ∈ value, v.Fits)
    (h : Toml.uint64Or? default value = some n) : n.toNat < 2 ^ 63 := by
  cases value with
  | none =>
    obtain rfl := Option.some_inj.mp h
    exact hdefault
  | some value =>
    have hfits := hvalue value rfl
    cases value with
    | integer m =>
      rw [Toml.uint64Or?, Toml.uint64?] at h
      split_ifs at h with hpos
      obtain rfl := Option.some_inj.mp h
      lift m to Nat using hpos
      rw [Toml.fits_integer_iff, int64?_natCast_isSome_iff] at hfits
      rw [Int.toNat_natCast, UInt64.toNat_ofNat_of_lt' (by rw [UInt64.size]; omega)]
      exact hfits
    | _ => cases h

theorem lt_of_ofToml? {value : Toml} (hvalue : value.Fits) {s : Sharding}
    (h : Sharding.ofToml? value = some s) :
    s.threshold.toNat < 2 ^ 63 ∧ s.blocks.toNat < 2 ^ 63 := by
  have hparts {threshold blocks : Option Toml} (ht : ∀ v ∈ threshold, v.Fits)
      (hb : ∀ v ∈ blocks, v.Fits)
      (h : (do
        return {
          threshold := ← Toml.uint64Or? ({} : Sharding).threshold threshold
          blocks := ← Toml.uint64Or? ({} : Sharding).blocks blocks : Sharding }) = some s) :
      s.threshold.toNat < 2 ^ 63 ∧ s.blocks.toNat < 2 ^ 63 := by
    obtain ⟨t, hthreshold, h⟩ := Option.bind_eq_some_iff.mp h
    obtain ⟨b, hblocks, h⟩ := Option.bind_eq_some_iff.mp h
    obtain rfl := Option.some_inj.mp h
    exact ⟨lt_of_uint64Or? (by decide) ht hthreshold, lt_of_uint64Or? (by decide) hb hblocks⟩
  cases hvalue with
  | table origin entries hentries =>
    exact hparts (fun v hv => Toml.EntriesFit.find? hentries hv)
      (fun v hv => Toml.EntriesFit.find? hentries hv) h
  | array items hitems =>
    exact hparts (fun v hv => hitems v (List.mem_of_getElem? hv))
      (fun v hv => hitems v (List.mem_of_getElem? hv)) h
  | datetime literal =>
    obtain rfl := Option.some_inj.mp h
    decide
  | _ => cases h

theorem ofEntries?_eq (entries : Toml.Entries) :
    ofEntries? entries =
      (match Toml.find? "seed" entries with
        | none => some none
        | some value => value.int64?.map some).bind fun seed =>
      (Toml.uint64Or? 0 (Toml.find? "offset" entries)).bind fun offset =>
      (match Toml.find? "distribution" entries with
        | none => some Distribution.uniformSingle
        | some value => Distribution.ofToml? value).bind fun distribution =>
      (match Toml.find? "fill" entries with
        | none => some ({} : Sharding)
        | some value => Sharding.ofToml? value).bind fun sharding =>
      some { seed, offset, distribution, sharding } := by
  rw [ofEntries?]
  cases Toml.find? "seed" entries <;> cases Toml.find? "distribution" entries <;>
    cases Toml.find? "fill" entries <;> rfl

theorem ofEntries?_parts {entries : Toml.Entries} {c : Config} (h : ofEntries? entries = some c) :
    Toml.uint64Or? 0 (Toml.find? "offset" entries) = some c.offset ∧
      (c.sharding = {} ∨ ∃ value, Toml.find? "fill" entries = some value ∧
        Sharding.ofToml? value = some c.sharding) := by
  rw [ofEntries?_eq] at h
  obtain ⟨seed, -, h⟩ := Option.bind_eq_some_iff.mp h
  obtain ⟨offset, hoffset, h⟩ := Option.bind_eq_some_iff.mp h
  obtain ⟨distribution, -, h⟩ := Option.bind_eq_some_iff.mp h
  obtain ⟨sharding, hsharding, h⟩ := Option.bind_eq_some_iff.mp h
  obtain rfl := Option.some_inj.mp h
  refine ⟨hoffset, ?_⟩
  split at hsharding
  · exact Or.inl (Option.some_inj.mp hsharding).symm
  · exact Or.inr ⟨_, by assumption, hsharding⟩

theorem fits_of_ofEntries? {entries : Toml.Entries} (hentries : Toml.EntriesFit entries)
    {c : Config} (h : ofEntries? entries = some c) : c.Fits := by
  obtain ⟨hoffset, hsharding⟩ := ofEntries?_parts h
  refine ⟨lt_of_uint64Or? (by decide) (fun v hv => hentries.find? hv) hoffset, ?_⟩
  rcases hsharding with hdefault | ⟨value, hvalue, hsharding⟩
  · rw [hdefault]
    decide
  · exact lt_of_ofToml? (hentries.find? hvalue) hsharding

theorem check_and_fits_of_ofText {s : String} {c : Config} (h : ofText s = .ok c) :
    c.check = .ok () ∧ c.Fits := by
  obtain ⟨hcheck, entries, hentries, hread⟩ := ofText_eq_ok h
  exact ⟨hcheck, fits_of_ofEntries? (Toml.entriesFit_document? hentries) hread⟩

/-- An accepted configuration is read back from its text whenever it has one, which it has just when
its numbers fit 64 bits with a sign. What is read from any document is accepted, has a text, and is
read back from that. -/
theorem text_round_trip :
    (∀ c : Config, c.check = .ok () →
      ((∃ s, c.toText = .ok s) ↔ c.Fits) ∧ ∀ s, c.toText = .ok s → ofText s = .ok c) ∧
    ∀ (s : String) (c : Config), ofText s = .ok c →
      c.check = .ok () ∧ ∃ t, c.toText = .ok t ∧ ofText t = .ok c := by
  refine ⟨fun c hcheck => ⟨c.exists_toText_iff hcheck, c.ofText_toText hcheck⟩, fun s c h => ?_⟩
  obtain ⟨hcheck, hfits⟩ := check_and_fits_of_ofText h
  obtain ⟨t, ht⟩ := (c.exists_toText_iff hcheck).mpr hfits
  exact ⟨hcheck, t, ht, c.ofText_toText hcheck t ht⟩

theorem text_round_trip_at_limits :
    let least : Single := ⟨false, 1, by decide⟩
    let c : Config := {
      seed := some 0
      distribution := .normal (Binary.zero true) least
      sharding := { threshold := 9223372036854775807 } }
    let document := "fill = [9223372036854775807]\nseed = -0\n" ++
      "distribution = \x7b type = 'normal', mean = -0.0, std_dev = 1.4e-45 \x7d # least"
    ofText document = .ok c ∧ c.check = .ok () ∧ c.Fits ∧
      ∃ t, c.toText = .ok t ∧ ofText t = .ok c := by
  intro least c document
  -- a list for one record, an inline table for the other, and numbers at both ends
  have hread : ofText document = .ok c := by decide +kernel
  obtain ⟨hcheck, t, ht, -⟩ := text_round_trip.2 document c hread
  obtain ⟨hfits, hback⟩ := text_round_trip.1 c hcheck
  exact ⟨hread, hcheck, hfits.mp ⟨t, ht⟩, t, ht, hback t ht⟩

end Config

end CounterStream
