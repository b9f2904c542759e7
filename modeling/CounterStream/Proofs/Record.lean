import CounterStream.Distribution.Record
import CounterStream.Proofs.JsonNumber
import CounterStream.Proofs.Name

/-!
# Records of distributions read back

A record that a distribution is written as gives the same distribution, every parameter bit for bit.
A parameter that is a single is read by way of a double, so its value is rounded twice, or three
times if its power of ten has to be rounded, too. Nothing is lost that way, although the double is
not always the nearest: the nearest would lose one magnitude.
-/

namespace CounterStream

namespace Json

/-! ## Records of leaves -/

/-- A value that holds no other, is written so that it is read back, and has a meaning. -/
structure IsLeaf (j : Json) : Prop where
  plain : j.IsPlain
  exact : j.isExact
  depth : j.depth = 0

theorem isLeaf_text (s : String) (h : ∀ c ∈ s.toList, IsPlainChar c) : (text s).IsLeaf :=
  ⟨⟨s, rfl, h⟩, rfl, rfl⟩

section

variable {members : List (String × Json)}

theorem isPlain_record (hnames : ∀ m ∈ members, ∀ c ∈ m.1.toList, IsPlainChar c)
    (hvalues : ∀ m ∈ members, m.2.IsLeaf) : (record members).IsPlain := by
  show MembersArePlain (members.map _)
  induction members with
  | nil => trivial
  | cons m members ih =>
    rw [List.forall_mem_cons] at hnames hvalues
    exact ⟨⟨m.1, rfl, hnames.1⟩, hvalues.1.plain, ih hnames.2 hvalues.2⟩

theorem isExact_record (hvalues : ∀ m ∈ members, m.2.IsLeaf) : (record members).isExact := by
  show membersAreExact (members.map _)
  induction members with
  | nil => rfl
  | cons m members ih =>
    rw [List.forall_mem_cons] at hvalues
    simp only [List.map_cons, membersAreExact, Option.isSome_some, hvalues.1.exact,
      ih hvalues.2, Bool.and_self]

theorem depth_record (hvalues : ∀ m ∈ members, m.2.IsLeaf) : (record members).depth = 1 := by
  show depthMembers (members.map _) + 1 = 1
  induction members with
  | nil => rfl
  | cons m members ih =>
    rw [List.forall_mem_cons] at hvalues
    simp only [List.map_cons, depthMembers, hvalues.1.depth, Nat.zero_max]
    exact ih hvalues.2

theorem once?_record (hnodup : (members.map Prod.fst).Nodup) {name : String} {value : Json}
    (hm : (name, value) ∈ members) :
    once? name (members.map fun (name, value) => (some name, value)) = some value := by
  suffices hfilter : (members.map fun (name, value) => (some name, value)).filter
      (·.1 = some name) = [(some name, value)] by
    rw [once?, hfilter]
  induction members with
  | nil => cases hm
  | cons m members ih =>
    rw [List.map_cons, List.nodup_cons] at hnodup
    obtain ⟨hnew, hrest⟩ := hnodup
    rcases List.mem_cons.mp hm with rfl | hm
    · rw [List.map_cons, List.filter_cons_of_pos (by simp), List.filter_eq_nil_iff.mpr]
      intro found hfound
      obtain ⟨n, hn, rfl⟩ := List.mem_map.mp hfound
      simp only [Option.some.injEq, decide_eq_true_eq]
      rintro rfl
      exact hnew (List.mem_map.mpr ⟨n, hn, rfl⟩)
    · have hother : m.1 ≠ name := by
        rintro rfl
        exact hnew (List.mem_map.mpr ⟨_, hm, rfl⟩)
      rw [List.map_cons, List.filter_cons_of_neg (by simpa using hother), ih hrest hm]

end

theorem mapM_once? {members : List (Option String × Json)} {names : List String}
    {values : List Json} (h : List.Forall₂ (fun name value => once? name members = some value) names
      values) : names.mapM (once? · members) = some values := by
  induction h with
  | nil => rfl
  | cons hvalue _ ih =>
    rw [List.mapM_cons, hvalue, ih]
    rfl

/-! ## Parameters -/

theorem isLeaf_single (x : Single) (hx : x.isFinite) : (single x).IsLeaf := by
  obtain ⟨literal, heq, hliteral, -, y, hy, -⟩ := exists_literal x hx
  rw [heq]
  exact ⟨hliteral, by rw [isExact, double?, hy]; rfl, rfl⟩

theorem single?_single (x : Single) (hx : x.isFinite) : (single x).single? = some x := by
  obtain ⟨literal, heq, -, hinteger, y, hy, hconvert⟩ := exists_literal x hx
  rw [heq, single?, integer?, hinteger, double?, hy]
  exact congrArg some hconvert

theorem isLeaf_whole (n : Int64) : (whole n.toInt).IsLeaf := by
  have hlow := n.minValue_le_toInt
  have hhigh := n.toInt_le
  have hbounds : Int64.minValue.toInt = -2 ^ 63 ∧ Int64.maxValue.toInt = 2 ^ 63 - 1 := by decide
  exact ⟨isLiteral_toString n.toInt, isSome_double?_toString n.toInt (by omega), rfl⟩

theorem int64?_whole (n : Int64) : (whole n.toInt).int64? = some n := by
  have hlow := n.minValue_le_toInt
  have hhigh := n.toInt_le
  have hmax : Int64.maxValue.toInt = 2 ^ 63 - 1 := by decide
  have hsize : UInt64.size = 2 ^ 64 := by decide
  have hminus : (toString n.toInt).toList ≠ ['-', '0'] := by
    intro heq
    have hzero := Decimal.integer?_toString n.toInt
    rw [heq] at hzero
    obtain h0 : 0 = n.toInt := Option.some_injective _ hzero
    rw [← h0] at heq
    exact absurd heq (by decide)
  have hinteger : Literal.integer? (toString n.toInt).toList = some n.toInt := by
    rw [Literal.integer?, if_neg hminus, Decimal.integer?_toString, Option.filter_some, if_pos]
    simp only [Bool.and_eq_true, decide_eq_true_eq]
    omega
  show (Literal.integer? _).bind _ = _
  rw [hinteger, Option.bind_some, int64?_toInt]

end Json

namespace Distribution

theorem isPlainChar_of_mem_name (d : Distribution) : ∀ c ∈ d.name.toList, Json.IsPlainChar c := by
  apply Text.forall_mem_of_all
  unfold name
  split <;> decide

theorem isPlainChar_of_mem_parameterNames (name : String) :
    ∀ n ∈ parameterNames name, ∀ c ∈ n.toList, Json.IsPlainChar c := by
  intro n hn
  apply Text.forall_mem_of_all
  revert n
  unfold parameterNames
  split <;> decide

theorem nodup_parameterNames (name : String) : ("type" :: parameterNames name).Nodup := by
  unfold parameterNames
  split <;> decide

theorem length_parameterValues (d : Distribution) :
    (parameterNames d.name).length = d.parameterValues.length := by
  cases d <;> rfl

theorem isLeaf_parameterValues (d : Distribution) (h : d.IsFinite) :
    ∀ j ∈ d.parameterValues, j.IsLeaf := by
  cases d with
  | uniformRange low high => simp [parameterValues, Json.isLeaf_single, h.1, h.2]
  | uniformInteger low high => simp [parameterValues, Json.isLeaf_whole]
  | normal mean deviation => simp [parameterValues, Json.isLeaf_single, h.1, h.2]
  | exponential rate => simpa [parameterValues] using Json.isLeaf_single rate h
  | _ => simp [parameterValues]

theorem ofValues?_parameterValues (d : Distribution) (h : d.IsFinite) :
    ofValues? Json.single? Json.int64? d.name d.parameterValues = some d := by
  cases d with
  | uniformRange low high =>
    simp [name, parameterValues, ofValues?, Json.single?_single low h.1,
      Json.single?_single high h.2]
  | uniformInteger low high => simp [name, parameterValues, ofValues?, Json.int64?_whole]
  | normal mean deviation =>
    simp [name, parameterValues, ofValues?, Json.single?_single mean h.1,
      Json.single?_single deviation h.2]
  | exponential rate => simp [name, parameterValues, ofValues?, Json.single?_single rate h]
  | _ => rfl

theorem members_toJson (d : Distribution) (h : d.IsFinite) :
    let members := ("type", Json.text d.name) :: (parameterNames d.name).zip d.parameterValues
    (∀ m ∈ members, ∀ c ∈ m.1.toList, Json.IsPlainChar c) ∧ (∀ m ∈ members, m.2.IsLeaf) ∧
      members.map Prod.fst = "type" :: parameterNames d.name := by
  have htype : ∀ c ∈ "type".toList, Json.IsPlainChar c := Text.forall_mem_of_all (by decide)
  refine ⟨List.forall_mem_cons.mpr ⟨htype, fun m hm => ?_⟩,
    List.forall_mem_cons.mpr ⟨Json.isLeaf_text _ d.isPlainChar_of_mem_name, fun m hm => ?_⟩, ?_⟩
  · exact isPlainChar_of_mem_parameterNames _ _ (List.of_mem_zip hm).1
  · exact d.isLeaf_parameterValues h _ (List.of_mem_zip hm).2
  · rw [List.map_cons, List.map_fst_zip d.length_parameterValues.le]

theorem isPlain_toJson (d : Distribution) (h : d.IsFinite) : d.toJson.IsPlain :=
  Json.isPlain_record (d.members_toJson h).1 (d.members_toJson h).2.1

theorem ofJson?_toJson (d : Distribution) (h : d.IsFinite) : ofJson? d.toJson = some d := by
  obtain ⟨-, hvalues, hnames⟩ := d.members_toJson h
  have hnodup := nodup_parameterNames d.name
  rw [← hnames] at hnodup
  have htype := Json.once?_record hnodup List.mem_cons_self
  have hmembers : List.Forall₂ (fun name value => Json.once? name
      ((("type", Json.text d.name) :: (parameterNames d.name).zip d.parameterValues).map
        fun (name, value) => (some name, value)) = some value)
      (parameterNames d.name) d.parameterValues := by
    rw [List.forall₂_iff_zip]
    exact ⟨d.length_parameterValues,
      fun {name value} hm => Json.once?_record hnodup (List.mem_cons_of_mem _ hm)⟩
  have hsound : (d.toJson.isExact && d.toJson.depth < 128) = true := by
    rw [toJson, Json.isExact_record hvalues, Json.depth_record hvalues]
    rfl
  unfold ofJson?
  rw [if_pos hsound]
  show ((Json.once? "type" _).bind _ : Option Distribution) = _
  rw [htype, Option.bind_some]
  show (((parameterNames d.name).mapM _ : Option (List Json)).bind _ : Option Distribution) = _
  rw [Json.mapM_once? hmembers, Option.bind_some, d.ofValues?_parameterValues h]

/-- The record of a distribution whose parameters are accepted is read back as the distribution.
A single in it is written with the fewest digits that stand for it and read by way of a double,
which narrows to the single again. The double is not always the nearest to the digits: that one
would narrow to another single for one magnitude, which is `7.038531e-26`. -/
theorem record_round_trip :
    (∀ d : Distribution, d.check = .ok () →
      (Json.ofText? d.toJson.compactText).bind ofJson? = some d) ∧
    ∀ x : Single, x.isFinite →
      Json.single x = .number ((Layout.bounded (-6) 12).write x).toList ∧
      (x.shortest .even).toBinary Format.single x.negative = x ∧
      (∀ d : Decimal, d.toBinary Format.single x.negative = x →
        (x.shortest .even).digits.length ≤ d.digits.length) ∧
      (∃ y, (Json.single x).double? = some y ∧ (y.convert : Single) = x) ∧
      ((((x.shortest .even).toBinary Format.double x.negative).convert : Single) = x ↔
        x.ordinal ≠ 0x15ae43fd) := by
  have hF := Format.single_moderate
  refine ⟨fun d hcheck => ?_, fun x hx => ⟨?_, x.toBinary_shortest hF .even hx,
    x.shortest_digits_le hF .even hx, ?_, x.convert_toBinary_iff .even hx⟩⟩
  · have hfinite := d.isFinite_of_check hcheck
    rw [Json.ofText?_compactText _ (d.isPlain_toJson hfinite), Option.bind_some,
      d.ofJson?_toJson hfinite]
  · rw [Json.single, Json.real, if_pos hx]
  · obtain ⟨literal, heq, -, -, y, hy, hconvert⟩ := Json.exists_literal x hx
    exact ⟨y, by rw [heq, Json.double?, hy], hconvert⟩

theorem record_round_trip_next_to_midpoint :
    let rate : Single := ⟨false, 0x15ae43fd, by decide⟩
    let d := exponential rate
    d.check = .ok () ∧ rate.isFinite ∧
    d.toJson.compactText = "\x7b\"type\":\"exponential\",\"lambda\":7.038531e-26\x7d" ∧
    (Json.ofText? d.toJson.compactText).bind ofJson? = some d ∧
    (∃ y, (Json.single rate).double? = some y ∧ (y.convert : Single) = rate) ∧
    (((rate.shortest .even).toBinary Format.double false).convert : Single) ≠ rate := by
  intro rate d
  have hcheck : d.check = .ok () := by decide +kernel
  have hfinite : rate.isFinite := by decide +kernel
  -- this is the one magnitude that the nearest double would lose
  obtain ⟨-, -, -, hread, hnearest⟩ := record_round_trip.2 rate hfinite
  exact ⟨hcheck, hfinite, by decide +kernel, record_round_trip.1 d hcheck, hread,
    fun h => hnearest.mp h rfl⟩

end Distribution

end CounterStream
