import CounterStream.Proofs.Interval
import CounterStream.Proofs.Mixing
import CounterStream.Proofs.TwoFormats

/-!
# Samples that are not finite

Uniform numbers, points of a range and standard normals are always finite. A normal sample with a
large mean or deviation, or a waiting time for a small rate, need not be, although the parameters
were accepted. No sample lies further out than the extremes, and under each key each extreme is a
sample of some block, so it is enough to look at these.
-/

namespace CounterStream

namespace Distribution

/-! ## Waiting times -/

theorem spec_of_check_exponential {rate : Single} (h : (exponential rate).check = .ok ()) :
    rate.isFinite ∧ rate.negative = false ∧ rate.ordinal ≠ 0 := by
  simp only [check] at h
  split_ifs at h with hrate
  simp only [Bool.or_eq_true, Bool.not_eq_true', not_or, Bool.not_eq_false,
    Bool.not_eq_true] at hrate
  exact ⟨hrate.1, Binary.sign_of_not_le_zero hrate.1 (by decide) hrate.2⟩

theorem single_zero_max_least : (Uniform.single 0).max Normal.least = Normal.least := by
  decide +kernel

section

variable {rate : Single} (h : (exponential rate).check = .ok ()) (w : UInt32)

include h

theorem waiting_le : (waiting rate w).ordinal ≤ (waiting rate 0).ordinal := by
  obtain ⟨hrate, -, hpos⟩ := spec_of_check_exponential h
  have hlog := Normal.log_max_least_le Normal.single_suits (Uniform.single_inUnit w)
  rw [waiting, waiting, single_zero_max_least]
  exact Binary.div_le_div (by decide) hlog Normal.single_suits.log_finite hrate hpos

theorem waiting_nonneg : (Binary.zero false).le (waiting rate w) := by
  obtain ⟨hrate, hsign, hpos⟩ := spec_of_check_exponential h
  have hunit := Uniform.single_inUnit w
  have hfinite := Binary.isFinite_of_le (Normal.log_max_least_le Normal.single_suits hunit)
    Normal.single_suits.log_finite
  refine Binary.div_nonneg (by decide) (show (Binary.neg _).isFinite from hfinite) hrate hpos ?_
    hsign
  exact (Normal.log_max_least_nonpos Normal.single_suits hunit).imp_left
    fun hlog => show (!_) = false by rw [hlog, Bool.not_true]

end

/-! ## Normal samples -/

/-- The samples that lie furthest out, where these depend on the parameters. -/
def extremes : (d : Distribution) → List d.sampleType.Value
  | normal mean deviation =>
    [(mean + Normal.radius * deviation : Single), (mean + Normal.radius.neg * deviation : Single)]
  | exponential rate => [waiting rate 0]
  | _ => []

theorem normal_isFinite {mean deviation : Single} (h : (normal mean deviation).check = .ok ())
    (hextremes : ∀ x ∈ (normal mean deviation).extremes, SampleType.single.isFinite x) {z : Single}
    (hz : z.ordinal ≤ (Normal.radius : Single).ordinal) : (mean + z * deviation).isFinite := by
  obtain ⟨hmean, hdeviation⟩ := isFinite_of_check _ h
  have hradius : (Normal.radius : Single).isFinite := Normal.single_suits.radius_finite
  have habove : (mean + Normal.radius * deviation).isFinite :=
    hextremes _ List.mem_cons_self
  have hbelow : (mean + Normal.radius.neg * deviation).isFinite :=
    hextremes _ (List.mem_cons_of_mem _ List.mem_cons_self)
  rw [Binary.neg_mul hradius hdeviation] at hbelow
  have hterm := Binary.isFinite_of_add hmean habove
  have hscaled := Binary.mul_le_mul (by decide) hz (le_refl deviation.ordinal) hradius hdeviation
  rcases Binary.add_le_add_or (by decide) hmean hterm hscaled with hle | hle
  · exact Binary.isFinite_of_le hle habove
  · exact Binary.isFinite_of_le hle hbelow

theorem component_le {F : Format} {pair : Binary F × Binary F} {n : Nat}
    (h : pair.1.ordinal ≤ n ∧ pair.2.ordinal ≤ n) (i : Nat) : (component i pair).ordinal ≤ n := by
  rw [component]
  split_ifs
  · exact h.1
  · exact h.2

theorem normalOfWords_le (w : Nat → UInt32) (i : Nat) :
    (normalOfWords w i).ordinal ≤ (Normal.radius : Single).ordinal :=
  component_le (Normal.pair_le_radius Normal.single_suits (Uniform.single_inUnit _)
    (Uniform.single_inUnit _)) i

/-! ## Samples from words -/

theorem ofWords_isFinite {d : Distribution} (h : d.check = .ok ())
    (hextremes : ∀ x ∈ d.extremes, d.sampleType.isFinite x) (w : Nat → UInt32) (i : Nat) :
    d.sampleType.isFinite (d.ofWords w i) := by
  cases d with
  | uniformSingle => exact (Uniform.single_inUnit _).isFinite Format.single_hasOne
  | uniformDouble => exact (Uniform.double_inUnit _ _).isFinite Format.double_hasOne
  | uniformHalf => exact (Uniform.half_isFraction _).isFinite
  | uniformRange low high => exact inRange_isFinite h _
  | uniformInteger low high => rfl
  | normalSingle =>
    exact Binary.isFinite_of_le (normalOfWords_le w i) Normal.single_suits.radius_finite
  | normalDouble =>
    exact Binary.isFinite_of_le (component_le (Normal.pair_le_radius Normal.double_suits
      (Uniform.double_inUnit _ _) (Uniform.double_inUnit _ _)) i) Normal.double_suits.radius_finite
  | normal mean deviation => exact normal_isFinite h hextremes (normalOfWords_le w i)
  | exponential rate =>
    exact Binary.isFinite_of_le (waiting_le h _) (hextremes _ List.mem_cons_self)

theorem exists_ofWords_eq (d : Distribution) :
    ∀ x ∈ d.extremes, ∃ (b : Block) (i : Nat), i < 2 ∧ d.ofWords b.word i = x := by
  have hradius : (Normal.pairOfWords 0 0).2 = Normal.radius ∧
      (Normal.pairOfWords 0 0x400000).2 = Normal.radius.neg := by
    decide +kernel
  cases d with
  | normal mean deviation =>
    rintro x hx
    rcases List.mem_pair.mp hx with rfl | rfl
    · exact ⟨Block.zero, 1, by decide, congrArg (mean + · * deviation) hradius.1⟩
    · exact ⟨⟨0, 0x400000, 0, 0⟩, 1, by decide, congrArg (mean + · * deviation) hradius.2⟩
  | exponential rate =>
    rintro x hx
    obtain rfl := List.mem_singleton.mp hx
    exact ⟨Block.zero, 0, by decide, rfl⟩
  | _ => simp [extremes]

end Distribution

/-! ## Items without a number -/

namespace SampleType

def isNonneg : (t : SampleType) → t.Value → Bool
  | half, x => Binary.le (F := Format.half) (Binary.zero false) x
  | single, x => Binary.le (F := Format.single) (Binary.zero false) x
  | double, x => Binary.le (F := Format.double) (Binary.zero false) x
  | integer, x => 0 ≤ Int64.toInt x

theorem real_eq_null_iff {F : Format} (L : Layout) (x : Binary F) :
    Json.real L x = .null ↔ ¬ x.isFinite := by
  rw [Json.real]
  split_ifs with hx <;> simp [hx]

theorem json_eq_null_iff (t : SampleType) (x : t.Value) :
    t.json x = .null ↔ t ≠ half ∧ ¬ t.isFinite x := by
  cases t with
  | half => simp [json, Json.natural]
  | single => exact (real_eq_null_iff _ x).trans (by simp [isFinite])
  | double => exact (real_eq_null_iff _ x).trans (by simp [isFinite])
  | integer => simp [json, Json.whole, isFinite]

end SampleType

namespace Distribution

theorem json_ofWords_eq_null_iff {d : Distribution} (h : d.check = .ok ()) (w : Nat → UInt32)
    (i : Nat) :
    d.sampleType.json (d.ofWords w i) = .null ↔ ¬ d.sampleType.isFinite (d.ofWords w i) := by
  rw [SampleType.json_eq_null_iff]
  cases d with
  | uniformHalf =>
    have hfinite := ofWords_isFinite h (by simp [extremes]) w i
    simp [hfinite]
  | _ => exact and_iff_right (by simp [sampleType])

theorem exists_sampleAt_eq (d : Distribution) (k : Key) :
    ∀ x ∈ d.extremes, ∃ (c : Counter) (i : Nat), i < 2 ∧ d.sampler.sampleAt ⟨c, k⟩ i = x := by
  intro x hx
  obtain ⟨b, i, hi, rfl⟩ := d.exists_ofWords_eq x hx
  have hsize : 2 ≤ d.groupSize := by
    rw [d.groupSize_eq_samplesPerBlock]
    unfold samplesPerBlock
    split <;> decide
  have hpeek : (Engine.mk (k.counterOf b) k).peek = b := k.block_counterOf b
  have hsample := d.sampler.finished_peek_getElem? ⟨k.counterOf b, k⟩ i (hi.trans_le hsize)
  have hwords := d.finished_getElem?_ofWords b b.word 0 i (hi.trans_le hsize)
    fun j _ => by rw [Nat.mul_zero, Nat.zero_add]
  rw [hpeek, hwords, Nat.mul_zero, Nat.zero_add] at hsample
  exact ⟨_, i, hi, (Option.some_inj.mp hsample).symm⟩

/-- For accepted parameters a fill of any length succeeds, and no waiting time in it is negative. Its
document has `null` at the samples that are not finite. There are none unless an extreme is not
finite; and under each key each extreme is one of the two samples from some counter on. -/
theorem samples_finite_unless_extreme (d : Distribution) (hcheck : d.check = .ok ())
    (sharding : Sharding) (hblocks : sharding.blocks ≠ 0) :
    (∀ (e : Engine) (count : UInt64),
      ∃ (xs : List d.sampleType.Value) (document : String) (items : List Json) (final : Engine),
        d.generate sharding e count.toNat = .ok (⟨d.sampleType, xs⟩, final) ∧
        Report.samples .json d sharding e count.toNat = .ok (document, final) ∧
        Report.itemsOf? document = some items ∧ xs.length = count.toNat ∧
        (∀ (i : Nat) (x : d.sampleType.Value), xs[i]? = some x →
          (items[i]? = some .null ↔ ¬ d.sampleType.isFinite x)) ∧
        ((∀ x ∈ d.extremes, d.sampleType.isFinite x) → ∀ x ∈ xs, d.sampleType.isFinite x) ∧
        (∀ rate, d = exponential rate → ∀ x ∈ xs, d.sampleType.isNonneg x)) ∧
    ∀ x ∈ d.extremes, ∀ k : Key, ∃ (c : Counter) (xs : List d.sampleType.Value) (final : Engine),
      d.generate sharding ⟨c, k⟩ 2 = .ok (⟨d.sampleType, xs⟩, final) ∧ x ∈ xs := by
  constructor
  · intro e count
    have hgenerate := d.generate_eq sharding e count.toNat hcheck hblocks count.toNat_lt
    have hdocument := Report.samples_eq_document hcheck hblocks e count.toNat count.toNat_lt
    refine ⟨_, _, _, _, hgenerate, hdocument,
      Report.itemsOf?_document d (d.isFinite_of_check hcheck) e _ _, by simp, ?_, ?_, ?_⟩
    · intro i x hx
      obtain ⟨j, -, rfl⟩ := List.mem_map.mp (List.mem_of_getElem? hx)
      rw [List.getElem?_map, hx, Option.map_some, Option.some_inj, d.sampleAt_eq_ofWords]
      exact json_ofWords_eq_null_iff hcheck _ j
    · rintro hextremes x hx
      obtain ⟨j, -, rfl⟩ := List.mem_map.mp hx
      rw [d.sampleAt_eq_ofWords]
      exact ofWords_isFinite hcheck hextremes _ j
    · rintro rate rfl x hx
      obtain ⟨j, -, rfl⟩ := List.mem_map.mp hx
      rw [sampleAt_eq_ofWords]
      exact waiting_nonneg hcheck _
  · intro x hx k
    obtain ⟨c, i, hi, hsample⟩ := d.exists_sampleAt_eq k x hx
    exact ⟨c, _, _, d.generate_eq sharding ⟨c, k⟩ 2 hcheck hblocks (by decide),
      List.mem_map.mpr ⟨i, List.mem_range.mpr hi, hsample⟩⟩

theorem samples_finite_near_the_end :
    let d := normal (Decimal.toBinary Format.single false ⟨1, 38⟩)
      (Decimal.toBinary Format.single false ⟨4, 37⟩)
    let e := Engine.new 0 0
    d.check = .ok () ∧ (1 : UInt64) ≠ 0 ∧ (∀ x ∈ d.extremes, d.sampleType.isFinite x) ∧
    ∃ (xs : List Single) (final : Engine),
      d.generate ⟨0, 1⟩ e 9 = .ok (⟨.single, xs⟩, final) ∧ xs.length = 9 ∧
      ∀ x ∈ xs, x.isFinite := by
  intro d e
  have hcheck : d.check = .ok () := by decide +kernel
  have hextremes : ∀ x ∈ d.extremes, d.sampleType.isFinite x := by decide +kernel
  obtain ⟨xs, -, -, final, hgenerate, -, -, hlength, -, hfinite, -⟩ :=
    (samples_finite_unless_extreme d hcheck ⟨0, 1⟩ (by decide)).1 e 9
  exact ⟨hcheck, by decide, hextremes, xs, final, hgenerate, hlength, hfinite hextremes⟩

theorem least_rate_waits_forever :
    ¬ ∀ d : Distribution, d.check = .ok () → ∀ sharding : Sharding, sharding.blocks ≠ 0 →
      ∀ (e : Engine) (count : UInt64) (xs : List d.sampleType.Value) (final : Engine),
        d.generate sharding e count.toNat = .ok (⟨d.sampleType, xs⟩, final) →
        ∀ x ∈ xs, d.sampleType.isFinite x := by
  intro hall
  let d := exponential (Decimal.toBinary Format.single false ⟨1, -45⟩)
  let e := Engine.new 0 0
  have hcheck : d.check = .ok () := by decide +kernel
  have hfinite := hall d hcheck {} (by decide) e 1 _ _
    (d.generate_eq {} e 1 hcheck (by decide) (by decide)) (d.sampler.sampleAt e 0)
    List.mem_cons_self
  have hinfinite : d.sampleType.isFinite (d.sampler.sampleAt e 0) = false := by decide +kernel
  rw [hinfinite] at hfinite
  exact absurd hfinite (by decide)

end Distribution

end CounterStream
