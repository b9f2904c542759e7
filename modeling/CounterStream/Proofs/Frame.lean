import CounterStream.Proofs.Elementary
import CounterStream.Proofs.Order
import CounterStream.Proofs.StreamOrder

/-!
# What a transform leaves alone

A transform writes the group of its block over the front of a slice. Each element that it writes is
made of the words of the block alone. What lies past the group stays as it was, except that a normal
distribution scales and shifts the whole slice.
-/

namespace CounterStream

namespace Binary

variable {F : Format} {x y : Binary F}

/-! ## Scaling by one and shifting by nothing -/

theorem isInfinite_of_not_isFinite (hnan : ¬ x.isNaN) (h : ¬ x.isFinite) : x.isInfinite := by
  rw [isNaN, decide_eq_true_eq] at hnan
  rw [isFinite_iff] at h
  rw [isInfinite, beq_iff_eq]
  omega

theorem mul_comm_of_isFinite (hx : x.isFinite) (hy : y.isFinite) : x * y = y * x := by
  rw [mul_eq hx hy, mul_eq hy hx, bne_comm, Nat.mul_comm]

theorem mul_ofNat_one (hF : F.HasOne) (hnan : ¬ x.isNaN) : x * ofNat 1 = x := by
  have hone := isFinite_one hF
  have hordinal : (ofNat 1 : Binary F).ordinal = F.ordinalOne := rfl
  have hsign : (ofNat 1 : Binary F).negative = false := rfl
  by_cases hfinite : x.isFinite
  · have hself := Format.nearest_mul_self hF.fraction F.one_pos ((isFinite_iff x).mp hfinite).le
    rw [mul_eq hfinite hone, hordinal, hF.units_one]
    exact eq_of_ordinal (by simp [ofUnits, hsign]) hself
  · have hinfinite := isInfinite_of_not_isFinite hnan hfinite
    have hx : x.ordinal = F.infinity := beq_iff_eq.mp hinfinite
    have hpos : F.ordinalOne ≠ 0 := by
      intro h0
      have hunits := hF.units_one
      rw [h0, F.units_zero] at hunits
      exact absurd F.one_pos (hunits ▸ Nat.lt_irrefl 0)
    have htwo := hF.two_lt
    have hmul : x * ofNat 1 = mul x (ofNat 1) := rfl
    have hnan' : x.isNaN = false := Bool.eq_false_of_not_eq_true hnan
    rw [hmul, mul, hnan', isNaN_eq_false _ hone, hinfinite, hordinal, hx, hsign]
    simp only [Bool.or_self, Bool.true_or, Bool.false_eq_true, if_false, if_true]
    rw [if_neg (by omega)]
    exact eq_of_ordinal (by simp [infinite]) hx.symm

/-- Zero is added without a trace only if it is negative, since the sum of two zeros of different
signs is positive. -/
theorem negativeZero_add (hF : 0 < F.fractionBits) (hpos : 0 < F.infinity) (hnan : ¬ x.isNaN) :
    zero true + x = x := by
  have hzero : (zero true : Binary F).isFinite := (isFinite_iff _).mpr hpos
  have hunits : (zero true : Binary F).units = 0 := by simp [units, zero, F.units_zero]
  by_cases hfinite : x.isFinite
  · have hself := Format.nearest_units hF ((isFinite_iff x).mp hfinite).le
    have hnonneg := Int.natCast_nonneg (F.units x.ordinal)
    rw [add_eq hzero hfinite, hunits, Int.zero_add]
    refine eq_of_ordinal ?_ ?_
    · have htrue : (zero true : Binary F).negative = true := rfl
      simp only [ofUnits, htrue, Bool.true_and]
      split_ifs with hsum
      · rfl
      · rw [units] at hsum ⊢
        cases hsign : x.negative
        · simp
        · simp only [hsign, if_true] at hsum ⊢
          exact decide_eq_true (by omega)
    · show F.nearest x.units.natAbs 1 = x.ordinal
      rw [natAbs_units, hself]
  · have hinfinite := isInfinite_of_not_isFinite hnan hfinite
    have hnan' : x.isNaN = false := Bool.eq_false_of_not_eq_true hnan
    have hadd : zero true + x = add (zero true) x := rfl
    rw [hadd, add, hnan', isNaN_eq_false _ hzero, isInfinite_eq_false _ hzero, hinfinite]
    simp

theorem zero_mul_of_nonneg (hF : 0 < F.fractionBits) (hpos : 0 < F.infinity) (hy : y.isFinite)
    (hsign : y.negative = false) (s : Bool) : zero s * y = zero s := by
  have hzero : (zero s : Binary F).isFinite := (isFinite_iff _).mpr hpos
  refine eq_of_ordinal ?_ (mul_ordinal_eq_zero hF hzero hy (Or.inl rfl))
  rw [mul_eq hzero hy]
  simp [ofUnits, hsign]

end Binary

namespace Distribution

/-! ## The front of a slice and the rest -/

theorem transform_getElem? (d : Distribution) (b : Block) (slice : List d.sampleType.Value)
    (i : Nat) (hi : i < d.groupSize) (hslice : i < slice.length) :
    (d.sampler.transform b slice)[i]? = some (d.ofWords b.word i) := by
  have hwords := d.finished_getElem?_ofWords b b.word 0 i hi
    fun j _ => by rw [Nat.mul_zero, Nat.zero_add]
  rw [Nat.mul_zero, Nat.zero_add] at hwords
  rw [d.sampler.transform_getElem?_of_lt b slice i hi hslice, hwords]

theorem transform_eachWord {α : Type} (f : UInt32 → α) (b : Block) (slice : List α)
    (h : slice.length ≤ 4) :
    (eachWord f).transform b slice = (b.words.take slice.length).map f := by
  have hgroup : (eachWord f).finished b = b.words.map f := List.map_id _
  rw [Sampler.transform_of_le _ b slice h, hgroup, List.map_take]

theorem finish_of_ne_normal (d : Distribution) (h : ∀ mean deviation, d ≠ normal mean deviation) :
    d.sampler.finish = id := by
  cases d with
  | normal mean deviation => exact absurd rfl (h mean deviation)
  | _ => rfl

/-! ## Normals -/

theorem spec_of_check_normal {mean deviation : Single}
    (h : (normal mean deviation).check = .ok ()) :
    mean.isFinite ∧ deviation.isFinite ∧ deviation.negative = false := by
  simp only [check] at h
  split_ifs at h with hbad
  simp only [Bool.or_eq_true, Bool.not_eq_true', not_or, Bool.not_eq_false,
    Bool.not_eq_true] at hbad
  obtain ⟨⟨hmean, hdeviation⟩, hle⟩ := hbad
  exact ⟨hmean, hdeviation, (Binary.sign_of_not_le_zero hdeviation (by decide) hle).1⟩

theorem normal_trivial_iff {mean deviation : Single}
    (h : (normal mean deviation).check = .ok ()) :
    (∀ x : Single, ¬ x.isNaN → mean + x * deviation = x) ↔
      mean = Binary.zero true ∧ deviation = Binary.ofNat 1 := by
  obtain ⟨hmean, hdeviation, hsign⟩ := spec_of_check_normal h
  have hF : 0 < Format.single.fractionBits := by decide
  have hone : (Binary.ofNat 1 : Single).isFinite := Binary.isFinite_one Format.single_hasOne
  constructor
  · intro hall
    have hzero : (Binary.zero true : Single).isFinite := by decide
    have hunits : (Binary.zero true : Single).units = 0 := by decide
    -- The mean is read off a negative zero, and the deviation off one.
    have hshifted := hall (Binary.zero true) (by decide)
    rw [Binary.zero_mul_of_nonneg hF (by decide) hdeviation hsign] at hshifted
    have hrank := Binary.rank_add_of_zero hmean hzero hF hunits
    rw [hshifted] at hrank
    have hordinal : mean.ordinal = 0 := by
      have hself : (Binary.zero true : Single).rank = 0 := by decide
      rw [hself, Binary.rank] at hrank
      split_ifs at hrank <;> omega
    have hnegative : mean.negative = true := by
      have hsum : mean.units + (Binary.zero true : Single).units = 0 := by
        rw [hunits, Binary.units, hordinal, Format.units_zero]
        simp
      have hadd := congrArg Binary.negative hshifted
      rw [Binary.add_eq hmean hzero, if_pos hsum] at hadd
      simpa [Binary.ofUnits, Binary.zero] using hadd
    obtain rfl : mean = Binary.zero true := Binary.eq_of_ordinal hnegative hordinal
    have hscaled := hall (Binary.ofNat 1) (by decide)
    have hnan : ¬ deviation.isNaN := by simp [Binary.isNaN_eq_false _ hdeviation]
    rw [Binary.mul_comm_of_isFinite hone hdeviation, Binary.mul_ofNat_one Format.single_hasOne hnan,
      Binary.negativeZero_add hF (by decide) hnan] at hscaled
    exact ⟨rfl, hscaled⟩
  · rintro ⟨rfl, rfl⟩ x hx
    rw [Binary.mul_ofNat_one Format.single_hasOne hx, Binary.negativeZero_add hF (by decide) hx]

/-! ## Slices of any length -/

/-- A slice keeps its length, and what is written into it is made of the words of the block,
whatever the slice held. Past the group a slice stays as it was unless the distribution is a normal,
which scales and shifts all of it. That shows in some slice, even one of numbers only, unless the
mean is negative zero and the deviation one. -/
theorem rest_of_slice_stays_unless_normal (b : Block) :
    (∀ (d : Distribution) (slice : List d.sampleType.Value),
      (d.sampler.transform b slice).length = slice.length ∧
      (∀ i < d.samplesPerBlock, i < slice.length →
        (d.sampler.transform b slice)[i]? = some (d.ofWords b.word i)) ∧
      ((∀ mean deviation, d ≠ normal mean deviation) →
        ∀ i, d.samplesPerBlock ≤ i → (d.sampler.transform b slice)[i]? = slice[i]?)) ∧
    ∀ mean deviation : Single, (normal mean deviation).check = .ok () →
      (∀ (slice : List Single) (i : Nat), 4 ≤ i →
        ((normal mean deviation).sampler.transform b slice)[i]? =
          slice[i]?.map fun x => mean + x * deviation) ∧
      ((∀ slice : List Single, (∀ x ∈ slice, ¬ x.isNaN) → ∀ i, 4 ≤ i →
          ((normal mean deviation).sampler.transform b slice)[i]? = slice[i]?) ↔
        mean = Binary.zero true ∧ deviation = Binary.ofNat 1) := by
  constructor
  · intro d slice
    rw [← d.groupSize_eq_samplesPerBlock]
    refine ⟨d.sampler.transform_length b slice, d.transform_getElem? b slice, ?_⟩
    intro hne i hi
    rw [d.sampler.transform_getElem?_of_le b slice i hi, d.finish_of_ne_normal hne,
      Option.map_id_fun, id]
  · intro mean deviation hcheck
    have hrest (slice : List Single) (i : Nat) (hi : 4 ≤ i) :
        ((normal mean deviation).sampler.transform b slice)[i]? =
          slice[i]?.map fun x => mean + x * deviation :=
      (normal mean deviation).sampler.transform_getElem?_of_le b slice i hi
    refine ⟨hrest, ?_⟩
    rw [← normal_trivial_iff hcheck]
    constructor
    · intro hstays x hx
      have hlast := hstays [x, x, x, x, x] (by simpa using hx) 4 le_rfl
      rw [hrest _ 4 le_rfl] at hlast
      exact Option.some_inj.mp hlast
    · intro htrivial slice hslice i hi
      rw [hrest slice i hi]
      cases hx : slice[i]? with
      | none => rfl
      | some x => rw [Option.map_some, htrivial x (hslice x (List.mem_of_getElem? hx))]

theorem rest_of_slice_stays_unless_doubled :
    let b : Block := ⟨5, 6, 7, 8⟩
    let sevens : List Int64 := List.replicate 5 7
    let ones : List Single := List.replicate 5 (Binary.ofNat 1)
    let integers := uniformInteger (-3) 3
    let d := normal (Binary.ofNat 1) (Binary.ofNat 2)
    d.check = .ok () ∧
    (integers.sampler.transform b sevens)[3]? = some (-1 : Int64) ∧
    (integers.sampler.transform b sevens)[4]? = some (7 : Int64) ∧
    (d.sampler.transform b ones)[4]? =
      some (Binary.ofNat 1 + Binary.ofNat 1 * Binary.ofNat 2 : Single) ∧
    ¬ ∀ slice : List Single, (∀ x ∈ slice, ¬ x.isNaN) → ∀ i, 4 ≤ i →
      (d.sampler.transform b slice)[i]? = slice[i]? := by
  intro b sevens ones integers d
  have hcheck : d.check = .ok () := by decide
  obtain ⟨hall, hnormal⟩ := rest_of_slice_stays_unless_normal b
  obtain ⟨-, hfront, hrest⟩ := hall integers sevens
  obtain ⟨hscaled, htrivial⟩ := hnormal (Binary.ofNat 1) (Binary.ofNat 2) hcheck
  have hdeviation : (Binary.ofNat 2 : Single) ≠ Binary.ofNat 1 := by decide
  have hlast : inIntegers (-3) 3 8 = -1 := by decide
  exact ⟨hcheck, (hfront 3 (by decide) (by decide)).trans (congrArg some hlast),
    hrest (by simp [integers]) 4 le_rfl, hscaled ones 4 le_rfl,
    fun hstays => hdeviation (htrivial.mp hstays).2⟩

theorem normal_writes_past_group :
    ¬ ∀ d : Distribution, d.check = .ok () →
      ∀ (b : Block) (slice : List d.sampleType.Value) (i : Nat), d.samplesPerBlock ≤ i →
        (d.sampler.transform b slice)[i]? = slice[i]? := by
  intro hall
  let d := normal (Binary.ofNat 1) (Binary.ofNat 2)
  have hstays := hall d (by decide) ⟨5, 6, 7, 8⟩
    (List.replicate 5 (Binary.ofNat 1 : Single)) 4 le_rfl
  rw [d.sampler.transform_getElem?_of_le _ _ 4 le_rfl] at hstays
  have hchanged : (Binary.ofNat 1 + Binary.ofNat 1 * Binary.ofNat 2 : Single) ≠ Binary.ofNat 1 := by
    decide
  exact hchanged (Option.some_inj.mp hstays)

end Distribution

end CounterStream
