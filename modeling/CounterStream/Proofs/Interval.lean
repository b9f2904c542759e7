import CounterStream.Proofs.Exactness
import CounterStream.Proofs.Frame

/-!
# Points of a range stay inside

A point of a range is its start and a part of its width, rounded three times. Rounding keeps order,
so the point is no lower than the start and grows with the uniform number it is made of. It may be
rounded up to the end or past it, and is then the number just below the end.
-/

namespace CounterStream

/-! ## Uniform numbers in order -/

namespace Uniform

theorem single_le_single {w w' : UInt32} (h : w.toNat % 2 ^ 23 ≤ w'.toNat % 2 ^ 23) :
    (single w).ordinal ≤ (single w').ordinal :=
  (Binary.IsFraction.ordinal_le_iff (by decide) (single_isFraction w) (single_isFraction w')).mpr h

theorem single_eq_zero {w : UInt32} (h : w.toNat % 2 ^ 23 = 0) : (single w).ordinal = 0 := by
  have hzero : (single 0).ordinal = 0 := by decide
  have hle : (single w).ordinal ≤ (single 0).ordinal :=
    single_le_single (h.trans_le (Nat.zero_le _))
  omega

end Uniform

namespace Distribution

variable {low high : Single}

theorem check_uniformRange_iff :
    (uniformRange low high).check = .ok () ↔
      low.isFinite ∧ high.isFinite ∧ low.lt high ∧ (high - low).isFinite := by
  simp only [check]
  constructor
  · intro h
    split_ifs at h with hbounds hwide
    simp only [Bool.or_eq_true, Bool.not_eq_true', not_or, Bool.not_eq_false,
      Bool.not_eq_true] at hbounds hwide
    obtain ⟨⟨hlow, hhigh⟩, hle⟩ := hbounds
    have hrank := Binary.rank_lt_of_not_le hlow hhigh hle
    exact ⟨hlow, hhigh, (Binary.lt_iff_rank hlow hhigh).mpr hrank, hwide⟩
  · rintro ⟨hlow, hhigh, hlt, hwide⟩
    have hle : ¬ high.le low := by
      rw [Binary.le_iff_rank hhigh hlow, not_le]
      exact (Binary.lt_iff_rank hlow hhigh).mp hlt
    simp [hlow, hhigh, hle, hwide]

/-! ## One point -/

section

variable (h : (uniformRange low high).check = .ok ())

include h

theorem part_of_width (w : UInt32) :
    (Uniform.single w * (high - low)).isFinite ∧
      (Uniform.single w * (high - low)).negative = false := by
  obtain ⟨hlow, hhigh, hlt, hwide⟩ := check_uniformRange_iff.mp h
  have hunit := Uniform.single_inUnit w
  refine ⟨Binary.isFinite_of_le (Binary.mul_ordinal_le Format.single_hasOne hunit.ordinal_le hwide)
    hwide, ?_⟩
  rw [Binary.mul_eq (hunit.isFinite Format.single_hasOne) hwide]
  show (_ != _) = false
  rw [hunit.nonneg, Binary.sub_of_rank_lt hlow hhigh ((Binary.lt_iff_rank hlow hhigh).mp hlt)]
  rfl

theorem below_end : high.below.isFinite ∧ low.rank ≤ high.below.rank ∧
    high.below.rank = high.rank - 1 := by
  obtain ⟨hlow, hhigh, hlt, -⟩ := check_uniformRange_iff.mp h
  rw [Binary.lt_iff_rank hlow hhigh] at hlt
  have hbelow := Binary.rank_below hhigh
  exact ⟨Binary.isFinite_of_between hlow hhigh (by omega) (by omega), by omega, hbelow⟩

/-- A point has the rank of the sum or, if that is lower, the rank just below the end. -/
theorem rank_inRange (w : UInt32) :
    (inRange low high w).rank =
      min (low + Uniform.single w * (high - low)).rank high.below.rank := by
  obtain ⟨hlow, -, -, -⟩ := check_uniformRange_iff.mp h
  have hsum := Binary.add_not_isNaN hlow (part_of_width h w).1
  have hbelow : ¬ high.below.isNaN := by simp [Binary.isNaN_eq_false _ (below_end h).1]
  exact Binary.rank_min hsum hbelow

theorem rank_inRange_between (w : UInt32) :
    low.rank ≤ (inRange low high w).rank ∧ (inRange low high w).rank < high.rank := by
  obtain ⟨hlow, -, -, -⟩ := check_uniformRange_iff.mp h
  obtain ⟨hpart, hsign⟩ := part_of_width h w
  obtain ⟨-, hstart, hbelow⟩ := below_end h
  have hsum := Binary.rank_le_rank_add hlow hpart (by decide) (Binary.units_nonneg hsign)
  rw [rank_inRange h w]
  omega

theorem inRange_isFinite (w : UInt32) : (inRange low high w).isFinite := by
  obtain ⟨hlow, hhigh, -, -⟩ := check_uniformRange_iff.mp h
  obtain ⟨hstart, hend⟩ := rank_inRange_between h w
  exact Binary.isFinite_of_between hlow hhigh hstart hend.le

theorem rank_inRange_of_zero {w : UInt32} (hw : w.toNat % 2 ^ 23 = 0) :
    (inRange low high w).rank = low.rank := by
  obtain ⟨hlow, -, -, hwide⟩ := check_uniformRange_iff.mp h
  obtain ⟨hpart, -⟩ := part_of_width h w
  have hordinal := Binary.mul_ordinal_eq_zero (by decide)
    ((Uniform.single_inUnit w).isFinite Format.single_hasOne) hwide
    (Or.inl (Uniform.single_eq_zero hw))
  have hzero : (Uniform.single w * (high - low)).units = 0 := by
    rw [Binary.units, hordinal, Format.units_zero]
    simp
  rw [rank_inRange h w, Binary.rank_add_of_zero hlow hpart (by decide) hzero,
    min_eq_left (below_end h).2.1]

theorem rank_inRange_mono {w w' : UInt32} (hw : w.toNat % 2 ^ 23 ≤ w'.toNat % 2 ^ 23) :
    (inRange low high w).rank ≤ (inRange low high w').rank := by
  obtain ⟨hlow, -, -, hwide⟩ := check_uniformRange_iff.mp h
  obtain ⟨hpart, hsign⟩ := part_of_width h w
  obtain ⟨hpart', hsign'⟩ := part_of_width h w'
  have hF := Format.single_hasOne
  have hordinal := Binary.mul_le_mul hF.fraction (Uniform.single_le_single hw)
    (le_refl (high - low).ordinal) ((Uniform.single_inUnit w').isFinite hF) hwide
  have hunits :
      (Uniform.single w * (high - low)).units ≤ (Uniform.single w' * (high - low)).units := by
    rw [Binary.units, Binary.units, hsign, hsign', if_neg (by decide), if_neg (by decide)]
    exact_mod_cast Format.single.units_strictMono.monotone hordinal
  rw [rank_inRange h w, rank_inRange h w']
  exact min_le_min_right _
    (Binary.rank_add_le_rank_add hF.fraction hlow hpart hlow hpart' le_rfl hunits)

end

/-! ## All points -/

/-- The accepted ranges are those of finite numbers in order whose width is finite. A slice of at
most one group is filled with points of the range, the end not among them. Only the low 23 bits of
its word tell where a point lies: it is the start when they are zero, and it grows with them. -/
theorem points_stay_inside (low high : Single) :
    ((uniformRange low high).check = .ok () ↔
      low.isFinite ∧ high.isFinite ∧ low.lt high ∧ (high - low).isFinite) ∧
    ((uniformRange low high).check = .ok () →
      (∀ (b : Block) (slice : List Single), slice.length ≤ 4 →
        (uniformRange low high).sampler.transform b slice =
          (b.words.take slice.length).map (inRange low high) ∧
        ∀ s : Single, s ∈ (uniformRange low high).sampler.transform b slice →
          s.isFinite ∧ low.le s ∧ s.lt high) ∧
      (∀ w : UInt32, w.toNat % 2 ^ 23 = 0 → (inRange low high w).eq low) ∧
      ∀ w w' : UInt32, w.toNat % 2 ^ 23 ≤ w'.toNat % 2 ^ 23 →
        (inRange low high w).le (inRange low high w')) := by
  refine ⟨check_uniformRange_iff, fun hcheck => ?_⟩
  obtain ⟨hlow, hhigh, -, -⟩ := check_uniformRange_iff.mp hcheck
  have hfinite := inRange_isFinite hcheck
  refine ⟨?_, ?_, ?_⟩
  · intro b slice hlength
    have hpoints := transform_eachWord (inRange low high) b slice hlength
    refine ⟨hpoints, ?_⟩
    intro s hs
    obtain ⟨w, -, rfl⟩ := List.mem_map.mp (hpoints ▸ hs)
    obtain ⟨hstart, hend⟩ := rank_inRange_between hcheck w
    exact ⟨hfinite w, (Binary.le_iff_rank hlow (hfinite w)).mpr hstart,
      (Binary.lt_iff_rank (hfinite w) hhigh).mpr hend⟩
  · intro w hw
    rw [Binary.eq_iff_rank (hfinite w) hlow]
    exact rank_inRange_of_zero hcheck hw
  · intro w w' hw
    rw [Binary.le_iff_rank (hfinite w) (hfinite w')]
    exact rank_inRange_mono hcheck hw

theorem points_stay_inside_below_zero :
    let low : Single := Binary.ofBits Format.single 0x80000001
    let high : Single := Binary.zero false
    let b : Block := ⟨0xFFFFFFFF, 0, 1, 2⟩
    (uniformRange low high).check = .ok () ∧
    (∀ s : Single, s ∈ (uniformRange low high).sampler.transform b [high, high, high] →
      s.isFinite ∧ low.le s ∧ s.lt high) ∧
    (inRange low high 0x800000).eq low ∧
    (inRange low high 0xFF800001).le (inRange low high 2) := by
  intro low high b
  have hcheck : (uniformRange low high).check = .ok () := by decide
  obtain ⟨hslice, hzero, hmono⟩ := (points_stay_inside low high).2 hcheck
  exact ⟨hcheck, (hslice b [high, high, high] (by decide)).2, hzero 0x800000 (by decide),
    hmono 0xFF800001 2 (by decide)⟩

end Distribution

end CounterStream
