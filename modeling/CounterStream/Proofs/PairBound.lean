import CounterStream.Proofs.Exactness

/-!
# The bound of a normal pair

How a logarithm, a sine or a cosine is calculated is not settled by the arithmetic of a format. All
that a pair needs of them is a range: then no coordinate of a pair is further than 5.7 from zero,
whatever the words are.
-/

namespace CounterStream

/-! ## Values and ordinals -/

namespace Binary

variable {F : Format} {x : Binary F}

theorem abs_toRat (x : Binary F) : |x.toRat| = x.magnitude := by
  have hnonneg := x.magnitude_nonneg
  unfold toRat
  split_ifs
  · rw [abs_neg, abs_of_nonneg hnonneg]
  · exact abs_of_nonneg hnonneg

theorem magnitude_le_div_iff {a b : Nat} (hb : 0 < b) :
    x.magnitude ≤ (a / b : ℚ) ↔ b * F.units x.ordinal ≤ a * F.one := by
  have hone : (0 : ℚ) < F.one := Nat.cast_pos.mpr F.one_pos
  have hden : (0 : ℚ) < b := Nat.cast_pos.mpr hb
  rw [magnitude, div_le_div_iff₀ hone hden, mul_comm]
  exact_mod_cast Iff.rfl

theorem magnitude_le_one_iff (hF : F.HasOne) : x.magnitude ≤ 1 ↔ x.ordinal ≤ F.ordinalOne := by
  have hunits := magnitude_le_div_iff (x := x) (a := 1) Nat.one_pos
  rw [Nat.cast_one, div_one, Nat.one_mul, Nat.one_mul, ← hF.units_one] at hunits
  rw [hunits, F.units_strictMono.le_iff_le]

theorem toRat_nonpos_iff : x.toRat ≤ 0 ↔ x.negative = true ∨ x.ordinal = 0 := by
  have hone := F.one_pos
  have hnonneg := x.magnitude_nonneg
  have hzero : x.magnitude ≤ 0 ↔ x.ordinal = 0 := by
    have hunits := magnitude_le_div_iff (x := x) (a := 0) Nat.one_pos
    rw [Nat.cast_zero, zero_div, Nat.one_mul, Nat.zero_mul, ← F.units_zero] at hunits
    rw [hunits, F.units_strictMono.le_iff_le, Nat.le_zero]
  unfold toRat
  split_ifs with hsign
  · simp [hsign, hnonneg]
  · simp [hsign, hzero]

theorem ordinal_between {low high : Binary F} (hlow : low.negative = false)
    (hpos : low.ordinal ≠ 0) (hhigh : high.negative = false) (hle : low.le x) (hlt : x.lt high) :
    x.negative = false ∧ low.ordinal ≤ x.ordinal ∧ x.ordinal < high.ordinal := by
  simp only [le, lt, rank, hlow, hhigh, Bool.and_eq_true, decide_eq_true_eq] at hle hlt
  cases hsign : x.negative
  · simp only [hsign] at hle hlt
    refine ⟨rfl, ?_, ?_⟩
    · simpa using hle.2
    · simpa using hlt.2
  · have hrank := hle.2
    simp only [hsign, if_true, Bool.false_eq_true, if_false] at hrank
    omega

end Binary

namespace Normal

variable {F : Format}

/-- The pair, whatever stands for the logarithm, the sine and the cosine. -/
def pairWith (log sin cos : Binary F → Binary F) (u v : Binary F) : Binary F × Binary F :=
  let angle := Binary.ofNat 2 * pi * v
  let radius := ((Binary.ofNat 2).neg * log (u.max least)).sqrt
  (sin angle * radius, cos angle * radius)

theorem pair_eq_pairWith (u v : Binary F) :
    pair u v = pairWith Binary.log Binary.sin Binary.cos u v := rfl

/-- A logarithm that stays between -16.2 and zero where pairs take one, and a sine and a cosine
that stay between -1 and 1. -/
structure InRange (log sin cos : Binary F → Binary F) : Prop where
  log (x : Binary F) : least.le x → x.lt (Binary.ofNat 1) →
    (log x).isFinite ∧ -(81 / 5) ≤ (log x).toRat ∧ (log x).toRat ≤ 0
  sin (x : Binary F) : x.isFinite → (sin x).isFinite ∧ |(sin x).toRat| ≤ 1
  cos (x : Binary F) : x.isFinite → (cos x).isFinite ∧ |(cos x).toRat| ≤ 1

/-- The number nearest to -16.2. -/
def deepest : Binary F := Decimal.toBinary F true ⟨162, -1⟩

/-- A format in which the radius of the deepest logarithm is at most 5.7. -/
structure Bounds (F : Format) : Prop extends Suits F where
  least_lt_one : (least : Binary F).ordinal < F.ordinalOne
  log_least_le : 10 * F.units (least : Binary F).log.ordinal ≤ 162 * F.one
  deepest_negative : (deepest : Binary F).negative = true
  deepest_finite : (deepest : Binary F).isFinite
  deepest_nearest : 162 * F.one < 10 * F.units ((deepest : Binary F).ordinal + 1)
  deepest_square_finite : ((Binary.ofNat 2).neg * (deepest : Binary F)).isFinite
  deepest_radius_finite : ((Binary.ofNat 2).neg * (deepest : Binary F)).sqrt.isFinite
  deepest_radius_le :
    10 * F.units ((Binary.ofNat 2).neg * (deepest : Binary F)).sqrt.ordinal ≤ 57 * F.one

theorem single_bounds : Bounds Format.single where
  toSuits := single_suits
  least_lt_one := by decide
  log_least_le := by decide +kernel
  deepest_negative := by decide
  deepest_finite := by decide
  deepest_nearest := by decide +kernel
  deepest_square_finite := by decide
  deepest_radius_finite := by decide +kernel
  deepest_radius_le := by decide +kernel

theorem double_bounds : Bounds Format.double where
  toSuits := double_suits
  least_lt_one := by decide +kernel
  log_least_le := by decide +kernel
  deepest_negative := by decide +kernel
  deepest_finite := by decide +kernel
  deepest_nearest := by decide +kernel
  deepest_square_finite := by decide +kernel
  deepest_radius_finite := by decide +kernel
  deepest_radius_le := by decide +kernel

/-! ## The ranges of the functions -/

theorem inRange (hF : Bounds F) : InRange (F := F) Binary.log Binary.sin Binary.cos := by
  have hunit {x : Binary F} (hx : x.isFinite) (h : x.ordinal ≤ F.ordinalOne) :
      x.isFinite ∧ |x.toRat| ≤ 1 := by
    rw [Binary.abs_toRat, Binary.magnitude_le_one_iff hF.toHasOne]
    exact ⟨hx, h⟩
  have hone : (Binary.ofNat 1 : Binary F).isFinite := Binary.isFinite_one hF.toHasOne
  refine ⟨fun x hlow hhigh => ?_, fun x hx => ?_, fun x hx => ?_⟩
  · obtain ⟨hsign, hle, hlt⟩ :=
      Binary.ordinal_between hF.least_inUnit.nonneg hF.least_pos rfl hlow hhigh
    have hinUnit : x.InUnit := ⟨hsign, hlt.le⟩
    have hpos : x.ordinal ≠ 0 := by
      have := hF.least_pos
      omega
    have hlog := Binary.log_le_log hF.toHasOne hinUnit hF.least_pos hle hF.least_inUnit.nonneg
    have hmagnitude : x.log.magnitude ≤ (162 : Nat) / (10 : Nat) := by
      rw [Binary.magnitude_le_div_iff (by decide)]
      exact (Nat.mul_le_mul_left 10 (F.units_strictMono.monotone hlog)).trans hF.log_least_le
    refine ⟨Binary.isFinite_of_le hlog hF.log_finite, ?_,
      Binary.toRat_nonpos_iff.mpr (Binary.log_nonpos hF.toHasOne hinUnit hpos)⟩
    rw [← Binary.abs_toRat] at hmagnitude
    norm_num at hmagnitude
    exact (abs_le.mp hmagnitude).1
  · have hsin := Binary.sin_le_one hF.toHasOne hx
    exact hunit (Binary.isFinite_of_le (y := Binary.ofNat 1) hsin hone) hsin
  · have hcos := Binary.cos_le_one hF.toHasOne hx
    exact hunit (Binary.isFinite_of_le (y := Binary.ofNat 1) hcos hone) hcos

/-! ## The steps of a pair -/

/-- What each step of a pair is given and what the pair is. -/
structure Bounded (log sin cos : Binary F → Binary F) (u v : Binary F) : Prop where
  log_argument : least.le (u.max least) ∧ (u.max least).lt (Binary.ofNat 1)
  root_argument : (Binary.zero false).le ((Binary.ofNat 2).neg * log (u.max least))
  angle : (Binary.ofNat 2 * pi * v).isFinite
  first : (pairWith log sin cos u v).1.isFinite ∧ |(pairWith log sin cos u v).1.toRat| ≤ 57 / 10
  second : (pairWith log sin cos u v).2.isFinite ∧ |(pairWith log sin cos u v).2.toRat| ≤ 57 / 10

section

variable (hF : Bounds F)

include hF

theorem max_least_mem {u : Binary F} (hu : u.InUnit) (hlt : u.lt (Binary.ofNat 1)) :
    least.le (u.max least) ∧ (u.max least).lt (Binary.ofNat 1) := by
  have hleast := hF.least_inUnit
  have hfinite : (least : Binary F).isFinite := hleast.isFinite hF.toHasOne
  have hless : (least : Binary F).lt (Binary.ofNat 1) := by
    rw [Binary.lt_iff_rank hfinite (Binary.isFinite_one hF.toHasOne),
      Binary.rank_of_nonneg hleast.nonneg, Binary.rank_of_nonneg rfl, Nat.cast_lt]
    exact hF.least_lt_one
  obtain ⟨hunit, hle⟩ := max_least hF.toSuits hu
  constructor
  · rwa [Binary.le_iff_rank hfinite (hunit.isFinite hF.toHasOne),
      Binary.rank_of_nonneg hleast.nonneg, Binary.rank_of_nonneg hunit.nonneg, Nat.cast_le]
  · unfold Binary.max
    split_ifs <;> assumption

theorem coordinate_le {x r : Binary F} (hx : |x.toRat| ≤ 1)
    (hr : r.ordinal ≤ ((Binary.ofNat 2).neg * (deepest : Binary F)).sqrt.ordinal) :
    (x * r).isFinite ∧ |(x * r).toRat| ≤ 57 / 10 := by
  have hfinite := Binary.isFinite_of_le hr hF.deepest_radius_finite
  rw [Binary.abs_toRat, Binary.magnitude_le_one_iff hF.toHasOne] at hx
  have hle := (Binary.mul_ordinal_le hF.toHasOne hx hfinite).trans hr
  refine ⟨Binary.isFinite_of_le hle hF.deepest_radius_finite, ?_⟩
  have hmagnitude : (x * r).magnitude ≤ (57 : Nat) / (10 : Nat) := by
    rw [Binary.magnitude_le_div_iff (by decide)]
    exact (Nat.mul_le_mul_left 10 (F.units_strictMono.monotone hle)).trans hF.deepest_radius_le
  rw [Binary.abs_toRat]
  exact_mod_cast hmagnitude

theorem bounded_of_inRange {log sin cos : Binary F → Binary F} (h : InRange log sin cos)
    {u v : Binary F} (hu : u.InUnit) (hlt : u.lt (Binary.ofNat 1)) (hv : v.InUnit) :
    Bounded log sin cos u v := by
  have hargument := max_least_mem hF hu hlt
  have hangle := angle_isFinite hF.toSuits hv
  obtain ⟨hfinite, hlow, hhigh⟩ := h.log _ hargument.1 hargument.2
  have hsign := Binary.toRat_nonpos_iff.mp hhigh
  have htwo : (Binary.ofNat 2 : Binary F).neg.isFinite := Binary.isFinite_two hF.toHasOne
  -- No logarithm is further from zero than the deepest number.
  have hdeep : (log (u.max least)).ordinal ≤ (deepest : Binary F).ordinal := by
    have hmagnitude : (log (u.max least)).magnitude ≤ (162 : Nat) / (10 : Nat) := by
      rw [← Binary.abs_toRat, abs_of_nonpos hhigh]
      norm_num
      linarith
    rw [Binary.magnitude_le_div_iff (by decide)] at hmagnitude
    have hnearest := hF.deepest_nearest
    rw [← Nat.lt_succ_iff, ← F.units_strictMono.lt_iff_lt, Nat.succ_eq_add_one]
    omega
  have hradius := radius_mono hF.toHasOne hsign (Or.inl hF.deepest_negative) hdeep
    hF.deepest_finite hF.deepest_square_finite
  have hsquare := Binary.isFinite_of_le (Binary.mul_le_mul hF.fraction
    (le_refl (Binary.ofNat 2 : Binary F).neg.ordinal) hdeep htwo hF.deepest_finite)
    hF.deepest_square_finite
  refine ⟨hargument, ?_, hangle, coordinate_le hF (h.sin _ hangle).2 hradius,
    coordinate_le hF (h.cos _ hangle).2 hradius⟩
  rw [Binary.nonneg_iff, Binary.isNaN_eq_false _ hsquare]
  exact ⟨by decide, Binary.mul_nonneg hF.fraction htwo hfinite rfl hsign⟩

end

/-! ## All words -/

/-- For all words and any functions in range, a logarithm is taken of a number from the least one up
to one and a root of a number that is not below zero, and both coordinates are finite and at most
5.7 from zero. The functions that samples are calculated with are in range. -/
theorem pairs_are_bounded :
    (∀ log sin cos : Single → Single, InRange log sin cos → ∀ a b : UInt32,
      Bounded log sin cos (Uniform.single a) (Uniform.single b)) ∧
    (∀ log sin cos : Double → Double, InRange log sin cos → ∀ b : Block,
      Bounded log sin cos (Uniform.double b.w0 b.w1) (Uniform.double b.w2 b.w3)) ∧
    InRange (F := Format.single) Binary.log Binary.sin Binary.cos ∧
    InRange (F := Format.double) Binary.log Binary.sin Binary.cos ∧
    (∀ a b : UInt32, pairOfWords a b =
      pairWith Binary.log Binary.sin Binary.cos (Uniform.single a) (Uniform.single b)) ∧
    ∀ b : Block, pairOfBlock b =
      pairWith Binary.log Binary.sin Binary.cos (Uniform.double b.w0 b.w1)
        (Uniform.double b.w2 b.w3) := by
  refine ⟨?_, ?_, inRange single_bounds, inRange double_bounds, ?_, ?_⟩
  · intro log sin cos h a b
    have hlt := (Uniform.single_isFraction a).lt_one Format.single_hasOne
      (Nat.mod_lt _ (by decide))
    exact bounded_of_inRange single_bounds h (Uniform.single_inUnit a) hlt (Uniform.single_inUnit b)
  · intro log sin cos h b
    have hlow := b.w1.toNat_lt
    have hlt := (Uniform.double_isFraction b.w0 b.w1).lt_one Format.double_hasOne (by omega)
    exact bounded_of_inRange double_bounds h (Uniform.double_inUnit _ _) hlt
      (Uniform.double_inUnit _ _)
  · intro a b
    exact pair_eq_pairWith _ _
  · intro b
    exact pair_eq_pairWith _ _

theorem pairs_are_bounded_at_zero :
    InRange (F := Format.single) Binary.log Binary.sin Binary.cos ∧
    (pairOfWords 0 0).2.isFinite ∧ |(pairOfWords 0 0).2.toRat| ≤ 57 / 10 ∧
    (pairOfWords 0 0).2.lt (Decimal.toBinary Format.single false ⟨567, -2⟩) = false := by
  obtain ⟨hsingle, -, hrange, -, hpair, -⟩ := pairs_are_bounded
  obtain ⟨hfinite, hbound⟩ := (hsingle Binary.log Binary.sin Binary.cos hrange 0 0).second
  rw [← hpair] at hfinite hbound
  exact ⟨hrange, hfinite, hbound, by decide +kernel⟩

end Normal

end CounterStream
