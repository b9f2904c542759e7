import CounterStream.Sampling.Words
import CounterStream.Proofs.FixedPoint
import CounterStream.Proofs.Monotone

/-!
# Numbers of the unit interval

From zero to one the logarithm is not positive and falls away from zero as its argument does. A sine
or a cosine is at most one. So no coordinate of a normal pair is larger than the radius of the least
number that a logarithm is taken of.
-/

namespace CounterStream

/-! ## One -/

/-- The ordinal of one. -/
def Format.ordinalOne (F : Format) : Nat := (Binary.ofNat 1 : Binary F).ordinal

/-- One and two are numbers of the format, a binade apart. -/
structure Format.HasOne (F : Format) : Prop where
  fraction : 0 < F.fractionBits
  units_one : F.units F.ordinalOne = F.one
  units_two : F.units (F.ordinalOne + F.binade) = 2 * F.one
  two_lt : F.ordinalOne + F.binade < F.infinity

theorem Format.half_hasOne : half.HasOne :=
  ⟨by decide, by decide, by decide, by decide⟩

theorem Format.single_hasOne : single.HasOne :=
  ⟨by decide, by decide, by decide, by decide⟩

theorem Format.double_hasOne : double.HasOne :=
  ⟨by decide, by decide +kernel, by decide +kernel, by decide +kernel⟩

namespace Binary

variable {F : Format}

/-- From zero to one. -/
structure InUnit (x : Binary F) : Prop where
  nonneg : x.negative = false
  ordinal_le : x.ordinal ≤ F.ordinalOne

theorem isFinite_one (hF : F.HasOne) : (ofNat 1 : Binary F).isFinite := by
  have htwo := hF.two_lt
  rw [isFinite_iff]
  show F.ordinalOne < F.infinity
  omega

theorem isFinite_two (hF : F.HasOne) : (ofNat 2 : Binary F).isFinite := by
  have hordinal := Format.nearest_units hF.fraction hF.two_lt.le
  rw [hF.units_two] at hordinal
  rw [isFinite_iff]
  show F.nearest (2 * F.one) 1 < F.infinity
  rw [hordinal]
  exact hF.two_lt

theorem InUnit.isFinite (hF : F.HasOne) {x : Binary F} (hx : x.InUnit) : x.isFinite :=
  isFinite_of_le (y := ofNat 1) hx.ordinal_le (isFinite_one hF)

theorem InUnit.units_le (hF : F.HasOne) {x : Binary F} (hx : x.InUnit) :
    F.units x.ordinal ≤ F.one := hF.units_one ▸ F.units_strictMono.monotone hx.ordinal_le

theorem ordinal_le_of_units_le (hF : F.HasOne) {x : Binary F} (h : F.units x.ordinal ≤ F.one) :
    x.ordinal ≤ F.ordinalOne := by
  rw [← hF.units_one] at h
  exact F.units_strictMono.le_iff_le.mp h

theorem mul_ordinal_le (hF : F.HasOne) {x y : Binary F} (hx : x.ordinal ≤ F.ordinalOne)
    (hy : y.isFinite) : (x * y).ordinal ≤ y.ordinal := by
  have hself := Format.nearest_mul_self hF.fraction F.one_pos ((isFinite_iff y).mp hy).le
  have hone : x.ordinal ≤ (ofNat 1 : Binary F).ordinal := hx
  have hmul := mul_le_mul hF.fraction hone (le_refl y.ordinal) (isFinite_one hF) hy
  rw [mul_eq (isFinite_one hF) hy] at hmul
  refine hmul.trans_eq ?_
  show F.nearest (F.units F.ordinalOne * F.units y.ordinal) F.one = y.ordinal
  rwa [hF.units_one, Nat.mul_comm]

theorem sub_one_eq (hF : F.HasOne) {x : Binary F} (hsign : x.negative = false) (hx : x.isFinite)
    (hlow : F.one ≤ F.units x.ordinal) :
    x - ofNat 1 = ofUnits false (F.units x.ordinal - F.one) 1 := by
  have hone : (ofNat 1 : Binary F).neg.isFinite := isFinite_one hF
  have hsum : x.units + (ofNat 1 : Binary F).neg.units = (F.units x.ordinal - F.one : Nat) := by
    have hself : (ofNat 1 : Binary F).units = F.one := congrArg Nat.cast hF.units_one
    rw [units_neg, hself, units, hsign, if_neg (by decide)]
    omega
  have hsub : x - ofNat 1 = x + (ofNat 1).neg := rfl
  rw [hsub, add_eq hx hone, hsum, Int.natAbs_natCast, hsign, Bool.false_and]
  split_ifs
  · rfl
  · exact congrArg (ofUnits · _ 1) (decide_eq_false (by omega))

/-! ## Rounded approximations -/

theorem ofFixed_le (hF : 0 < F.fractionBits) {m n : Nat} (h : m ≤ n) (s t : Bool) :
    (ofFixed s m : Binary F).ordinal ≤ (ofFixed t n : Binary F).ordinal :=
  Format.nearest_le_nearest hF (by decide)
    (Nat.mul_le_mul_right F.one (FixedPoint.extended_mono h))

theorem ofFixed_le_one (hF : 0 < F.fractionBits) {n : Nat} (h : n ≤ FixedPoint.one) (s : Bool) :
    (ofFixed s n : Binary F).ordinal ≤ F.ordinalOne := by
  refine (ofFixed_le hF h s false).trans ?_
  show F.nearest (FixedPoint.extended FixedPoint.one * F.one) FixedPoint.one ≤
    F.nearest (1 * F.one) 1
  rw [FixedPoint.extended_one]
  exact Format.nearest_mono hF (by decide) Nat.one_pos (by ring_nf; exact le_rfl)

theorem ofFixed_zero (hF : 0 < F.fractionBits) (s : Bool) :
    (ofFixed s 0 : Binary F).ordinal = 0 := by
  have hzero := Format.nearest_mul_self (F := F) hF (k := FixedPoint.one) (by decide)
    (Nat.zero_le _)
  rw [F.units_zero, Nat.zero_mul] at hzero
  show F.nearest (FixedPoint.extended 0 * F.one) FixedPoint.one = 0
  rwa [show FixedPoint.extended 0 = 0 by decide, Nat.zero_mul]

/-! ## The logarithm -/

section

variable (hF : F.HasOne) {x y : Binary F} (hx : x.InUnit)

include hF hx

theorem log_eq (hpos : x.ordinal ≠ 0) :
    let result := FixedPoint.log (F.units x.ordinal) F.places
    result ≤ 0 ∧ x.log = ofFixed (result < 0) result.natAbs := by
  intro result
  have hfinite := hx.isFinite hF
  refine ⟨?_, ?_⟩
  · have hmono := FixedPoint.log_mono (hx.units_le hF) F.places
    rwa [F.one_eq, FixedPoint.log_one] at hmono
  · simp [log, isNaN_eq_false, isInfinite_eq_false, hfinite, hpos, hx.nonneg, result]

theorem log_nonpos (hpos : x.ordinal ≠ 0) : x.log.negative = true ∨ x.log.ordinal = 0 := by
  obtain ⟨hresult, hlog⟩ := log_eq hF hx hpos
  rw [hlog]
  rcases hresult.lt_or_eq with hlt | heq
  · exact Or.inl (decide_eq_true hlt)
  · right
    rw [heq]
    exact ofFixed_zero hF.fraction _

theorem log_le_log (hpos : y.ordinal ≠ 0) (h : y.ordinal ≤ x.ordinal) (hy : y.negative = false) :
    x.log.ordinal ≤ y.log.ordinal := by
  obtain ⟨hresult, hlog⟩ := log_eq hF hx (by omega)
  obtain ⟨-, hlog'⟩ := log_eq hF ⟨hy, h.trans hx.ordinal_le⟩ hpos
  have hmono := FixedPoint.log_mono (F.units_strictMono.monotone h) F.places
  rw [hlog, hlog']
  exact ofFixed_le hF.fraction (by omega) _ _

end

/-! ## Sine and cosine -/

theorem ordinal_le_of_isTiny (hF : F.HasOne) {x : Binary F} (hx : x.isTiny) :
    x.ordinal ≤ F.ordinalOne := by
  apply ordinal_le_of_units_le hF
  by_contra hlt
  have hlarge : FixedPoint.one ≤ x.toFixed := by
    rw [toFixed, Nat.le_div_iff_mul_le F.one_pos, Nat.mul_comm]
    exact Nat.mul_le_mul_right _ (by omega)
  have htiny : x.toFixed < 1 <<< 176 := of_decide_eq_true hx
  have hone : 1 <<< 176 ≤ FixedPoint.one := by decide
  omega

theorem sin_le_one (hF : F.HasOne) {x : Binary F} (hx : x.isFinite) :
    x.sin.ordinal ≤ F.ordinalOne := by
  have hsize := FixedPoint.sin_le_one x.toFixed
  rw [sin, if_neg (by simp [hx])]
  rcases hresult : FixedPoint.sin x.toFixed with ⟨negative, size⟩
  rw [hresult] at hsize
  split_ifs with htiny
  · exact ordinal_le_of_isTiny hF htiny
  · exact ofFixed_le_one hF.fraction hsize _

theorem cos_le_one (hF : F.HasOne) {x : Binary F} (hx : x.isFinite) :
    x.cos.ordinal ≤ F.ordinalOne := by
  have hsize := FixedPoint.cos_le_one x.toFixed
  rw [cos, if_neg (by simp [hx])]
  rcases hresult : FixedPoint.cos x.toFixed with ⟨negative, size⟩
  rw [hresult] at hsize
  split_ifs with htiny
  · exact le_rfl
  · exact ofFixed_le_one hF.fraction hsize _

end Binary

/-! ## Normal pairs -/

namespace Normal

variable {F : Format}

/-- The radius of the least number, the largest of all. -/
def radius : Binary F := ((Binary.ofNat 2).neg * least.log).sqrt

/-- A format in which the angles and the radii of pairs can be calculated. -/
structure Suits (F : Format) : Prop extends F.HasOne where
  least_inUnit : (least : Binary F).InUnit
  least_pos : (least : Binary F).ordinal ≠ 0
  log_finite : (least : Binary F).log.isFinite
  square_finite : ((Binary.ofNat 2).neg * (least : Binary F).log).isFinite
  radius_finite : (radius : Binary F).isFinite
  turn_finite : (Binary.ofNat 2 * pi : Binary F).isFinite
  angle_finite : (Binary.ofNat 2 * pi * Binary.ofNat 1 : Binary F).isFinite

theorem single_suits : Suits Format.single where
  toHasOne := Format.single_hasOne
  least_inUnit := ⟨by decide, by decide⟩
  least_pos := by decide
  log_finite := by decide
  square_finite := by decide
  radius_finite := by decide +kernel
  turn_finite := by decide
  angle_finite := by decide

theorem double_suits : Suits Format.double where
  toHasOne := Format.double_hasOne
  least_inUnit := ⟨by decide, by decide +kernel⟩
  least_pos := by decide +kernel
  log_finite := by decide +kernel
  square_finite := by decide +kernel
  radius_finite := by decide +kernel
  turn_finite := by decide +kernel
  angle_finite := by decide +kernel

theorem max_least (hF : Suits F) {u : Binary F} (hu : u.InUnit) :
    (u.max least).InUnit ∧ (least : Binary F).ordinal ≤ (u.max least).ordinal := by
  have hleast := hF.least_inUnit
  have hunan := Binary.isNaN_eq_false _ (hu.isFinite hF.toHasOne)
  have hlnan := Binary.isNaN_eq_false _ (hleast.isFinite hF.toHasOne)
  have hurank : u.rank = u.ordinal := by rw [Binary.rank, hu.nonneg, if_neg (by decide)]
  have hlrank : (least : Binary F).rank = (least : Binary F).ordinal := by
    rw [Binary.rank, hleast.nonneg, if_neg (by decide)]
  rw [Binary.max, hunan, hlnan, if_neg (by decide), if_neg (by decide), hurank, hlrank]
  split_ifs with h
  · exact ⟨hleast, le_rfl⟩
  · exact ⟨hu, by omega⟩

theorem radius_mono (hF : F.HasOne) {y z : Binary F} (hy : y.negative = true ∨ y.ordinal = 0)
    (hz : z.negative = true ∨ z.ordinal = 0) (h : y.ordinal ≤ z.ordinal) (hfinite : z.isFinite)
    (hsquare : ((Binary.ofNat 2).neg * z).isFinite) :
    ((Binary.ofNat 2).neg * y).sqrt.ordinal ≤ ((Binary.ofNat 2).neg * z).sqrt.ordinal := by
  have htwo : (Binary.ofNat 2 : Binary F).neg.isFinite := Binary.isFinite_two hF
  have hsign {w : Binary F} (hw : w.isFinite) (h : w.negative = true ∨ w.ordinal = 0) :
      ((Binary.ofNat 2).neg * w).ordinal = 0 ∨ ((Binary.ofNat 2).neg * w).negative = false :=
    (Binary.mul_nonneg hF.fraction htwo hw rfl h).symm
  exact Binary.sqrt_le_sqrt hF.fraction
    (Binary.mul_le_mul hF.fraction le_rfl h htwo hfinite) hsquare
    (hsign (Binary.isFinite_of_le h hfinite) hy) (hsign hfinite hz)

theorem angle_isFinite (hF : Suits F) {v : Binary F} (hv : v.InUnit) :
    (Binary.ofNat 2 * pi * v : Binary F).isFinite := by
  have hone : v.ordinal ≤ (Binary.ofNat 1 : Binary F).ordinal := hv.ordinal_le
  exact Binary.isFinite_of_le (Binary.mul_le_mul hF.fraction
    (le_refl (Binary.ofNat 2 * pi : Binary F).ordinal) hone hF.turn_finite
    (Binary.isFinite_one hF.toHasOne)) hF.angle_finite

section

variable (hF : Suits F) {u v : Binary F} (hu : u.InUnit) (hv : v.InUnit)

include hF hu

theorem log_max_least_le : (u.max least).log.ordinal ≤ (least : Binary F).log.ordinal := by
  obtain ⟨hunit, hle⟩ := max_least hF hu
  exact Binary.log_le_log hF.toHasOne hunit hF.least_pos hle hF.least_inUnit.nonneg

theorem log_max_least_nonpos :
    (u.max least).log.negative = true ∨ (u.max least).log.ordinal = 0 := by
  obtain ⟨hunit, hle⟩ := max_least hF hu
  have hpos := hF.least_pos
  exact Binary.log_nonpos hF.toHasOne hunit (by omega)

theorem sqrt_le_radius :
    ((Binary.ofNat 2).neg * (u.max least).log).sqrt.ordinal ≤ (radius : Binary F).ordinal :=
  radius_mono hF.toHasOne (log_max_least_nonpos hF hu)
    (Binary.log_nonpos hF.toHasOne hF.least_inUnit hF.least_pos) (log_max_least_le hF hu)
    hF.log_finite hF.square_finite

include hv

theorem pair_le_radius : (pair u v).1.ordinal ≤ (radius : Binary F).ordinal ∧
    (pair u v).2.ordinal ≤ (radius : Binary F).ordinal := by
  have hangle := angle_isFinite hF hv
  have hradius := sqrt_le_radius hF hu
  have hfinite := Binary.isFinite_of_le hradius hF.radius_finite
  exact ⟨(Binary.mul_ordinal_le hF.toHasOne (Binary.sin_le_one hF.toHasOne hangle) hfinite).trans
      hradius,
    (Binary.mul_ordinal_le hF.toHasOne (Binary.cos_le_one hF.toHasOne hangle) hfinite).trans
      hradius⟩

end

end Normal

end CounterStream
