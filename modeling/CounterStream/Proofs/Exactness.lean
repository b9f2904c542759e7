import CounterStream.WordStream
import CounterStream.Proofs.Elementary
import CounterStream.Proofs.Numerals
import CounterStream.Proofs.Order

/-!
# Fractions that are not rounded

A fraction with a power of two below its bar, and no more bits above it than a format stores, is a
number of the format. So an operation whose exact result is such a fraction gives that fraction, and
each step from a word to a uniform number is of this kind.
-/

namespace CounterStream

/-! ## Fractions of a format -/

/-- All bits of a fraction are stored when its point stands before, behind or among them. -/
structure Format.HasFractions (F : Format) : Prop extends F.HasOne where
  places_ge : 2 * F.fractionBits + 1 ≤ F.places
  wholes_le : 2 * F.binade * F.one ≤ F.units F.infinity

theorem Format.half_hasFractions : half.HasFractions where
  toHasOne := Format.half_hasOne
  places_ge := by decide
  wholes_le := by decide

theorem Format.single_hasFractions : single.HasFractions where
  toHasOne := Format.single_hasOne
  places_ge := by decide
  wholes_le := by decide

theorem Format.double_hasFractions : double.HasFractions where
  toHasOne := Format.double_hasOne
  places_ge := by decide
  wholes_le := by decide +kernel

/-- The number is the fraction, and it is not the negative zero. -/
structure Binary.IsFraction {F : Format} (x : Binary F) (num den : Nat) : Prop where
  nonneg : x.negative = false
  isFinite : x.isFinite
  units : F.units x.ordinal * den = num * F.one

namespace Format

variable {F : Format} (hF : F.HasFractions)

include hF

theorem exists_units_fraction {num p : Nat} (hnum : num < 2 * F.binade)
    (hp : p ≤ F.fractionBits + 1) :
    ∃ n < F.infinity, F.units n * 2 ^ p = num * F.one := by
  have hplaces := hF.places_ge
  obtain ⟨n, hn⟩ := F.exists_units_eq num (F.places - p) hnum (by omega)
  have hunits : F.units n * 2 ^ p = num * F.one := by
    rw [hn, Nat.mul_assoc, ← pow_add, Nat.sub_add_cancel (by omega), F.one_eq]
  refine ⟨n, ?_, hunits⟩
  rw [← F.units_strictMono.lt_iff_lt]
  calc F.units n ≤ F.units n * 2 ^ p := Nat.le_mul_of_pos_right _ (Nat.two_pow_pos p)
    _ = num * F.one := hunits
    _ < 2 * F.binade * F.one := Nat.mul_lt_mul_of_pos_right hnum F.one_pos
    _ ≤ F.units F.infinity := hF.wholes_le

theorem units_ordinalOne_add {k : Nat} (hk : k ≤ F.binade) :
    F.units (F.ordinalOne + k) * F.binade = (F.binade + k) * F.one := by
  have hplaces := hF.places_ge
  set s := F.places - F.fractionBits with hs
  have hone : F.one = F.binade * 2 ^ s := by
    rw [F.one_eq, F.binade_eq, ← pow_add]
    congr 1
    omega
  have hordinal : F.ordinalOne = s * F.binade + F.binade := by
    apply F.units_strictMono.injective
    rw [hF.units_one, F.units_steps s F.binade (Or.inl le_rfl) (by omega), hone]
  rw [hordinal, Nat.add_assoc, F.units_steps s (F.binade + k) (Or.inl (by omega)) (by omega), hone]
  ring

end Format

/-! ## Operations with an exact result -/

namespace Binary

variable {F G : Format} {x y : Binary F} {m n p r : Nat}

theorem ofUnits_isFraction (hF : F.HasFractions) {a b : Nat} (hb : 0 < b)
    (hm : m < 2 * F.binade) (hp : p ≤ F.fractionBits + 1) (h : a * 2 ^ p = m * F.one * b) :
    (ofUnits false a b : Binary F).IsFraction m (2 ^ p) := by
  obtain ⟨k, hk, hunits⟩ := Format.exists_units_fraction hF hm hp
  have hexact : a = F.units k * b := by
    apply Nat.eq_of_mul_eq_mul_right (Nat.two_pow_pos p)
    rw [h, ← hunits]
    ring
  have hordinal : (ofUnits false a b : Binary F).ordinal = k := by
    rw [hexact]
    exact Format.nearest_mul_self hF.fraction hb hk.le
  constructor
  · rfl
  · rw [isFinite_iff, hordinal]
    exact hk
  · rw [hordinal]
    exact hunits

theorem ofNat_isFraction (hF : F.HasFractions) (hm : m < 2 * F.binade) :
    (ofNat m : Binary F).IsFraction m (2 ^ 0) :=
  ofUnits_isFraction hF Nat.one_pos hm (Nat.zero_le _) (by ring)

theorem IsFraction.mul (hF : F.HasFractions) (hx : x.IsFraction m (2 ^ p))
    (hy : y.IsFraction n (2 ^ r)) (hmn : m * n < 2 * F.binade) (hpr : p + r ≤ F.fractionBits + 1) :
    (x * y).IsFraction (m * n) (2 ^ (p + r)) := by
  have hsign : (x.negative != y.negative) = false := by rw [hx.nonneg, hy.nonneg]; rfl
  rw [mul_eq hx.isFinite hy.isFinite, hsign]
  apply ofUnits_isFraction hF F.one_pos hmn hpr
  calc F.units x.ordinal * F.units y.ordinal * 2 ^ (p + r)
      = (F.units x.ordinal * 2 ^ p) * (F.units y.ordinal * 2 ^ r) := by ring
    _ = m * n * F.one * F.one := by rw [hx.units, hy.units]; ring

theorem IsFraction.sub_one (hF : F.HasFractions) (hx : x.IsFraction (2 ^ p + m) (2 ^ p))
    (hm : m < 2 * F.binade) (hp : p ≤ F.fractionBits + 1) :
    (x - ofNat 1).IsFraction m (2 ^ p) := by
  have hunits : F.units x.ordinal * 2 ^ p = F.one * 2 ^ p + m * F.one := by
    rw [hx.units]
    ring
  have hlow : F.one ≤ F.units x.ordinal := by
    apply Nat.le_of_mul_le_mul_right _ (Nat.two_pow_pos p)
    omega
  rw [sub_one_eq hF.toHasOne hx.nonneg hx.isFinite hlow]
  apply ofUnits_isFraction hF Nat.one_pos hm hp
  rw [Nat.sub_mul]
  omega

theorem IsFraction.convert (hG : G.HasFractions) (hx : x.IsFraction m (2 ^ p))
    (hm : m < 2 * G.binade) (hp : p ≤ G.fractionBits + 1) :
    (x.convert : Binary G).IsFraction m (2 ^ p) := by
  rw [convert_of_isFinite x hx.isFinite, hx.nonneg]
  apply ofUnits_isFraction hG F.one_pos hm hp
  calc F.units x.ordinal * G.one * 2 ^ p = F.units x.ordinal * 2 ^ p * G.one := by ring
    _ = m * G.one * F.one := by rw [hx.units]; ring

/-! ## What a fraction says of a number -/

theorem IsFraction.toRat {d : Nat} (hx : x.IsFraction m d) (hd : 0 < d) : x.toRat = m / d := by
  have hone : (F.one : ℚ) ≠ 0 := (Nat.cast_pos.mpr F.one_pos).ne'
  have hden : (d : ℚ) ≠ 0 := (Nat.cast_pos.mpr hd).ne'
  rw [Binary.toRat, hx.nonneg, if_neg (by decide), magnitude, div_eq_div_iff hone hden]
  exact_mod_cast hx.units

theorem IsFraction.nonneg_le (hx : x.IsFraction m n) : (zero false).le x := by
  rw [nonneg_iff, isNaN_eq_false x hx.isFinite]
  exact ⟨by decide, Or.inl hx.nonneg⟩

section

variable {d : Nat}

theorem IsFraction.ordinal_le_iff (hd : 0 < d) (hx : x.IsFraction m d) (hy : y.IsFraction n d) :
    x.ordinal ≤ y.ordinal ↔ m ≤ n := by
  rw [← F.units_strictMono.le_iff_le, ← Nat.mul_le_mul_right_iff hd, hx.units, hy.units,
    Nat.mul_le_mul_right_iff F.one_pos]

theorem IsFraction.ordinal_inj (hd : 0 < d) (hx : x.IsFraction m d) (hy : y.IsFraction n d) :
    x.ordinal = y.ordinal ↔ m = n := by
  rw [le_antisymm_iff, ordinal_le_iff hd hx hy, ordinal_le_iff hd hy hx, ← le_antisymm_iff]

theorem IsFraction.eq_iff (hd : 0 < d) (hx : x.IsFraction m d) (hy : y.IsFraction n d) :
    x.eq y ↔ m = n := by
  rw [eq_iff_rank hx.isFinite hy.isFinite, rank_of_nonneg hx.nonneg, rank_of_nonneg hy.nonneg,
    Nat.cast_inj, ordinal_inj hd hx hy]

theorem IsFraction.unique (hd : 0 < d) (hx : x.IsFraction m d) (hy : y.IsFraction m d) : x = y :=
  eq_of_ordinal (hx.nonneg.trans hy.nonneg.symm) ((ordinal_inj hd hx hy).mpr rfl)

theorem isFraction_one (hF : F.HasOne) (d : Nat) : (ofNat 1 : Binary F).IsFraction d d where
  nonneg := rfl
  isFinite := isFinite_one hF
  units := by
    show F.units F.ordinalOne * d = d * F.one
    rw [hF.units_one, Nat.mul_comm]

theorem IsFraction.lt_one (hF : F.HasOne) (hx : x.IsFraction m d) (hm : m < d) :
    x.lt (ofNat 1) := by
  have hone : (ofNat 1 : Binary F).IsFraction d d := isFraction_one hF d
  rw [lt_iff_rank hx.isFinite hone.isFinite, rank_of_nonneg hx.nonneg, rank_of_nonneg hone.nonneg,
    Nat.cast_lt, ← not_le, ordinal_le_iff (Nat.zero_lt_of_lt hm) hone hx, not_le]
  exact hm

theorem IsFraction.inUnit (hF : F.HasOne) (hx : x.IsFraction m d) (hm : m < d) : x.InUnit :=
  ⟨hx.nonneg, (ordinal_le_iff (Nat.zero_lt_of_lt hm) hx (isFraction_one hF d)).mpr hm.le⟩

end

end Binary

/-! ## From words to fractions -/

namespace Uniform

theorem fromOne_eq {F : Format} (hF : F.HasOne) (n : Nat) :
    (fromOne F n).negative = false ∧ (fromOne F n).ordinal = F.ordinalOne + n % F.binade := by
  have htwo := hF.two_lt
  have hordinals := F.infinity_lt_ordinals
  have hmod := Nat.mod_lt n F.binade_pos
  have hbits : (Binary.ofNat 1 : Binary F).bits = F.ordinalOne := Nat.zero_add _
  have hlt : F.ordinalOne + n % F.binade < F.ordinals := by omega
  have hfrom : fromOne F n = Binary.ofBits F (F.ordinalOne + n % F.binade) := by
    rw [fromOne, hbits]
  rw [hfrom]
  simp only [Binary.ofBits, Nat.mod_eq_of_lt hlt, Nat.div_eq_of_lt hlt]
  exact ⟨rfl, trivial⟩

theorem fromOne_isFraction {F : Format} (hF : F.HasFractions) (n : Nat) :
    (fromOne F n).IsFraction (2 ^ F.fractionBits + n % F.binade) (2 ^ F.fractionBits) := by
  obtain ⟨hsign, hordinal⟩ := fromOne_eq hF.toHasOne n
  have hmod := Nat.mod_lt n F.binade_pos
  have htwo := hF.two_lt
  constructor
  · exact hsign
  · rw [Binary.isFinite_iff]
    omega
  · rw [hordinal, ← F.binade_eq]
    exact Format.units_ordinalOne_add hF hmod.le

theorem fromOne_sub_one {F : Format} (hF : F.HasFractions) (n : Nat) :
    (fromOne F n - Binary.ofNat 1).IsFraction (n % F.binade) (2 ^ F.fractionBits) := by
  have hmod := Nat.mod_lt n F.binade_pos
  exact (fromOne_isFraction hF n).sub_one hF (by omega) (by omega)

theorem single_isFraction (w : UInt32) : (single w).IsFraction (w.toNat % 2 ^ 23) (2 ^ 23) :=
  fromOne_sub_one Format.single_hasFractions w.toNat

theorem single_inUnit (w : UInt32) : (single w).InUnit :=
  (single_isFraction w).inUnit Format.single_hasOne (Nat.mod_lt _ (by decide))

theorem double_isFraction (high low : UInt32) :
    (double high low).IsFraction (high.toNat % 2 ^ 20 * 2 ^ 32 + low.toNat) (2 ^ 52) := by
  have hlow := low.toNat_lt
  have hindex : (high.toNat * UInt32.size + low.toNat) % Format.double.binade =
      high.toNat % 2 ^ 20 * 2 ^ 32 + low.toNat := by
    show (high.toNat * 2 ^ 32 + low.toNat) % 2 ^ 52 = _
    omega
  have h := fromOne_sub_one Format.double_hasFractions (high.toNat * UInt32.size + low.toNat)
  rwa [hindex] at h

theorem double_inUnit (high low : UInt32) : (double high low).InUnit := by
  have hlow := low.toNat_lt
  exact (double_isFraction high low).inUnit Format.double_hasOne (by omega)

theorem half_isFraction (n : UInt16) : (half n).IsFraction (n.toNat % 2 ^ 10) (2 ^ 10) := by
  have hmod : n.toNat % 2 ^ 10 < 2 ^ 10 := Nat.mod_lt _ (by decide)
  have hbinade : Format.single.binade = 2 ^ 23 := by decide
  have hbinade' : Format.half.binade = 2 ^ 10 := by decide
  have hfrom : (fromOne Format.half n.toNat).IsFraction (2 ^ 10 + n.toNat % 2 ^ 10) (2 ^ 10) :=
    fromOne_isFraction Format.half_hasFractions n.toNat
  have hwide := hfrom.convert Format.single_hasFractions (by omega) (by decide)
  have hless := hwide.sub_one Format.single_hasFractions (by omega) (by decide)
  exact hless.convert Format.half_hasFractions (by omega) (by decide)

end Uniform

namespace WordStream

/-- A whole number over the least power of two that has more bits than a fraction stores. -/
def upper (F : Format) (n : Nat) : Binary F :=
  Binary.ofNat n * (Binary.ofNat 1 / Binary.ofNat (1 <<< (F.fractionBits + 1)))

def upperSingle (w : UInt32) : Single := upper Format.single (w >>> 8).toNat

def upperDouble (d : UInt64) : Double := upper Format.double (d >>> 11).toNat

theorem single_eq (s : WordStream) : s.single = (upperSingle s.next.1, s.next.2) := rfl

theorem double_eq (s : WordStream) : s.double = (upperDouble s.nextDouble.1, s.nextDouble.2) := rfl

theorem upper_isFraction {F : Format} (hF : F.HasFractions)
    (hstep : (Binary.ofNat 1 / Binary.ofNat (1 <<< (F.fractionBits + 1)) : Binary F).IsFraction 1
      (2 ^ (F.fractionBits + 1))) {n : Nat} (hn : n < 2 ^ (F.fractionBits + 1)) :
    (upper F n).IsFraction n (2 ^ (F.fractionBits + 1)) := by
  have hbound : n < 2 * F.binade := by
    rwa [F.binade_eq, ← pow_succ']
  have hwhole : (Binary.ofNat n : Binary F).IsFraction n (2 ^ 0) :=
    Binary.ofNat_isFraction hF hbound
  have hmul := hwhole.mul hF hstep (by omega) (by omega)
  rwa [Nat.mul_one, Nat.zero_add] at hmul

theorem upperSingle_isFraction (w : UInt32) :
    (upperSingle w).IsFraction (w.toNat / 2 ^ 8) (2 ^ 24) := by
  have hword := w.toNat_lt
  have hupper : (w >>> 8).toNat = w.toNat / 2 ^ 8 := by
    rw [UInt32.toNat_shiftRight, Nat.shiftRight_eq_div_pow]
    rfl
  rw [upperSingle, hupper]
  exact upper_isFraction Format.single_hasFractions ⟨by decide, by decide, by decide +kernel⟩
    (show w.toNat / 2 ^ 8 < 2 ^ 24 by omega)

theorem upperDouble_isFraction (d : UInt64) :
    (upperDouble d).IsFraction (d.toNat / 2 ^ 11) (2 ^ 53) := by
  have hword := d.toNat_lt
  have hupper : (d >>> 11).toNat = d.toNat / 2 ^ 11 := by
    rw [UInt64.toNat_shiftRight, Nat.shiftRight_eq_div_pow]
    rfl
  rw [upperDouble, hupper]
  exact upper_isFraction Format.double_hasFractions
    ⟨by decide +kernel, by decide +kernel, by decide +kernel⟩
    (show d.toNat / 2 ^ 11 < 2 ^ 53 by omega)

end WordStream

end CounterStream
