import CounterStream.Json.Number
import CounterStream.Proofs.Positional
import CounterStream.Proofs.Widening

/-!
# How well roundings agree

Away from the smallest numbers a rounded fraction agrees with the exact one to one bit more than a
format stores. Agreement is kept by products and quotients and loses one bit when two roundings
follow each other, so a decimal that is read by way of a rounded power of ten still agrees with its
exact value to 52 bits.
-/

namespace CounterStream

/-- Neither of two numbers exceeds the other by more than one part in `2 ^ bits` of it. -/
structure Agree (bits : Nat) (x y : ℚ) : Prop where
  le : x * 2 ^ bits ≤ y * 2 ^ bits + x
  ge : y * 2 ^ bits ≤ x * 2 ^ bits + y

namespace Agree

variable {bits : Nat} {c m x y z : ℚ}

theorem symm (h : Agree bits x y) : Agree bits y x := ⟨h.ge, h.le⟩

theorem mul_left (h : Agree bits x y) (hc : 0 ≤ c) : Agree bits (c * x) (c * y) := by
  constructor
  · linarith [mul_le_mul_of_nonneg_left h.le hc]
  · linarith [mul_le_mul_of_nonneg_left h.ge hc]

theorem inv (h : Agree bits x y) (hx : 0 < x) (hy : 0 < y) : Agree bits x⁻¹ y⁻¹ := by
  have hscaled := h.symm.mul_left (inv_nonneg.mpr (mul_pos hx hy).le)
  have hleft : (x * y)⁻¹ * y = x⁻¹ := by field_simp
  have hright : (x * y)⁻¹ * x = y⁻¹ := by field_simp
  rwa [hleft, hright] at hscaled

theorem mono (h : Agree (bits + 1) x y) (hx : 0 ≤ x) (hy : 0 ≤ y) : Agree bits x y := by
  obtain ⟨hle, hge⟩ := h
  rw [pow_succ] at hle hge
  constructor <;> linarith

theorem le_two_mul (h : Agree (bits + 1) x y) (hx : 0 ≤ x) : x ≤ 2 * y := by
  have hpow : (1 : ℚ) ≤ 2 ^ bits := one_le_pow₀ (by norm_num)
  have hle := h.le
  rw [pow_succ] at hle
  nlinarith

theorem trans (hxy : Agree (bits + 1) x y) (hyz : Agree (bits + 1) y z) (hx : 0 ≤ x)
    (hz : 0 ≤ z) : Agree bits x z := by
  have htwo {a b c : ℚ} (ha : 0 ≤ a) (hab : a * 2 ^ (bits + 1) ≤ b * 2 ^ (bits + 1) + a)
      (hbc : b * 2 ^ (bits + 1) ≤ c * 2 ^ (bits + 1) + b) : a * 2 ^ bits ≤ c * 2 ^ bits + a := by
    have hpow : (1 : ℚ) ≤ 2 ^ bits := one_le_pow₀ (by norm_num)
    rw [pow_succ] at hab hbc
    generalize (2 : ℚ) ^ bits = t at *
    have hfirst := mul_le_mul_of_nonneg_left hab (show 0 ≤ 2 * t - 1 by linarith)
    have hsecond := mul_le_mul_of_nonneg_left hbc (show 0 ≤ 2 * t by linarith)
    apply le_of_mul_le_mul_left _ (show 0 < 4 * t by linarith)
    linarith
  exact ⟨htwo hx hxy.le hyz.le, htwo hz hyz.ge hxy.ge⟩

theorem between (h : Agree bits x y) (hx : 0 ≤ x)
    (hm : x ≤ m ∧ m ≤ y ∨ y ≤ m ∧ m ≤ x) : Agree bits x m := by
  have hpow : (1 : ℚ) ≤ 2 ^ bits := one_le_pow₀ (by norm_num)
  obtain ⟨hle, hge⟩ := h
  rcases hm with ⟨hxm, hmy⟩ | ⟨hym, hmx⟩
  · constructor <;> nlinarith
  · constructor <;> nlinarith

end Agree

/-! ## Rounded fractions -/

namespace Format

variable {F : Format} {q : ℚ} {m n : Nat}

theorem one_eq (F : Format) : F.one = 2 ^ F.places := Nat.one_shiftLeft _

theorem IsNearest.ge_of_ge (h : F.IsNearest q n) (hm : m ≤ F.infinity) (hq : F.units m ≤ q) :
    m ≤ n := by
  by_contra hlt
  have hnm : (F.units n : ℚ) < F.units m := units_lt_units (by omega)
  rcases (isNearest_iff.mp h).2.2 m hm (by omega) with h' | ⟨h', -⟩ <;> linarith

theorem exists_gap (F : Format) (n : Nat) :
    ∃ s r, (F.binade ≤ r ∨ s = 0) ∧ r < 2 * F.binade ∧ n = s * F.binade + r ∧
      F.units n = r * 2 ^ s ∧ F.units (n + 1) = (r + 1) * 2 ^ s := by
  obtain ⟨s, r, hlow, hhigh, rfl⟩ := F.exists_steps n
  refine ⟨s, r, hlow, hhigh, rfl, F.units_steps s r hlow hhigh.le, ?_⟩
  rw [Nat.add_assoc, F.units_steps s (r + 1) (by omega) hhigh]

/-- Half a step is a small part of a number that is no smaller than a binade of steps. -/
theorem IsNearest.agree (h : F.IsNearest q n) (hlow : F.binade ≤ n) (hhigh : n < F.infinity) :
    Agree (F.fractionBits + 1) q (F.units n) := by
  obtain ⟨hbelow, habove⟩ := (isNearest_iff.mp h).2
  have hone : (1 : ℚ) ≤ F.binade := by exact_mod_cast F.binade_pos
  have hpow : (2 : ℚ) ^ (F.fractionBits + 1) = 2 * F.binade := by
    rw [binade_eq, pow_succ']
    push_cast
    rfl
  constructor
  · obtain ⟨s, r, hr, -, hn, hunits, hnext⟩ := F.exists_gap n
    have hmid : 2 * q ≤ F.units n + F.units (n + 1) := by
      rcases habove (n + 1) hhigh (Nat.lt_succ_self n) with h' | ⟨h', -⟩
      · exact h'.le
      · exact h'.le
    have hsteps : (F.binade : ℚ) ≤ r := by
      exact_mod_cast hr.elim id fun hs => by simpa [hs, hn] using hlow
    have hscale : (0 : ℚ) < 2 ^ s := by positivity
    rw [hunits, hnext] at hmid
    rw [hunits, hpow]
    push_cast at hmid ⊢
    nlinarith
  · -- The step below may be smaller, at the foot of a binade.
    obtain ⟨k, rfl⟩ : ∃ k, n = k + 1 := ⟨n - 1, by have := F.binade_pos; omega⟩
    obtain ⟨s, r, hr, -, hn, hunits, hnext⟩ := F.exists_gap k
    have hmid : (F.units k + F.units (k + 1) : ℚ) ≤ 2 * q := by
      rcases hbelow k (Nat.lt_succ_self k) with h' | ⟨h', -⟩
      · exact h'.le
      · exact h'.le
    have hsteps : (F.binade : ℚ) ≤ r + 1 := by
      exact_mod_cast hr.elim (by omega) fun hs => by simpa [hs, hn] using hlow
    have hscale : (0 : ℚ) < 2 ^ s := by positivity
    rw [hunits, hnext] at hmid
    rw [hnext, hpow]
    push_cast at hmid ⊢
    nlinarith

end Format

/-! ## Arithmetic -/

namespace Binary

variable {F G : Format}

theorem eq_of_ordinal {x y : Binary F} (hsign : x.negative = y.negative)
    (hordinal : x.ordinal = y.ordinal) : x = y := by
  cases x
  cases y
  simp only [mk.injEq]
  exact ⟨hsign, hordinal⟩

/-- The value of a finite number without its sign. -/
def magnitude (x : Binary F) : ℚ := F.units x.ordinal / F.one

theorem magnitude_nonneg (x : Binary F) : 0 ≤ x.magnitude := by
  unfold magnitude
  positivity

theorem magnitude_mul_one (x : Binary F) : x.magnitude * F.one = F.units x.ordinal := by
  have := F.one_pos
  rw [magnitude]
  field_simp

theorem ofUnits_isNearest (hF : 0 < F.fractionBits) (negative : Bool) (num den : Nat)
    (hden : 0 < den) : F.IsNearest (num / den : ℚ) (ofUnits negative num den : Binary F).ordinal :=
  Format.nearest_isNearest hF num den hden

section

variable {x y : Binary F} (hx : x.isFinite) (hy : y.isFinite)

include hx hy

theorem mul_eq : x * y = ofUnits (x.negative != y.negative)
    (F.units x.ordinal * F.units y.ordinal) F.one := by
  show mul x y = _
  simp [mul, isNaN_eq_false, isInfinite_eq_false, hx, hy]

theorem div_eq (hpos : y.ordinal ≠ 0) : x / y = ofUnits (x.negative != y.negative)
    (F.units x.ordinal * F.one) (F.units y.ordinal) := by
  show div x y = _
  simp [div, isNaN_eq_false, isInfinite_eq_false, hx, hy, hpos]

end

theorem mul_isNearest (hF : 0 < F.fractionBits) (x y : Binary F) (hx : x.isFinite)
    (hy : y.isFinite) :
    (x * y).negative = (x.negative != y.negative) ∧
      F.IsNearest (x.magnitude * y.magnitude * F.one) (x * y).ordinal := by
  have hone := F.one_pos
  have hvalue : x.magnitude * y.magnitude * F.one =
      (F.units x.ordinal * F.units y.ordinal : Nat) / F.one := by
    rw [magnitude, magnitude]
    push_cast
    field_simp
  rw [mul_eq hx hy, hvalue]
  exact ⟨rfl, ofUnits_isNearest hF _ _ _ hone⟩

theorem div_isNearest (hF : 0 < F.fractionBits) (x y : Binary F) (hx : x.isFinite)
    (hy : y.isFinite) (hpos : 0 < y.magnitude) :
    (x / y).negative = (x.negative != y.negative) ∧
      F.IsNearest (x.magnitude / y.magnitude * F.one) (x / y).ordinal := by
  have hone := F.one_pos
  have hunits : 0 < F.units y.ordinal :=
    Nat.pos_of_ne_zero fun h0 => by simp [magnitude, h0] at hpos
  have hordinal : y.ordinal ≠ 0 := by
    intro h0
    rw [h0, Format.units_zero] at hunits
    exact absurd hunits (Nat.lt_irrefl 0)
  have hvalue : x.magnitude / y.magnitude * F.one =
      (F.units x.ordinal * F.one : Nat) / F.units y.ordinal := by
    rw [magnitude, magnitude]
    push_cast
    field_simp
  rw [div_eq hx hy hordinal, hvalue]
  exact ⟨rfl, ofUnits_isNearest hF _ _ _ hunits⟩

theorem convert_isNearest (hG : 0 < G.fractionBits) (x : Binary F) (hx : x.isFinite) :
    (x.convert : Binary G).negative = x.negative ∧
      G.IsNearest (x.magnitude * G.one) (x.convert : Binary G).ordinal := by
  have hvalue : x.magnitude * G.one = (F.units x.ordinal * G.one : Nat) / F.one := by
    rw [magnitude]
    push_cast
    ring
  rw [convert_of_isFinite x hx, hvalue]
  exact ⟨rfl, ofUnits_isNearest hG _ _ _ F.one_pos⟩

end Binary

/-! ## Far from both ends -/

namespace Format

/-- Numbers from one part in `bound` up to `bound` are finite in the format and lack no bit. -/
structure Covers (F : Format) (bound : Nat) : Prop where
  binade_le : F.binade ≤ F.infinity
  units_binade_le : F.units F.binade * bound ≤ F.one
  one_lt : 2 * (bound * F.one) < F.units F.infinity

theorem double_covers : double.Covers (10 ^ 100) :=
  ⟨by decide +kernel, by decide +kernel, by decide +kernel⟩

variable {F : Format} {bound : Nat} {q : ℚ} {n : Nat}

theorem Covers.lt_infinity (hF : F.Covers bound) (h : F.IsNearest (q * F.one) n)
    (hq : q ≤ bound) : n < F.infinity := by
  have hone : (0 : ℚ) < F.one := Nat.cast_pos.mpr F.one_pos
  have hinfinity : (2 * (bound * F.one) : ℚ) < F.units F.infinity := by exact_mod_cast hF.one_lt
  have hscaled : q * F.one ≤ bound * F.one := by gcongr
  refine (isNearest_iff.mp h).1.lt_of_ne fun heq => ?_
  -- Infinity is nearest to nothing below half of its magnitude.
  subst heq
  have hpos : 0 < F.infinity := F.binade_pos.trans_le hF.binade_le
  have hzero := (isNearest_iff.mp h).2.1 0 hpos
  rw [units_zero, Nat.cast_zero, zero_add] at hzero
  rcases hzero with h' | ⟨h', -⟩ <;> linarith

theorem Covers.agree (hF : F.Covers bound) (h : F.IsNearest (q * F.one) n) (hlow : 1 ≤ q * bound)
    (hhigh : q ≤ bound) : Agree (F.fractionBits + 1) (q * F.one) (F.units n) := by
  have hbinade : (F.units F.binade * bound : ℚ) ≤ F.one := by exact_mod_cast hF.units_binade_le
  have hq : 0 < q := by
    by_contra hneg
    nlinarith [Nat.cast_nonneg (α := ℚ) bound]
  refine h.agree (h.ge_of_ge hF.binade_le ?_) (hF.lt_infinity h hhigh)
  calc (F.units F.binade : ℚ) ≤ F.units F.binade * (q * bound) :=
        le_mul_of_one_le_right (Nat.cast_nonneg _) hlow
    _ = q * (F.units F.binade * bound) := by ring
    _ ≤ q * F.one := by gcongr

theorem Covers.exact (hF : F.Covers bound) (h : F.IsNearest (q * F.one) n) (hq : q ≤ bound)
    {m s : Nat} (hm : m < 2 * F.binade) (hs : F.fractionBits ≤ s) (hvalue : q * F.one = m * 2 ^ s) :
    (F.units n : ℚ) = q * F.one := by
  have hone : (0 : ℚ) < F.one := Nat.cast_pos.mpr F.one_pos
  obtain ⟨k, hk⟩ := F.exists_units_eq m s hm hs
  have hunits : q * F.one = F.units k := by
    rw [hvalue, hk]
    push_cast
    rfl
  have hlast : k ≤ F.infinity := by
    by_contra hlt
    have hinfinity : (2 * (bound * F.one) : ℚ) < F.units F.infinity := by exact_mod_cast hF.one_lt
    have hscaled : q * F.one ≤ bound * F.one := by gcongr
    have hunits' : (F.units F.infinity : ℚ) < F.units k := units_lt_units (by omega)
    nlinarith [Nat.cast_nonneg (α := ℚ) bound]
  rw [hunits] at h ⊢
  rw [h.unique (isNearest_units hlast)]

end Format

namespace Binary

variable {F : Format} {bound : Nat} {q : ℚ} {x : Binary F}

theorem agree_of_isNearest (hF : F.Covers bound) (h : F.IsNearest (q * F.one) x.ordinal)
    (hlow : 1 ≤ q * bound) (hhigh : q ≤ bound) :
    x.isFinite ∧ Agree (F.fractionBits + 1) q x.magnitude := by
  have hone : (0 : ℚ) < F.one := Nat.cast_pos.mpr F.one_pos
  have hagree := (hF.agree h hlow hhigh).mul_left (inv_nonneg.mpr hone.le)
  rw [← x.magnitude_mul_one, mul_comm q, mul_comm x.magnitude, inv_mul_cancel_left₀ hone.ne',
    inv_mul_cancel_left₀ hone.ne'] at hagree
  exact ⟨(isFinite_iff x).mpr (hF.lt_infinity h hhigh), hagree⟩

theorem magnitude_of_isNearest (hF : F.Covers bound) (h : F.IsNearest (q * F.one) x.ordinal)
    (hq : q ≤ bound) {m s : Nat} (hm : m < 2 * F.binade) (hs : F.fractionBits ≤ s)
    (hvalue : q * F.one = m * 2 ^ s) : x.magnitude = q := by
  have hone := F.one_pos
  rw [magnitude, hF.exact h hq hm hs hvalue]
  field_simp

end Binary

/-! ## Decimals read by way of powers of ten -/

namespace Literal

/-- `x * 10 ^ e` as it is read when the power of ten is a double. -/
def timesPower (x : Double) (e : Int) : Double :=
  if 0 ≤ e then x * powerOfTen e.toNat else x / powerOfTen (-e).toNat

theorem scale_of_isFinite (x : Double) (e : Int) (he : e.natAbs ≤ 308)
    (h : (timesPower x e).isFinite) (hx : x.ordinal ≠ 0) : scale x e = some (timesPower x e) := by
  rw [scale, if_neg hx, if_neg (by omega)]
  unfold timesPower at *
  split_ifs at * with hpos hsmall
  · rw [Option.filter_some, if_pos h]
  · rfl
  · omega

theorem ofNat_isNearest (n : Nat) :
    Format.double.IsNearest (n * Format.double.one) (Binary.ofNat n : Double).ordinal := by
  have h := Binary.ofUnits_isNearest (F := Format.double) (by decide) false
    (n * Format.double.one) 1 Nat.one_pos
  rwa [Nat.cast_one, div_one, Nat.cast_mul] at h

theorem magnitude_ofNat (n : Nat) (hn : n < 2 ^ 53) : (Binary.ofNat n : Double).magnitude = n := by
  have hbound : n ≤ 10 ^ 100 := by omega
  refine Binary.magnitude_of_isNearest Format.double_covers (ofNat_isNearest n)
    (by exact_mod_cast hbound) (m := n) (s := Format.double.places) ?_ (by decide) ?_
  · exact hn
  · rw [Format.one_eq]
    push_cast
    rfl

theorem ofNat_agree (n : Nat) (hpos : 0 < n) (hn : n < 2 ^ 64) :
    (Binary.ofNat n : Double).isFinite ∧ Agree 53 n (Binary.ofNat n : Double).magnitude := by
  have hlow : 1 ≤ n * 10 ^ 100 := Nat.mul_pos hpos (by norm_num)
  have hbound : n ≤ 10 ^ 100 := by omega
  exact Binary.agree_of_isNearest Format.double_covers (ofNat_isNearest n)
    (by exact_mod_cast hlow) (by exact_mod_cast hbound)

theorem powerOfTen_isNearest (e : Nat) :
    (powerOfTen e).negative = false ∧
      Format.double.IsNearest (10 ^ e * Format.double.one) (powerOfTen e).ordinal := by
  have h := (Decimal.mk 1 e).toBinary_isNearest Format.double_moderate false
  rw [Decimal.value, Nat.cast_one, one_mul, zpow_natCast] at h
  exact ⟨Decimal.toBinary_negative _ _, h⟩

theorem powerOfTen_agree (e : Nat) (he : e ≤ 46) :
    (powerOfTen e).isFinite ∧ Agree 53 (10 ^ e) (powerOfTen e).magnitude := by
  have hlow : 1 ≤ 10 ^ e * 10 ^ 100 := Nat.mul_pos (Nat.pow_pos (by norm_num)) (by norm_num)
  have hbound : 10 ^ e ≤ 10 ^ 100 := Nat.pow_le_pow_right (by norm_num) (by omega)
  exact Binary.agree_of_isNearest Format.double_covers (powerOfTen_isNearest e).2
    (by exact_mod_cast hlow) (by exact_mod_cast hbound)

theorem magnitude_powerOfTen_pos (e : Nat) (he : e ≤ 46) : 0 < (powerOfTen e).magnitude := by
  have hten : (0 : ℚ) < 10 ^ e := by positivity
  linarith [(powerOfTen_agree e he).2.le_two_mul hten.le]

theorem magnitude_powerOfTen (e : Nat) (he : e ≤ 22) : (powerOfTen e).magnitude = 10 ^ e := by
  have hbound : 10 ^ e ≤ 10 ^ 100 := Nat.pow_le_pow_right (by norm_num) (by omega)
  refine Binary.magnitude_of_isNearest Format.double_covers (powerOfTen_isNearest e).2
    (by exact_mod_cast hbound) (m := 5 ^ e) (s := e + Format.double.places) ?_ ?_ ?_
  · exact (Nat.pow_le_pow_right (by norm_num) he).trans_lt (by decide)
  · exact le_add_left (by decide)
  · rw [Format.one_eq, pow_add, show (10 : ℚ) = 5 * 2 by norm_num, mul_pow]
    push_cast
    ring

/-- The power of ten that a number is multiplied with, if only by its inverse. -/
def power (e : Int) : ℚ :=
  if 0 ≤ e then (powerOfTen e.toNat).magnitude else (powerOfTen (-e).toNat).magnitude⁻¹

theorem power_agree (e : Int) (he : e.natAbs ≤ 46) : Agree 53 (10 ^ e) (power e) := by
  unfold power
  split_ifs with h
  · obtain ⟨k, rfl⟩ := Int.eq_ofNat_of_zero_le h
    rw [Int.toNat_natCast, zpow_natCast]
    exact (powerOfTen_agree k (by omega)).2
  · obtain ⟨k, rfl⟩ := Int.exists_eq_neg_ofNat (show e ≤ 0 by omega)
    rw [neg_neg, Int.toNat_natCast, zpow_neg, zpow_natCast]
    exact (powerOfTen_agree k (by omega)).2.inv (by positivity)
      (magnitude_powerOfTen_pos k (by omega))

theorem power_eq (e : Int) (he : e.natAbs ≤ 22) : power e = 10 ^ e := by
  unfold power
  split_ifs with h
  · obtain ⟨k, rfl⟩ := Int.eq_ofNat_of_zero_le h
    rw [Int.toNat_natCast, zpow_natCast, magnitude_powerOfTen k (by omega)]
  · obtain ⟨k, rfl⟩ := Int.exists_eq_neg_ofNat (show e ≤ 0 by omega)
    rw [neg_neg, Int.toNat_natCast, zpow_neg, zpow_natCast, magnitude_powerOfTen k (by omega)]

theorem power_bounds (e : Int) (he : e.natAbs ≤ 46) :
    1 ≤ power e * (2 * 10 ^ 46) ∧ power e ≤ 2 * 10 ^ 46 := by
  have hagree := power_agree e he
  have hten : (0 : ℚ) < 10 ^ e := by positivity
  have hlow : (10 : ℚ) ^ (-46 : Int) ≤ 10 ^ e := zpow_le_zpow_right₀ (by norm_num) (by omega)
  have hhigh : (10 : ℚ) ^ e ≤ 10 ^ (46 : Int) := zpow_le_zpow_right₀ (by norm_num) (by omega)
  have hbelow := hagree.le_two_mul hten.le
  have habove := hagree.symm.le_two_mul (by linarith)
  norm_num at hlow hhigh ⊢
  constructor <;> linarith

section

variable (c : Nat) (hpos : 0 < c) (hc : c < 2 ^ 53) (e : Int)

include hpos hc

theorem timesPower_isNearest (he : e.natAbs ≤ 46) :
    let y := timesPower (Binary.ofNat c) e
    y.negative = false ∧ Format.double.IsNearest (c * power e * Format.double.one) y.ordinal := by
  intro y
  have hfinite := (ofNat_agree c hpos (by omega)).1
  simp only [y, timesPower, power]
  split_ifs with h
  · have hpower := (powerOfTen_agree e.toNat (by omega)).1
    obtain ⟨hsign, hnear⟩ :=
      Binary.mul_isNearest (by decide) (Binary.ofNat c) (powerOfTen e.toNat) hfinite hpower
    rw [magnitude_ofNat c hc] at hnear
    exact ⟨by rw [hsign, (powerOfTen_isNearest _).1]; rfl, hnear⟩
  · have hpower := (powerOfTen_agree (-e).toNat (by omega)).1
    obtain ⟨hsign, hnear⟩ :=
      Binary.div_isNearest (by decide) (Binary.ofNat c) (powerOfTen (-e).toNat) hfinite hpower
        (magnitude_powerOfTen_pos _ (by omega))
    rw [magnitude_ofNat c hc, div_eq_mul_inv] at hnear
    exact ⟨by rw [hsign, (powerOfTen_isNearest _).1]; rfl, hnear⟩

theorem timesPower_agree (he : e.natAbs ≤ 46) :
    let y := timesPower (Binary.ofNat c) e
    y.isFinite ∧ Agree 52 (c * 10 ^ e) y.magnitude := by
  intro y
  obtain ⟨hlow, hhigh⟩ := power_bounds e he
  have hone : (1 : ℚ) ≤ c := by exact_mod_cast hpos
  have hbits : (c : ℚ) ≤ 2 ^ 53 := by exact_mod_cast hc.le
  obtain ⟨hfinite, hround⟩ := Binary.agree_of_isNearest Format.double_covers
    (timesPower_isNearest c hpos hc e he).2 (by push_cast; nlinarith) (by push_cast; nlinarith)
  exact ⟨hfinite, ((power_agree e he).mul_left (by positivity)).trans hround (by positivity)
    (Binary.magnitude_nonneg _)⟩

theorem timesPower_exact (he : e.natAbs ≤ 22) {m s : Nat} (hm : m < 2 ^ 53) (hs : 52 ≤ s)
    (hvalue : c * 10 ^ e * Format.double.one = (m * 2 ^ s : ℚ)) :
    (timesPower (Binary.ofNat c) e).magnitude = c * 10 ^ e := by
  have hnear := (timesPower_isNearest c hpos hc e (by omega)).2
  have hhigh := (power_bounds e (by omega)).2
  have hbits : (c : ℚ) ≤ 2 ^ 53 := by exact_mod_cast hc.le
  rw [power_eq e he] at hnear hhigh
  exact Binary.magnitude_of_isNearest Format.double_covers hnear (by push_cast; nlinarith) hm hs
    hvalue

end

end Literal

end CounterStream
