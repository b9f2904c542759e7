import Mathlib.Algebra.Order.Field.Power
import Mathlib.Tactic.FieldSimp
import Mathlib.Tactic.NormNum
import Mathlib.Tactic.Positivity
import CounterStream.Decimal.Layout
import CounterStream.Proofs.Rounding

/-!
# Decimal numbers and their nearest binary numbers

A decimal is read to the binary number nearest to its exact value. The decimal that is written for a
binary number is read back to it, and no decimal of fewer digits is.
-/

namespace CounterStream

namespace Format

/-- A format with so few numbers that no decimal past `10 ^ 400` is read to one of them and none
below `10 ^ (-400)` to any but zero. -/
structure Moderate (F : Format) : Prop where
  fraction : 0 < F.fractionBits
  two_one_le : 2 * F.one ≤ 10 ^ 400
  units_infinity_le : F.units F.infinity ≤ 10 ^ 400 * F.one

theorem single_moderate : single.Moderate := ⟨by decide, by decide +kernel, by decide +kernel⟩

theorem double_moderate : double.Moderate := ⟨by decide, by decide +kernel, by decide +kernel⟩

variable {F : Format} {q : ℚ}

theorem one_pos (F : Format) : 0 < F.one := by
  rw [one, Nat.one_shiftLeft]
  exact Nat.two_pow_pos _

theorem isNearest_zero (h : 2 * q < 1) : F.IsNearest q 0 := by
  rw [isNearest_iff]
  refine ⟨Nat.zero_le _, fun m hm => absurd hm (Nat.not_lt_zero m), fun m _ hm => Or.inl ?_⟩
  have hone : (1 : ℚ) ≤ F.units m := by
    exact_mod_cast Nat.one_le_iff_ne_zero.mpr (Nat.ne_zero_of_lt (F.units_strictMono hm))
  rw [units_zero]
  push_cast
  linarith

theorem isNearest_infinity (h : (F.units F.infinity : ℚ) ≤ q) : F.IsNearest q F.infinity := by
  rw [isNearest_iff]
  refine ⟨le_rfl, fun m hm => Or.inl ?_, fun m hm hlt => absurd hm (by omega)⟩
  linarith [units_lt_units (F := F) hm]

end Format

namespace Decimal

/-! ## Reading -/

def value (d : Decimal) : ℚ := d.coefficient * 10 ^ d.exponent

theorem value_nonneg (d : Decimal) : 0 ≤ d.value := by
  unfold value
  positivity

variable {F : Format}

theorem toBinary_negative (negative : Bool) (d : Decimal) :
    (d.toBinary F negative).negative = negative := by
  unfold toBinary
  split_ifs
  · rfl
  · rfl
  · rfl
  · split <;> rfl

theorem le_value_of_large (d : Decimal) (hc : d.coefficient ≠ 0) (h : 400 < d.exponent) :
    10 ^ 400 ≤ d.value := by
  have hone : (1 : ℚ) ≤ d.coefficient := by exact_mod_cast Nat.one_le_iff_ne_zero.mpr hc
  have hpow : (10 : ℚ) ^ (400 : Int) ≤ 10 ^ d.exponent :=
    zpow_le_zpow_right₀ (by norm_num) h.le
  calc (10 : ℚ) ^ 400 = 1 * 10 ^ (400 : Int) := by norm_num
    _ ≤ d.coefficient * 10 ^ d.exponent := by gcongr

theorem value_lt_of_small (d : Decimal) (h : d.coefficient.log2 + 400 < -d.exponent) :
    d.value * 10 ^ 400 < 1 := by
  have hc : d.coefficient < 10 ^ (d.coefficient.log2 + 1) :=
    Nat.lt_log2_self.trans_le (Nat.pow_le_pow_left (by decide) _)
  have hc' : (d.coefficient : ℚ) < 10 ^ (d.coefficient.log2 + 1 : Int) := by exact_mod_cast hc
  have hpow : (10 : ℚ) ^ (d.exponent + 400 : Int) ≤ 10 ^ (-(d.coefficient.log2 + 1) : Int) :=
    zpow_le_zpow_right₀ (by norm_num) (by omega)
  calc d.value * 10 ^ 400 = d.coefficient * 10 ^ (d.exponent + 400 : Int) := by
        rw [value, zpow_add₀ (by norm_num), mul_assoc]
        norm_num
    _ ≤ d.coefficient * 10 ^ (-(d.coefficient.log2 + 1) : Int) := by gcongr
    _ < 10 ^ (d.coefficient.log2 + 1 : Int) * 10 ^ (-(d.coefficient.log2 + 1) : Int) := by gcongr
    _ = 1 := by rw [← zpow_add₀ (by norm_num), add_neg_cancel, zpow_zero]

theorem toBinary_isNearest (hF : F.Moderate) (negative : Bool) (d : Decimal) :
    F.IsNearest (d.value * F.one) (d.toBinary F negative).ordinal := by
  have hone : (0 : ℚ) < F.one := Nat.cast_pos.mpr F.one_pos
  have hvalue := d.value_nonneg
  unfold toBinary
  split_ifs with hc hlarge hsmall
  · have hzero := Format.isNearest_zero (F := F) (q := 0) (by norm_num)
    rwa [value, hc, Nat.cast_zero, zero_mul, zero_mul]
  · apply Format.isNearest_infinity
    have hinfinity : (F.units F.infinity : ℚ) ≤ 10 ^ 400 * F.one := by
      exact_mod_cast hF.units_infinity_le
    have hlarge := d.le_value_of_large hc hlarge
    calc (F.units F.infinity : ℚ) ≤ 10 ^ 400 * F.one := hinfinity
      _ ≤ d.value * F.one := by gcongr
  · apply Format.isNearest_zero
    have htwo : 2 * (F.one : ℚ) ≤ 10 ^ 400 := by exact_mod_cast hF.two_one_le
    calc 2 * (d.value * F.one) = d.value * (2 * F.one) := by ring
      _ ≤ d.value * 10 ^ 400 := by gcongr
      _ < 1 := d.value_lt_of_small hsmall
  · split
    case _ e he =>
      have hnum := Format.nearest_isNearest hF.fraction (d.coefficient * 10 ^ e * F.one) 1 one_pos
      have heq : d.value * F.one = ((d.coefficient * 10 ^ e * F.one : Nat) : ℚ) / (1 : Nat) := by
        rw [value, he, Int.ofNat_eq_natCast, zpow_natCast]
        push_cast
        ring
      rw [heq]
      exact hnum
    case _ e he =>
      have hnum := Format.nearest_isNearest hF.fraction (d.coefficient * F.one) (10 ^ (e + 1))
        (Nat.pow_pos (by decide))
      have heq : d.value * F.one =
          ((d.coefficient * F.one : Nat) : ℚ) / ((10 ^ (e + 1) : Nat) : ℚ) := by
        rw [value, he, zpow_negSucc]
        push_cast
        field_simp
      rw [heq]
      exact hnum

theorem toBinary_eq_iff (hF : F.Moderate) (negative : Bool) (d : Decimal) (x : Binary F) :
    d.toBinary F negative = x ↔
      x.negative = negative ∧ F.IsNearest (d.value * F.one) x.ordinal := by
  have hread := d.toBinary_isNearest hF negative
  have hsign := d.toBinary_negative (F := F) negative
  constructor
  · rintro rfl
    exact ⟨hsign, hread⟩
  · rintro ⟨hx, hnear⟩
    have hordinal := hread.unique hnear
    cases x
    cases hd : d.toBinary F negative
    simp_all

theorem toBinary_congr (hF : F.Moderate) (negative : Bool) (c d : Decimal)
    (h : c.value = d.value) : c.toBinary F negative = d.toBinary F negative := by
  rw [toBinary_eq_iff hF, h]
  exact ⟨d.toBinary_negative negative, d.toBinary_isNearest hF negative⟩

/-! ## Trimming -/

theorem trim_value (d : Decimal) : d.trim.value = d.value := by
  fun_induction trim d with
  | case1 d h ih =>
    rw [ih, value, value, zpow_add₀ (by norm_num), zpow_one]
    have hc : d.coefficient = 10 * (d.coefficient / 10) := by omega
    have hcast : (d.coefficient : ℚ) = 10 * (d.coefficient / 10 : Nat) := by exact_mod_cast hc
    rw [hcast]
    ring
  | case2 d h => rfl

theorem trim_coefficient_le (d : Decimal) : d.trim.coefficient ≤ d.coefficient := by
  fun_induction trim d with
  | case1 d h ih => exact ih.trans (Nat.div_le_self _ _)
  | case2 d h => rfl

theorem trim_exponent_le (d : Decimal) : d.exponent ≤ d.trim.exponent := by
  fun_induction trim d with
  | case1 d h ih => exact (Int.le_add_one le_rfl).trans ih
  | case2 d h => exact le_rfl

end Decimal

/-! ## The search for the fewest digits -/

namespace Format

variable {F : Format}

theorem five_pow_pos (F : Format) : 0 < 5 ^ F.places := Nat.pow_pos (by decide)

theorem nearestScaled_eq_iff (hF : F.Moderate) (m n : Nat) :
    F.nearestScaled m = n ↔ F.IsNearest (m / 5 ^ F.places : ℚ) n := by
  have h := nearest_eq_iff (n := n) hF.fraction m (5 ^ F.places) F.five_pow_pos
  rw [Nat.cast_pow, Nat.cast_ofNat] at h
  exact h

theorem nearestScaled_scaled (hF : F.Moderate) (n : Nat) (hn : n ≤ F.infinity) :
    F.nearestScaled (F.scaled n) = n := by
  rw [nearestScaled_eq_iff hF, scaled, Nat.pow_eq]
  push_cast
  rw [mul_div_assoc, div_self (by positivity), mul_one]
  exact isNearest_units hn

/-- What is read back as one number has no gaps. -/
theorem nearestScaled_between (hF : F.Moderate) {n a b m : Nat} (ha : F.nearestScaled a = n)
    (hb : F.nearestScaled b = n) (ham : a ≤ m) (hmb : m ≤ b) : F.nearestScaled m = n := by
  rw [nearestScaled_eq_iff hF] at *
  have ham' : (a : ℚ) ≤ m := Nat.cast_le.mpr ham
  have hmb' : (m : ℚ) ≤ b := Nat.cast_le.mpr hmb
  exact ha.between hb (by gcongr) (by gcongr)

theorem nearestScaled_neighbour (hF : F.Moderate) {n m step : Nat} (hn : n ≤ F.infinity)
    (hstep : 0 < step) (h : F.nearestScaled (m * step) = n) :
    F.nearestScaled (F.scaled n / step * step) = n ∨
      F.nearestScaled ((F.scaled n / step + 1) * step) = n := by
  have hself := nearestScaled_scaled hF n hn
  have hdiv := Nat.div_add_mod' (F.scaled n) step
  have hmod := Nat.mod_lt (F.scaled n) hstep
  rcases Nat.lt_or_ge (F.scaled n / step) m with hm | hm
  · right
    refine nearestScaled_between hF hself h ?_ (Nat.mul_le_mul_right _ hm)
    rw [Nat.add_mul]
    omega
  · left
    exact nearestScaled_between hF h hself (Nat.mul_le_mul_right _ hm) (by omega)

theorem shortestFrom_spec (hF : F.Moderate) (tie : Tie) (n start : Nat) (hn : n ≤ F.infinity)
    (hstart : ∀ m, F.nearestScaled (m * 10 ^ (start + 1)) ≠ n) :
    F.nearestScaled ((F.shortestFrom tie n start).1 * 10 ^ (F.shortestFrom tie n start).2) = n ∧
      ∀ m, F.nearestScaled (m * 10 ^ ((F.shortestFrom tie n start).2 + 1)) ≠ n := by
  induction start with
  | zero =>
    refine ⟨?_, hstart⟩
    rw [shortestFrom, pow_zero, mul_one]
    exact nearestScaled_scaled hF n hn
  | succ place ih =>
    simp only [shortestFrom, Nat.pow_eq, Bool.and_eq_true, beq_iff_eq]
    split_ifs with hbelow habove
    · exact ⟨hbelow.1, hstart⟩
    · exact ⟨habove, hstart⟩
    · -- Neither neighbour is read back, so nothing at this place is.
      have hcurrent : ∀ m, F.nearestScaled (m * 10 ^ (place + 1)) ≠ n := by
        intro m hm
        have hneighbour := nearestScaled_neighbour hF hn (Nat.pow_pos (by decide)) hm
        simp_all
      exact ih hcurrent

theorem shortestFrom_dist (F : Format) (tie : Tie) (n start : Nat) :
    let (c, place) := F.shortestFrom tie n start
    c * 10 ^ place ≤ F.scaled n + 10 ^ place ∧ F.scaled n ≤ c * 10 ^ place + 10 ^ place := by
  induction start with
  | zero =>
    simp only [shortestFrom]
    omega
  | succ place ih =>
    have hdiv := Nat.div_add_mod' (F.scaled n) (10 ^ (place + 1))
    have hmod := Nat.mod_lt (F.scaled n) (show 0 < 10 ^ (place + 1) from Nat.pow_pos (by decide))
    simp only [shortestFrom, Nat.pow_eq]
    split_ifs
    · dsimp only
      omega
    · dsimp only
      rw [Nat.add_mul]
      omega
    · exact ih

theorem two_pow_le_ten_pow (digits bits : Nat) (hbits : 0 < bits) (h : 2 ^ bits ≤ 10 ^ digits)
    (k : Nat) : 2 ^ k ≤ 10 ^ (k * digits / bits + 1) := by
  have hk : k * digits ≤ (k * digits / bits + 1) * bits := (Nat.lt_div_mul_add hbits).le.trans_eq
    (Nat.succ_mul _ _).symm
  have hpow : (2 ^ k) ^ bits ≤ (10 ^ (k * digits / bits + 1)) ^ bits := by
    calc (2 ^ k) ^ bits = (2 ^ bits) ^ k := pow_right_comm 2 k bits
      _ ≤ (10 ^ digits) ^ k := Nat.pow_le_pow_left h k
      _ = 10 ^ (k * digits) := by rw [← pow_mul, Nat.mul_comm]
      _ ≤ 10 ^ ((k * digits / bits + 1) * bits) := Nat.pow_le_pow_right (by decide) hk
      _ = (10 ^ (k * digits / bits + 1)) ^ bits := by rw [pow_mul]
  exact (Nat.pow_le_pow_iff_left hbits.ne').mp hpow

theorem nearestScaled_start_ne (hF : F.Moderate) (n : Nat) (hpos : 0 < n) (hn : n < F.infinity)
    (m : Nat) : F.nearestScaled (m * 10 ^ ((F.scaled n).log2 * 1234 / 4096 + 1 + 1)) ≠ n := by
  intro h
  rw [nearestScaled_eq_iff hF] at h
  have h5 : (0 : ℚ) < 5 ^ F.places := by positivity
  rcases Nat.eq_zero_or_pos m with rfl | hm
  · have hzero := isNearest_zero (F := F) (q := 0) (by norm_num)
    rw [Nat.zero_mul, Nat.cast_zero, zero_div] at h
    exact absurd (h.unique hzero) (by omega)
  · have hupper : 2 * (m * 10 ^ ((F.scaled n).log2 * 1234 / 4096 + 1 + 1)) ≤ 3 * F.scaled n := by
      have hsucc := F.units_succ_le n hpos
      have hsucc' : (F.units (n + 1) : ℚ) ≤ 2 * F.units n := by exact_mod_cast hsucc
      rw [isNearest_iff] at h
      have hmid := h.2.2 (n + 1) hn (Nat.lt_succ_self n)
      have hle : 2 * ((m * 10 ^ ((F.scaled n).log2 * 1234 / 4096 + 1 + 1) : Nat) / 5 ^ F.places : ℚ)
          ≤ 3 * F.units n := by
        rcases hmid with h' | ⟨h', -⟩ <;> linarith
      rw [mul_div_assoc', div_le_iff₀ h5, mul_assoc] at hle
      rw [scaled, Nat.pow_eq]
      exact_mod_cast hle
    have hlog : F.scaled n < 2 ^ ((F.scaled n).log2 + 1) := Nat.lt_log2_self
    -- A thousand digits and more hold four thousand bits.
    have hten := two_pow_le_ten_pow 1234 4096 (by decide) (by decide +kernel) (F.scaled n).log2
    have hm' := Nat.le_mul_of_pos_left (10 ^ ((F.scaled n).log2 * 1234 / 4096 + 1 + 1)) hm
    rw [pow_succ] at hlog
    rw [pow_succ _ ((F.scaled n).log2 * 1234 / 4096 + 1)] at hupper hm'
    omega

theorem nearestScaled_of_above (hF : F.Moderate) {n c place : Nat} {p : Int}
    (h : F.IsNearest (c * 10 ^ p / 5 ^ F.places) n) (hp : (place : Int) + 1 ≤ p) :
    ∃ m, F.nearestScaled (m * 10 ^ (place + 1)) = n := by
  obtain ⟨t, ht⟩ := Int.eq_ofNat_of_zero_le (show 0 ≤ p - (place + 1) by omega)
  refine ⟨c * 10 ^ t, ?_⟩
  rw [nearestScaled_eq_iff hF]
  have hpow : (10 : ℚ) ^ p = 10 ^ t * 10 ^ (place + 1) := by
    rw [show p = ((t + (place + 1) : Nat) : Int) by push_cast; omega, zpow_natCast, pow_add]
  rw [hpow, ← mul_assoc] at h
  exact_mod_cast h

theorem nearestScaled_round (hF : F.Moderate) {n c c' place digits : Nat} {p : Int}
    (h : F.IsNearest (c * 10 ^ p / 5 ^ F.places) n) (hp : p ≤ place) (hc : c < 10 ^ digits)
    (hfound : F.nearestScaled (c' * 10 ^ place) = n) (hc' : 10 ^ digits ≤ c') :
    F.nearestScaled (10 ^ digits * 10 ^ place) = n := by
  rw [nearestScaled_eq_iff hF] at *
  have hsmall : (c : ℚ) * 10 ^ p ≤ (10 ^ digits * 10 ^ place : Nat) := by
    have hcast : (c : ℚ) ≤ 10 ^ digits := by exact_mod_cast hc.le
    have hpow : (10 : ℚ) ^ p ≤ 10 ^ (place : Int) := zpow_le_zpow_right₀ (by norm_num) hp
    push_cast
    rw [zpow_natCast] at hpow
    gcongr
  have hlarge : ((10 ^ digits * 10 ^ place : Nat) : ℚ) ≤ (c' * 10 ^ place : Nat) :=
    Nat.cast_le.mpr (Nat.mul_le_mul_right _ hc')
  exact h.between hfound (by gcongr) (by gcongr)

end Format

/-! ## Shortest decimals -/

namespace Binary

variable {F : Format}

theorem isFinite_iff (x : Binary F) : x.isFinite ↔ x.ordinal < F.infinity := by
  rw [isFinite, decide_eq_true_eq]

theorem value_mul_one (F : Format) (c : Nat) (p : Int) :
    (Decimal.mk c (p - F.places)).value * F.one = c * 10 ^ p / 5 ^ F.places := by
  have hten : (10 : ℚ) ^ F.places = 2 ^ F.places * 5 ^ F.places := by
    rw [← mul_pow]
    norm_num
  rw [Decimal.value, Format.one, Nat.one_shiftLeft, zpow_sub₀ (by norm_num), zpow_natCast, hten]
  push_cast
  field_simp

theorem value_scaled (F : Format) (c place : Nat) :
    (Decimal.mk c (place - F.places)).value * F.one = (c * 10 ^ place : Nat) / 5 ^ F.places := by
  rw [value_mul_one]
  norm_cast

/-- What the search finds for a number other than zero: before its zeros are cut off the shortest
decimal is a neighbour of the number at its place, which is the last where a multiple is read back. -/
theorem shortest_found (hF : F.Moderate) (tie : Tie) (x : Binary F) (hx : x.isFinite)
    (hpos : x.ordinal ≠ 0) :
    ∃ c place : Nat, x.shortest tie = Decimal.trim ⟨c, place - F.places⟩ ∧
      (c * 10 ^ place ≤ F.scaled x.ordinal + 10 ^ place ∧
        F.scaled x.ordinal ≤ c * 10 ^ place + 10 ^ place) ∧
      F.nearestScaled (c * 10 ^ place) = x.ordinal ∧
      ∀ m, F.nearestScaled (m * 10 ^ (place + 1)) ≠ x.ordinal := by
  rw [isFinite_iff] at hx
  have hstart := Format.nearestScaled_start_ne hF x.ordinal (Nat.pos_of_ne_zero hpos) hx
  refine ⟨_, _, ?_, F.shortestFrom_dist tie x.ordinal _,
    Format.shortestFrom_spec hF tie x.ordinal _ hx.le hstart⟩
  rw [shortest, if_neg hpos]

theorem shortest_of_zero (tie : Tie) (x : Binary F) (h : x.ordinal = 0) :
    x.shortest tie = ⟨0, 0⟩ := by
  rw [shortest, if_pos h]

theorem shortest_isNearest (hF : F.Moderate) (tie : Tie) (x : Binary F) (hx : x.isFinite) :
    F.IsNearest ((x.shortest tie).value * F.one) x.ordinal := by
  by_cases hpos : x.ordinal = 0
  · rw [shortest_of_zero tie x hpos, hpos, Decimal.value, Nat.cast_zero, zero_mul, zero_mul]
    exact Format.isNearest_zero (by norm_num)
  · obtain ⟨c, place, heq, -, hfound, -⟩ := shortest_found hF tie x hx hpos
    rw [heq, Decimal.trim_value, value_scaled]
    exact (Format.nearestScaled_eq_iff hF _ _).mp hfound

theorem toBinary_shortest (hF : F.Moderate) (tie : Tie) (x : Binary F) (hx : x.isFinite) :
    (x.shortest tie).toBinary F x.negative = x :=
  (Decimal.toBinary_eq_iff hF _ _ _).mpr ⟨rfl, shortest_isNearest hF tie x hx⟩

/-- No decimal with fewer digits is read back. If one were, so would be a round number of as many
digits as the shortest has, which is a multiple of the place above. -/
theorem shortest_digits_le (hF : F.Moderate) (tie : Tie) (x : Binary F) (hx : x.isFinite)
    (d : Decimal) (hd : d.toBinary F x.negative = x) :
    (x.shortest tie).digits.length ≤ d.digits.length := by
  by_cases hpos : x.ordinal = 0
  · rw [shortest_of_zero tie x hpos, Decimal.digits, Nat.toDigits_zero]
    exact Nat.length_toDigits_pos
  · obtain ⟨c, place, heq, -, hfound, hlast⟩ := shortest_found hF tie x hx hpos
    have hle : (x.shortest tie).coefficient ≤ c := heq ▸ Decimal.trim_coefficient_le _
    have hlen : 0 < d.digits.length := Nat.length_toDigits_pos
    have hcoefficient : d.coefficient < 10 ^ d.digits.length :=
      (Nat.length_toDigits_le_iff (by decide) hlen).mp le_rfl
    by_contra hlt
    have hlong : 10 ^ d.digits.length ≤ (x.shortest tie).coefficient := by
      rw [← not_lt, ← Nat.length_toDigits_le_iff (by decide) hlen]
      exact hlt
    -- The place of the last digit of `d`, counted as the search counts.
    obtain ⟨p, hp⟩ : ∃ p : Int, d.exponent = p - F.places := ⟨d.exponent + F.places, by omega⟩
    have hnear := ((Decimal.toBinary_eq_iff hF _ _ _).mp hd).2
    have hvalue := value_mul_one F d.coefficient p
    rw [← hp] at hvalue
    rw [hvalue] at hnear
    by_cases hplace : (place : Int) + 1 ≤ p
    · obtain ⟨m, hm⟩ := Format.nearestScaled_of_above hF hnear hplace
      exact hlast m hm
    · apply hlast (10 ^ (d.digits.length - 1))
      have hround : 10 ^ (d.digits.length - 1) * 10 ^ (place + 1) =
          10 ^ d.digits.length * 10 ^ place := by
        rw [← pow_add, ← pow_add]
        congr 1
        omega
      rw [hround]
      exact Format.nearestScaled_round hF hnear (by omega) hcoefficient hfound (hlong.trans hle)

end Binary

end CounterStream
