import Mathlib.Data.Nat.Log
import CounterStream.Binary.FixedPoint
import CounterStream.Proofs.Rounding

/-!
# Fixed-point approximations keep order

The terms of the series of the logarithm grow with its argument, and so does their sum, although
each term is cut off. Where one power of two ends and the next begins the approximation does not
fall, since it is never larger than the stored logarithm of two. A sine or cosine is never larger
than one.
-/

namespace CounterStream.FixedPoint

/-! ## Sixty-four bits -/

theorem roundEven_mono {m n den : Nat} (hden : 0 < den) (h : m ≤ n) :
    roundEven m den ≤ roundEven n den := by
  have hm := (roundEven_between m den hden).2
  have hn := (roundEven_between n den hden).1
  by_contra hlt
  -- Halfway between two neighbours only one of them is even.
  obtain ⟨t, ht⟩ := Nat.exists_eq_add_of_lt (not_le.mp hlt)
  rw [ht] at hm
  rw [Nat.even_iff] at hm hn
  have hstep : (2 * roundEven n den + 1) * den + (2 * t + 1) * den =
      2 * (roundEven n den + t + 1) * den := by ring
  have htimes : den ≤ (2 * t + 1) * den := Nat.le_mul_of_pos_left den (Nat.succ_pos _)
  rcases Nat.eq_zero_or_pos t with rfl | hpos
  · omega
  · have hmore : 3 * den ≤ (2 * t + 1) * den := Nat.mul_le_mul_right den (by omega)
    omega

theorem extended_le (n : Nat) : extended n ≤ 2 ^ (n.log2 + 1) := by
  have hlog : n < 2 ^ (n.log2 + 1) := Nat.lt_log2_self
  have hsplit : 2 ^ (n.log2 + 1) = 2 ^ (n.log2 + 1 - (n.log2 - 63)) * 2 ^ (n.log2 - 63) := by
    rw [← pow_add]
    congr 1
    omega
  rw [extended, Nat.one_shiftLeft]
  rw [hsplit] at hlog ⊢
  exact Nat.mul_le_mul_right _ (roundEven_le _ _ _ (Nat.two_pow_pos _) hlog.le)

theorem le_extended (n : Nat) (hn : n ≠ 0) : 2 ^ n.log2 ≤ extended n := by
  have hlog : 2 ^ n.log2 ≤ n := Nat.log2_self_le hn
  have hsplit : 2 ^ n.log2 = 2 ^ (n.log2 - (n.log2 - 63)) * 2 ^ (n.log2 - 63) := by
    rw [← pow_add]
    congr 1
    omega
  rw [extended, Nat.one_shiftLeft]
  rw [hsplit] at hlog
  rw [hsplit]
  exact Nat.mul_le_mul_right _ (le_roundEven _ _ _ (Nat.two_pow_pos _) hlog)

theorem log2_mono {m n : Nat} (h : m ≤ n) : m.log2 ≤ n.log2 := by
  rw [Nat.log2_eq_log_two, Nat.log2_eq_log_two]
  exact Nat.log_mono_right h

theorem extended_mono {m n : Nat} (h : m ≤ n) : extended m ≤ extended n := by
  rcases (log2_mono h).lt_or_eq with hlt | heq
  · have hn : n ≠ 0 := by
      rintro rfl
      simp at hlt
    calc extended m ≤ 2 ^ (m.log2 + 1) := extended_le m
      _ ≤ 2 ^ n.log2 := Nat.pow_le_pow_right (by decide) hlt
      _ ≤ extended n := le_extended n hn
  · rw [extended, extended, heq, Nat.one_shiftLeft]
    exact Nat.mul_le_mul_right _ (roundEven_mono (Nat.two_pow_pos _) h)

theorem extended_one : extended one = one := by decide +kernel

/-! ## The logarithm -/

theorem mul_mono {a b c d : Nat} (hab : a ≤ b) (hcd : c ≤ d) : mul a c ≤ mul b d :=
  Nat.div_le_div_right (Nat.mul_le_mul hab hcd)

theorem oddSeries_mono (terms n : Nat) {square square' power power' : Nat}
    (hsquare : square ≤ square') (hpower : power ≤ power') :
    oddSeries square terms n power ≤ oddSeries square' terms n power' := by
  induction terms generalizing n power power' with
  | zero => exact le_rfl
  | succ terms ih =>
    rw [oddSeries, oddSeries]
    by_cases hzero : power = 0
    · rw [if_pos hzero]
      exact Nat.zero_le _
    · rw [if_neg hzero, if_neg (by omega)]
      exact Nat.add_le_add (Nat.div_le_div_right hpower)
        (ih (n + 2) (mul_mono hpower hsquare))

/-- The argument of the series. -/
def argument (num den : Nat) : Nat := (num - den) * one / (num + den)

theorem logFraction_eq (num den : Nat) : logFraction num den =
    2 * oddSeries (mul (argument num den) (argument num den)) 90 1 (argument num den) := rfl

theorem logFraction_le_of_argument {num den num' den' : Nat}
    (h : argument num den ≤ argument num' den') : logFraction num den ≤ logFraction num' den' :=
  Nat.mul_le_mul_left 2 (oddSeries_mono 90 1 (mul_mono h h) h)

theorem div_le_div_of_mul_le {a b c d : Nat} (hb : 0 < b) (hd : 0 < d) (h : a * d ≤ c * b) :
    a / b ≤ c / d := by
  rw [Nat.le_div_iff_mul_le hd]
  apply Nat.le_of_mul_le_mul_right _ hb
  calc a / b * d * b = a / b * b * d := by ring
    _ ≤ a * d := Nat.mul_le_mul_right d (Nat.div_mul_le_self a b)
    _ ≤ c * b := h

theorem logFraction_mono {m n den : Nat} (hden : 0 < den) (h : m ≤ n) :
    logFraction m den ≤ logFraction n den := by
  apply logFraction_le_of_argument
  rcases Nat.le_total m den with hm | hm
  · rw [argument, Nat.sub_eq_zero_of_le hm, Nat.zero_mul, Nat.zero_div]
    exact Nat.zero_le _
  · obtain ⟨a, rfl⟩ := Nat.exists_eq_add_of_le hm
    obtain ⟨b, rfl⟩ := Nat.exists_eq_add_of_le (hm.trans h)
    have hab : a ≤ b := by omega
    refine div_le_div_of_mul_le (by omega) (by omega) ?_
    rw [Nat.add_sub_cancel_left, Nat.add_sub_cancel_left]
    calc a * one * (den + b + den) = (a * (2 * den) + a * b) * one := by ring
      _ ≤ (b * (2 * den) + a * b) * one := by gcongr
      _ = b * one * (den + a + den) := by ring

theorem logFraction_le_logTwo {num den : Nat} (hden : 0 < den) (h : num ≤ 2 * den) :
    logFraction num den ≤ logTwo := by
  have hend : logFraction 2 1 ≤ logTwo := by decide +kernel
  refine (logFraction_le_of_argument ?_).trans hend
  refine div_le_div_of_mul_le (by omega) (by decide) ?_
  calc (num - den) * one * (2 + 1) = (num - den) * 3 * one := by ring
    _ ≤ (num + den) * one := Nat.mul_le_mul_right one (by omega)
    _ = (2 - 1) * one * (num + den) := by ring

theorem log_mono {m n : Nat} (h : m ≤ n) (places : Nat) :
    log m places ≤ log n places := by
  rw [log, log, Nat.one_shiftLeft, Nat.one_shiftLeft]
  rcases (log2_mono h).lt_or_eq with hlt | heq
  · have hlog : m < 2 ^ (m.log2 + 1) := Nat.lt_log2_self
    have htop : (logFraction m (2 ^ m.log2) : Int) ≤ logTwo := by
      exact_mod_cast logFraction_le_logTwo (Nat.two_pow_pos _) (by rw [pow_succ] at hlog; omega)
    have hstep : ((m.log2 : Int) - places + 1) * logTwo ≤ ((n.log2 : Int) - places) * logTwo :=
      Int.mul_le_mul_of_nonneg_right (by omega) (Int.natCast_nonneg _)
    rw [Int.add_mul, Int.one_mul] at hstep
    omega
  · rw [heq]
    have hfraction := logFraction_mono (Nat.two_pow_pos n.log2) h
    omega

theorem log_one (places : Nat) : log (2 ^ places) places = 0 := by
  rw [log, Nat.log2_two_pow, Nat.one_shiftLeft, sub_self, zero_mul, zero_add, logFraction_eq,
    argument, Nat.sub_self, Nat.zero_mul, Nat.zero_div]
  rfl

/-! ## Sine and cosine -/

theorem sin_le_one (angle : Nat) : (sin angle).2 ≤ one := by
  unfold sin
  split <;> exact Nat.min_le_left _ _

theorem cos_le_one (angle : Nat) : (cos angle).2 ≤ one := by
  unfold cos
  split <;> exact Nat.min_le_left _ _

end CounterStream.FixedPoint
