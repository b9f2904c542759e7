import Mathlib.Algebra.Order.Field.Basic
import Mathlib.Data.Rat.Cast.Order
import Mathlib.Order.Monotone.Basic
import Mathlib.Tactic.Linarith
import Mathlib.Tactic.Ring
import CounterStream.Binary.Basic

/-!
# Rounding to the nearest number of a format

Ordinals and magnitudes grow together, so a fraction is rounded correctly when it lies between the
midpoints to the two neighbours of its ordinal. Infinity counts as the power of two after the
largest number, as the standard rule has it.
-/

namespace CounterStream

/-! ## Whole numbers -/

theorem roundEven_between (num den : Nat) (hden : 0 < den) :
    (2 * num < (2 * roundEven num den + 1) * den ∨
      2 * num = (2 * roundEven num den + 1) * den ∧ Even (roundEven num den)) ∧
    (2 * roundEven num den * den < 2 * num + den ∨
      2 * roundEven num den * den = 2 * num + den ∧ Even (roundEven num den)) := by
  have hdiv := Nat.div_add_mod' num den
  have hmod := Nat.mod_lt num hden
  simp only [roundEven, Nat.even_iff]
  split_ifs with h
  · simp only [Nat.mul_add, Nat.add_mul, Nat.mul_assoc, Nat.one_mul]
    omega
  · simp only [Nat.add_mul, Nat.mul_assoc, Nat.one_mul]
    omega

theorem le_roundEven (num den r : Nat) (hden : 0 < den) (h : r * den ≤ num) :
    r ≤ roundEven num den := by
  by_contra hlt
  have hstep : (roundEven num den + 1) * den ≤ r * den := Nat.mul_le_mul_right _ (by omega)
  have hup := (roundEven_between num den hden).1
  simp only [Nat.add_mul, Nat.mul_assoc, Nat.one_mul] at hstep hup
  omega

theorem roundEven_le (num den r : Nat) (hden : 0 < den) (h : num ≤ r * den) :
    roundEven num den ≤ r := by
  by_contra hlt
  have hstep : (r + 1) * den ≤ roundEven num den * den := Nat.mul_le_mul_right _ (by omega)
  have hdown := (roundEven_between num den hden).2
  simp only [Nat.add_mul, Nat.mul_assoc, Nat.one_mul] at hstep hdown
  omega

namespace Format

variable (F : Format)

/-! ## Magnitudes -/

theorem binade_eq : F.binade = 2 ^ F.fractionBits := Nat.one_shiftLeft _

theorem units_steps (s r : Nat) (hlow : F.binade ≤ r ∨ s = 0) (hhigh : r ≤ 2 * F.binade) :
    F.units (s * F.binade + r) = r * 2 ^ s := by
  have hpos := F.binade_pos
  by_cases hr : r < F.binade
  · obtain rfl : s = 0 := by omega
    rw [units, if_pos (by omega)]
    simp
  · obtain ⟨t, rfl⟩ : ∃ t, r = F.binade + t := ⟨r - F.binade, by omega⟩
    have hs : s * F.binade + (F.binade + t) = t + (s + 1) * F.binade := by ring
    rw [units, if_neg (by omega), hs, Nat.add_mul_mod_self_right, Nat.add_mul_div_right _ _ hpos]
    by_cases ht : t < F.binade
    · rw [Nat.mod_eq_of_lt ht, Nat.div_eq_of_lt ht, Nat.shiftLeft_eq]
      simp
    · -- A whole binade of steps is the first step of the next one.
      obtain rfl : t = F.binade := by omega
      rw [Nat.mod_self, Nat.div_self hpos, Nat.shiftLeft_eq]
      rw [show 1 + (s + 1) - 1 = s + 1 by omega]
      ring

theorem exists_steps (n : Nat) :
    ∃ s r, (F.binade ≤ r ∨ s = 0) ∧ r < 2 * F.binade ∧ n = s * F.binade + r := by
  have hpos := F.binade_pos
  by_cases h : n < F.binade
  · exact ⟨0, n, Or.inr rfl, by omega, by omega⟩
  · have hdiv := Nat.div_add_mod' (n - F.binade) F.binade
    have hmod := Nat.mod_lt (n - F.binade) hpos
    exact ⟨(n - F.binade) / F.binade, F.binade + (n - F.binade) % F.binade, by omega, by omega,
      by omega⟩

theorem units_strictMono : StrictMono F.units := by
  apply strictMono_nat_of_lt_succ
  intro n
  obtain ⟨s, r, hlow, hhigh, rfl⟩ := F.exists_steps n
  rw [Nat.add_assoc, F.units_steps s r hlow (by omega), F.units_steps s (r + 1) (by omega) hhigh]
  exact Nat.mul_lt_mul_of_pos_right (Nat.lt_succ_self r) (Nat.two_pow_pos s)

theorem units_zero : F.units 0 = 0 := by
  rw [units, if_pos F.binade_pos]

theorem units_succ_le (n : Nat) (hn : 0 < n) : F.units (n + 1) ≤ 2 * F.units n := by
  have hpos := F.binade_pos
  obtain ⟨s, r, hlow, hhigh, rfl⟩ := F.exists_steps n
  rw [Nat.add_assoc, F.units_steps s r hlow (by omega), F.units_steps s (r + 1) (by omega) hhigh,
    ← Nat.mul_assoc]
  exact Nat.mul_le_mul_right _ (by
    rcases hlow with h | rfl
    · omega
    · omega)

/-! ## Nearest ordinals -/

/-- No ordinal lies nearer to `q` units than `n`, and one that lies as near leaves it to `n` only
if `n` is even. -/
def IsNearest (q : ℚ) (n : Nat) : Prop :=
  n ≤ F.infinity ∧ ∀ m ≤ F.infinity, m ≠ n →
    |q - F.units n| < |q - F.units m| ∨ |q - F.units n| = |q - F.units m| ∧ Even n

/-- The same by midpoints: `q` lies above those to smaller ordinals and below those to larger
ones. -/
def Between (q : ℚ) (n : Nat) : Prop :=
  (∀ m < n, (F.units m + F.units n : ℚ) < 2 * q ∨ (F.units m + F.units n : ℚ) = 2 * q ∧ Even n) ∧
  (∀ m ≤ F.infinity, n < m →
    2 * q < (F.units n + F.units m : ℚ) ∨ 2 * q = (F.units n + F.units m : ℚ) ∧ Even n)

end Format

section Midpoints

variable {a b q : ℚ}

theorem abs_sub_lt_iff_midpoint (h : a < b) : |q - a| < |q - b| ↔ 2 * q < a + b := by
  have hprod : (q - b) ^ 2 - (q - a) ^ 2 = (b - a) * (a + b - 2 * q) := by ring
  rw [← sq_lt_sq, ← sub_pos, hprod, mul_pos_iff_of_pos_left (sub_pos.mpr h), sub_pos]

theorem abs_sub_lt_iff_midpoint' (h : a < b) : |q - b| < |q - a| ↔ a + b < 2 * q := by
  have hprod : (q - a) ^ 2 - (q - b) ^ 2 = (b - a) * (2 * q - (a + b)) := by ring
  rw [← sq_lt_sq, ← sub_pos, hprod, mul_pos_iff_of_pos_left (sub_pos.mpr h), sub_pos]

theorem abs_sub_eq_iff_midpoint (h : a < b) : |q - a| = |q - b| ↔ 2 * q = a + b := by
  rw [eq_iff_le_not_lt, ← not_lt, abs_sub_lt_iff_midpoint h, abs_sub_lt_iff_midpoint' h,
    eq_iff_le_not_lt, not_lt]

end Midpoints

namespace Format

variable {F : Format} {q : ℚ} {n : Nat}

theorem units_lt_units {m : Nat} (h : m < n) : (F.units m : ℚ) < F.units n :=
  Nat.cast_lt.mpr (F.units_strictMono h)

theorem isNearest_iff : F.IsNearest q n ↔ n ≤ F.infinity ∧ F.Between q n := by
  refine and_congr_right fun hn => ?_
  constructor
  · intro h
    refine ⟨fun m hm => ?_, fun m hm hlt => ?_⟩
    · have hmn := h m (by omega) (by omega)
      rwa [abs_sub_lt_iff_midpoint' (units_lt_units hm), eq_comm,
        abs_sub_eq_iff_midpoint (units_lt_units hm), eq_comm] at hmn
    · have hmn := h m hm (by omega)
      rwa [abs_sub_lt_iff_midpoint (units_lt_units hlt),
        abs_sub_eq_iff_midpoint (units_lt_units hlt)] at hmn
  · rintro ⟨hbelow, habove⟩ m hm hne
    rcases Nat.lt_or_gt_of_ne hne with hlt | hgt
    · rw [abs_sub_lt_iff_midpoint' (units_lt_units hlt), eq_comm,
        abs_sub_eq_iff_midpoint (units_lt_units hlt), eq_comm]
      exact hbelow m hlt
    · rw [abs_sub_lt_iff_midpoint (units_lt_units hgt),
        abs_sub_eq_iff_midpoint (units_lt_units hgt)]
      exact habove m hm hgt

theorem isNearest_units (hn : n ≤ F.infinity) : F.IsNearest (F.units n) n := by
  rw [isNearest_iff]
  refine ⟨hn, fun m hm => Or.inl ?_, fun m _ hm => Or.inl ?_⟩
  · linarith [units_lt_units (F := F) hm]
  · linarith [units_lt_units (F := F) hm]

theorem IsNearest.between {p r : ℚ} (hp : F.IsNearest p n) (hr : F.IsNearest r n) (hpq : p ≤ q)
    (hqr : q ≤ r) : F.IsNearest q n := by
  rw [isNearest_iff] at *
  refine ⟨hp.1, fun m hm => ?_, fun m hm hlt => ?_⟩
  · rcases hp.2.1 m hm with h | ⟨h, heven⟩
    · exact Or.inl (by linarith)
    · rcases hpq.lt_or_eq with hlt | rfl
      · exact Or.inl (by linarith)
      · exact Or.inr ⟨h, heven⟩
  · rcases hr.2.2 m hm hlt with h | ⟨h, heven⟩
    · exact Or.inl (by linarith)
    · rcases hqr.lt_or_eq with hlt | rfl
      · exact Or.inl (by linarith)
      · exact Or.inr ⟨h, heven⟩

theorem IsNearest.unique {m : Nat} (hm : F.IsNearest q m) (hn : F.IsNearest q n) : m = n := by
  wlog hmn : m < n generalizing m n
  · by_contra hne
    exact hne (this hn hm (by omega)).symm
  rw [isNearest_iff] at hm hn
  -- Two neighbours cannot both be even, and any ordinal between two others lies nearer.
  rcases hm.2.2 n hn.1 hmn with h | ⟨h, hmeven⟩
  · rcases hn.2.1 m hmn with h' | ⟨h', -⟩ <;> linarith
  · rcases hn.2.1 m hmn with h' | ⟨h', hneven⟩
    · linarith
    · have hstep : m + 1 < n := by
        rw [Nat.even_iff] at hmeven hneven
        omega
      have hsucc : (F.units (m + 1) : ℚ) < F.units n := units_lt_units hstep
      rcases hm.2.2 (m + 1) (by omega) (by omega) with h'' | ⟨h'', -⟩ <;> linarith

/-! ## The rounding of fractions -/

theorem steps_bounds (num den : Nat) (hden : 0 < den) :
    let s := (num / den).log2 - F.fractionBits
    let r := roundEven num (den <<< s)
    (F.binade ≤ r ∨ s = 0) ∧ r ≤ 2 * F.binade ∧ (r = F.binade → s ≠ 0 → r * 2 ^ s * den ≤ num) := by
  intro s r
  have hden' : 0 < den <<< s := by
    rw [Nat.shiftLeft_eq]
    exact Nat.mul_pos hden (Nat.two_pow_pos s)
  have hlt : num < 2 * F.binade * (den <<< s) := by
    have hlog : num / den < 2 ^ (F.fractionBits + s + 1) := by
      by_cases h0 : num / den = 0
      · rw [h0]
        exact Nat.two_pow_pos _
      · exact (Nat.log2_lt h0).mp (by omega)
    rw [Nat.div_lt_iff_lt_mul hden] at hlog
    calc num < 2 ^ (F.fractionBits + s + 1) * den := hlog
      _ = 2 * F.binade * (den <<< s) := by rw [binade_eq, Nat.shiftLeft_eq]; ring
  have hlow : s ≠ 0 → F.binade * (den <<< s) ≤ num := by
    intro hs
    have h0 : num / den ≠ 0 := by
      intro h0
      simp [s, h0] at hs
    have hlog : 2 ^ (F.fractionBits + s) ≤ num / den := (Nat.le_log2 h0).mp (by omega)
    rw [Nat.le_div_iff_mul_le hden] at hlog
    calc F.binade * (den <<< s) = 2 ^ (F.fractionBits + s) * den := by
          rw [binade_eq, Nat.shiftLeft_eq]; ring
      _ ≤ num := hlog
  refine ⟨?_, roundEven_le _ _ _ hden' hlt.le, ?_⟩
  · by_cases hs : s = 0
    · exact Or.inr hs
    · exact Or.inl (le_roundEven _ _ _ hden' (hlow hs))
  · intro hr hs
    rw [hr]
    calc F.binade * 2 ^ s * den = F.binade * (den <<< s) := by rw [Nat.shiftLeft_eq]; ring
      _ ≤ num := hlow hs

theorem steps_succ_le_units (s r : Nat) (hlow : F.binade ≤ r ∨ s = 0) (hhigh : r ≤ 2 * F.binade) :
    (r + 1) * 2 ^ s ≤ F.units (s * F.binade + r + 1) := by
  by_cases hr : r < 2 * F.binade
  · rw [Nat.add_assoc, F.units_steps s (r + 1) (by omega) hr]
  · have hpos := F.binade_pos
    have hnext : s * F.binade + r + 1 = (s + 1) * F.binade + (F.binade + 1) := by
      rw [Nat.add_mul]
      omega
    rw [hnext, F.units_steps (s + 1) (F.binade + 1) (by omega) (by omega), pow_succ,
      Nat.mul_comm _ 2, ← Nat.mul_assoc]
    exact Nat.mul_le_mul_right _ (by omega)

theorem even_steps (hF : 0 < F.fractionBits) (s r : Nat) :
    Even (s * F.binade + r) ↔ Even r := by
  have hbinade : Even F.binade := by
    rw [binade_eq]
    exact (Nat.even_pow.mpr ⟨even_two, by omega⟩)
  rw [Nat.even_add]
  simp only [hbinade.mul_left s, true_iff]

/-- The midpoint below is not passed. Only at the foot of a binade, where the ordinal below is
nearer than a step, does it take more than the rounding of the steps. -/
theorem steps_below (num den s r : Nat) (hden : 0 < den)
    (hlow : F.binade ≤ r ∨ s = 0) (hhigh : r ≤ 2 * F.binade)
    (hfoot : r = F.binade → s ≠ 0 → r * 2 ^ s * den ≤ num)
    (hdown : 2 * r * (den * 2 ^ s) < 2 * num + den * 2 ^ s ∨
      2 * r * (den * 2 ^ s) = 2 * num + den * 2 ^ s ∧ r % 2 = 0)
    (m : Nat) (hm : m < s * F.binade + r) :
    (F.units m + r * 2 ^ s) * den < 2 * num ∨
      (F.units m + r * 2 ^ s) * den = 2 * num ∧ r % 2 = 0 := by
  have hmn : F.units m < r * 2 ^ s := F.units_steps s r hlow hhigh ▸ F.units_strictMono hm
  by_cases hr : r = F.binade ∧ s ≠ 0
  · have hnum := hfoot hr.1 hr.2
    have hmul := Nat.mul_lt_mul_of_pos_right hmn hden
    rw [Nat.add_mul]
    omega
  · have hpred : F.units m ≤ (r - 1) * 2 ^ s := by
      rw [← F.units_steps s (r - 1) (by omega) (by omega)]
      exact F.units_strictMono.monotone (by omega)
    obtain ⟨t, rfl⟩ : ∃ t, r = t + 1 := ⟨r - 1, by
      have := Nat.pos_of_mul_pos_right (Nat.zero_lt_of_lt hmn)
      omega⟩
    have hmul := Nat.mul_le_mul_right den (Nat.add_le_add_right hpred ((t + 1) * 2 ^ s))
    have hsum : (t * 2 ^ s + (t + 1) * 2 ^ s) * den + den * 2 ^ s =
        2 * (t + 1) * (den * 2 ^ s) := by ring
    rw [Nat.add_sub_cancel] at hmul
    omega

theorem steps_above (num den s r : Nat)
    (hlow : F.binade ≤ r ∨ s = 0) (hhigh : r ≤ 2 * F.binade)
    (hup : 2 * num < (2 * r + 1) * (den * 2 ^ s) ∨
      2 * num = (2 * r + 1) * (den * 2 ^ s) ∧ r % 2 = 0)
    (m : Nat) (hm : s * F.binade + r < m) :
    2 * num < (r * 2 ^ s + F.units m) * den ∨
      (r * 2 ^ s + F.units m) * den = 2 * num ∧ r % 2 = 0 := by
  have hsucc : (r + 1) * 2 ^ s ≤ F.units m :=
    (F.steps_succ_le_units s r hlow hhigh).trans (F.units_strictMono.monotone hm)
  have hmul := Nat.mul_le_mul_right den (Nat.add_le_add_left hsucc (r * 2 ^ s))
  have hsum : (r * 2 ^ s + (r + 1) * 2 ^ s) * den = (2 * r + 1) * (den * 2 ^ s) := by ring
  omega

theorem steps_between (hF : 0 < F.fractionBits) (num den s r : Nat) (hden : 0 < den)
    (hlow : F.binade ≤ r ∨ s = 0) (hhigh : r ≤ 2 * F.binade)
    (hfoot : r = F.binade → s ≠ 0 → r * 2 ^ s * den ≤ num)
    (hup : 2 * num < (2 * r + 1) * (den * 2 ^ s) ∨
      2 * num = (2 * r + 1) * (den * 2 ^ s) ∧ Even r)
    (hdown : 2 * r * (den * 2 ^ s) < 2 * num + den * 2 ^ s ∨
      2 * r * (den * 2 ^ s) = 2 * num + den * 2 ^ s ∧ Even r) :
    F.Between (num / den : ℚ) (s * F.binade + r) := by
  rw [Nat.even_iff] at hup hdown
  have hunits := F.units_steps s r hlow hhigh
  have hcast : (0 : ℚ) < den := Nat.cast_pos.mpr hden
  -- Twice the fraction against a sum of magnitudes, all in whole numbers.
  have hlt (u : Nat) : (u : ℚ) < 2 * (num / den) ↔ u * den < 2 * num := by
    rw [mul_div_assoc', lt_div_iff₀ hcast]
    exact_mod_cast Iff.rfl
  have hgt (u : Nat) : 2 * (num / den : ℚ) < u ↔ 2 * num < u * den := by
    rw [mul_div_assoc', div_lt_iff₀ hcast]
    exact_mod_cast Iff.rfl
  have heq (u : Nat) : (u : ℚ) = 2 * (num / den) ↔ u * den = 2 * num := by
    rw [mul_div_assoc', eq_div_iff hcast.ne']
    exact_mod_cast Iff.rfl
  refine ⟨fun m hm => ?_, fun m _ hm => ?_⟩
  · rw [← Nat.cast_add, hlt, heq, even_steps hF, hunits, Nat.even_iff]
    exact steps_below num den s r hden hlow hhigh hfoot hdown m hm
  · rw [← Nat.cast_add, hgt, eq_comm, heq, even_steps hF, hunits, Nat.even_iff]
    exact steps_above num den s r hlow hhigh hup m hm

/-- Rounding gives the nearest ordinal, of two the even one. -/
theorem nearest_isNearest (hF : 0 < F.fractionBits) (num den : Nat) (hden : 0 < den) :
    F.IsNearest (num / den : ℚ) (F.nearest num den) := by
  obtain ⟨hlow, hhigh, hfoot⟩ := F.steps_bounds num den hden
  have hsteps := steps_between hF num den _ _ hden hlow hhigh hfoot
  have hround := roundEven_between num (den <<< ((num / den).log2 - F.fractionBits))
    (by rw [Nat.shiftLeft_eq]; exact Nat.mul_pos hden (Nat.two_pow_pos _))
  rw [← Nat.shiftLeft_eq] at hsteps
  replace hsteps := hsteps hround.1 hround.2
  rw [isNearest_iff]
  refine ⟨F.nearest_le_infinity num den, ?_⟩
  show F.Between _ (min _ F.infinity)
  generalize _ + roundEven num _ = n at *
  rcases Nat.le_or_ge n F.infinity with h | h
  · rwa [Nat.min_eq_left h]
  · rw [Nat.min_eq_right h]
    refine ⟨fun m hm => ?_, fun m hm hlt => absurd hm (by omega)⟩
    rcases h.lt_or_eq with hlt | rfl
    · have hmn : (F.units m : ℚ) < F.units n := units_lt_units (by omega)
      rcases hsteps.1 _ hlt with h' | ⟨h', -⟩ <;> exact Or.inl (by linarith)
    · exact hsteps.1 m hm

theorem nearest_eq_iff (hF : 0 < F.fractionBits) (num den : Nat) (hden : 0 < den) :
    F.nearest num den = n ↔ F.IsNearest (num / den : ℚ) n := by
  constructor
  · rintro rfl
    exact nearest_isNearest hF num den hden
  · exact (nearest_isNearest hF num den hden).unique

end Format

end CounterStream
