import CounterStream.Proofs.Agreement
import CounterStream.Proofs.Neighbours

/-!
# Shortest decimals by way of a double

The shortest decimal of a single is rounded twice when it is read as a double first. It comes back
as another single only if the double and the decimal lie on different sides of a midpoint of
singles. Such a decimal agrees with the midpoint to 52 bits, and its coefficient and the midpoint
have no more than 25 bits, since the decimal lies half a step of singles away from its single. For
each exponent and each size of step there are at most two fractions of such small terms near the
ratio of the two, so all decimals that can be lost are found by looking at these.
-/

namespace CounterStream

namespace Format

variable {F : Format} {u w : ℚ} {n : Nat}

theorem single_one : (single.one : ℚ) = 2 ^ 149 := by
  exact_mod_cast single.one_eq

theorem double_one : (double.one : ℚ) = 2 ^ 150 * 2 ^ 924 := by
  rw [one_eq, show double.places = 150 + 924 from rfl, pow_add, Nat.cast_mul, Nat.cast_pow,
    Nat.cast_pow, Nat.cast_ofNat]

/-! ## Midpoints -/

theorem isNearest_of_midpoints (hn : n ≤ F.infinity)
    (hbelow : ∀ k, k + 1 = n → (F.units k + F.units (k + 1) : ℚ) < 2 * w)
    (habove : 2 * w < F.units n + F.units (n + 1)) : F.IsNearest w n := by
  rw [isNearest_iff]
  refine ⟨hn, fun m hm => Or.inl ?_, fun m _ hm => Or.inl ?_⟩
  · obtain ⟨k, rfl⟩ : ∃ k, n = k + 1 := ⟨n - 1, by omega⟩
    have hle : (F.units m : ℚ) ≤ F.units k :=
      Nat.cast_le.mpr (F.units_strictMono.monotone (Nat.le_of_lt_succ hm))
    linarith [hbelow k rfl]
  · have hle : (F.units (n + 1) : ℚ) ≤ F.units m := Nat.cast_le.mpr (F.units_strictMono.monotone hm)
    linarith

/-- Two fractions are rounded alike unless a midpoint to a neighbour lies between them. -/
theorem IsNearest.or_midpoint (h : F.IsNearest u n) (hn : n < F.infinity) (w : ℚ) :
    F.IsNearest w n ∨ ∃ k < F.infinity, (k = n ∨ k + 1 = n) ∧
      (2 * u ≤ F.units k + F.units (k + 1) ∧ F.units k + F.units (k + 1) ≤ 2 * w ∨
        2 * w ≤ F.units k + F.units (k + 1) ∧ F.units k + F.units (k + 1) ≤ 2 * u) := by
  obtain ⟨hbelow, habove⟩ := (isNearest_iff.mp h).2
  rcases lt_or_ge (2 * w) (F.units n + F.units (n + 1)) with hw | hw
  · by_cases hstep : ∃ k, k + 1 = n ∧ 2 * w ≤ F.units k + F.units (k + 1)
    · obtain ⟨k, rfl, hk⟩ := hstep
      have hu := hbelow k (Nat.lt_succ_self k)
      exact Or.inr ⟨k, by omega, Or.inr rfl, Or.inr ⟨hk, hu.elim le_of_lt fun h' => h'.1.le⟩⟩
    · left
      apply isNearest_of_midpoints hn.le _ hw
      intro k hk
      by_contra hge
      exact hstep ⟨k, hk, not_lt.mp hge⟩
  · have hu := habove (n + 1) hn (Nat.lt_succ_self n)
    exact Or.inr ⟨n, hn, Or.inl rfl, Or.inl ⟨hu.elim le_of_lt fun h' => h'.1.le, hw⟩⟩

/-! ## How far a shortest decimal lies from its number -/

theorem step_le (hF : F.Moderate) {place r s : Nat} (hn : n < F.infinity)
    (hlast : ∀ m, F.nearestScaled (m * 10 ^ place) ≠ n) (hunits : F.units n = r * 2 ^ s)
    (hnext : F.units (n + 1) = (r + 1) * 2 ^ s) : 2 ^ s * 5 ^ F.places ≤ 2 * 10 ^ place := by
  by_contra hlt
  have hpos : 0 < 10 ^ place := Nat.pow_pos (by decide)
  have hdiv := Nat.div_add_mod' (F.scaled n) (10 ^ place)
  have hmod := Nat.mod_lt (F.scaled n) hpos
  have hscaled : F.scaled n = F.units n * 5 ^ F.places := by rw [scaled, Nat.pow_eq]
  have h5 : (0 : ℚ) < 5 ^ F.places := by positivity
  -- The multiple next above the value stays below the midpoint.
  apply hlast (F.scaled n / 10 ^ place + 1)
  rw [nearestScaled_eq_iff hF]
  apply isNearest_of_midpoints hn.le
  · rintro k rfl
    have hk : (F.units k : ℚ) < F.units (k + 1) := units_lt_units (Nat.lt_succ_self k)
    have habove : (F.units (k + 1) : ℚ) ≤
        ((F.scaled (k + 1) / 10 ^ place + 1) * 10 ^ place : Nat) / 5 ^ F.places := by
      rw [le_div_iff₀ h5]
      exact_mod_cast (show F.units (k + 1) * 5 ^ F.places ≤ _ by rw [Nat.add_mul]; omega)
    linarith
  · rw [mul_div_assoc', div_lt_iff₀ h5]
    have hsum : (F.units n + F.units (n + 1)) * 5 ^ F.places =
        2 * F.scaled n + 2 ^ s * 5 ^ F.places := by
      rw [hscaled, hnext, hunits]
      ring
    exact_mod_cast (show 2 * ((F.scaled n / 10 ^ place + 1) * 10 ^ place) <
      (F.units n + F.units (n + 1)) * 5 ^ F.places by rw [hsum, Nat.add_mul]; omega)

end Format

namespace Binary

theorem shortest_congr {F : Format} (tie : Tie) {x y : Binary F} (h : x.ordinal = y.ordinal) :
    x.shortest tie = y.shortest tie := by
  rw [shortest, shortest, h]

theorem shortest_dist {F : Format} (hF : F.Moderate) (tie : Tie) (x : Binary F) (hx : x.isFinite)
    (hpos : x.ordinal ≠ 0) :
    |(x.shortest tie).value * F.one - F.units x.ordinal| ≤
      10 ^ (x.shortest tie).exponent * F.one := by
  obtain ⟨c, place, heq, ⟨hup, hdown⟩, -⟩ := shortest_found hF tie x hx hpos
  have hexponent := Decimal.trim_exponent_le ⟨c, place - F.places⟩
  have hunits : (F.units x.ordinal : ℚ) = F.scaled x.ordinal / 5 ^ F.places := by
    rw [Format.scaled, Nat.pow_eq]
    push_cast
    field_simp
  have hstep : (10 ^ place : ℚ) / 5 ^ F.places ≤ 10 ^ (x.shortest tie).exponent * F.one := by
    have hvalue := value_scaled F 1 place
    rw [Decimal.value, Nat.cast_one, one_mul, one_mul, Nat.cast_pow, Nat.cast_ofNat] at hvalue
    rw [← hvalue, heq]
    gcongr
    norm_num
  refine le_trans ?_ hstep
  have hup' : (c * 10 ^ place : ℚ) ≤ F.scaled x.ordinal + 10 ^ place := by exact_mod_cast hup
  have hdown' : (F.scaled x.ordinal : ℚ) ≤ c * 10 ^ place + 10 ^ place := by exact_mod_cast hdown
  have hvalue := value_scaled F c place
  have h5 : (0 : ℚ) < 5 ^ F.places := by positivity
  rw [heq, Decimal.trim_value, hvalue, hunits, ← sub_div, abs_div, abs_of_pos h5,
    div_le_div_iff_of_pos_right h5, abs_le]
  push_cast
  constructor <;> linarith

theorem shortest_coefficient_pos {F : Format} (hF : F.Moderate) (tie : Tie) (x : Binary F)
    (hx : x.isFinite) (hpos : x.ordinal ≠ 0) : 0 < (x.shortest tie).coefficient := by
  have hnear := shortest_isNearest hF tie x hx
  by_contra h0
  rw [Decimal.value, show (x.shortest tie).coefficient = 0 by omega, Nat.cast_zero, zero_mul,
    zero_mul] at hnear
  exact hpos (hnear.unique (Format.isNearest_zero (by norm_num)))

theorem shortest_exponent_lt {F : Format} (hF : F.Moderate) (tie : Tie) (x : Binary F)
    (hx : x.isFinite) (hpos : x.ordinal ≠ 0) (digits : Nat)
    (h : F.units F.infinity ≤ 10 ^ digits * F.one) : (x.shortest tie).exponent < digits := by
  by_contra hge
  have hcoefficient : (1 : ℚ) ≤ (x.shortest tie).coefficient := by
    exact_mod_cast shortest_coefficient_pos hF tie x hx hpos
  have hpow : (10 : ℚ) ^ (digits : Int) ≤ 10 ^ (x.shortest tie).exponent :=
    zpow_le_zpow_right₀ (by norm_num) (not_lt.mp hge)
  have hlarge : (F.units F.infinity : ℚ) ≤ (x.shortest tie).value * F.one := by
    calc (F.units F.infinity : ℚ) ≤ 1 * 10 ^ (digits : Int) * F.one := by
          rw [one_mul, zpow_natCast]
          exact_mod_cast h
      _ ≤ (x.shortest tie).value * F.one := by
          rw [Decimal.value]
          gcongr
  have hinfinity := (shortest_isNearest hF tie x hx).ge_of_ge le_rfl hlarge
  exact absurd ((isFinite_iff x).mp hx) (by omega)

variable (tie : Tie) (x : Single) (hx : x.isFinite) (hpos : x.ordinal ≠ 0)

include hx hpos

theorem shortest_bounds :
    (x.shortest tie).coefficient < 2 ^ 53 ∧ -46 ≤ (x.shortest tie).exponent ∧
      (x.shortest tie).exponent ≤ 38 := by
  obtain ⟨c, place, heq, ⟨hup, -⟩, -, hlast⟩ :=
    shortest_found Format.single_moderate tie x hx hpos
  obtain ⟨s, r, -, hr, -, hunits, hnext⟩ := Format.single.exists_gap x.ordinal
  have hstep := Format.step_le Format.single_moderate ((isFinite_iff x).mp hx) hlast hunits hnext
  have hplaces : Format.single.places = 149 := rfl
  rw [hplaces] at hstep heq
  refine ⟨?_, ?_, ?_⟩
  · have hscaled : Format.single.scaled x.ordinal ≤ r * (2 * 10 ^ (place + 1)) := by
      rw [Format.scaled, Nat.pow_eq, hunits, hplaces, Nat.mul_assoc]
      exact Nat.mul_le_mul_left r hstep
    have hc : c ≤ 20 * r + 1 := by
      apply Nat.le_of_mul_le_mul_right _ (Nat.pow_pos (n := place) (show 0 < 10 by decide))
      calc c * 10 ^ place ≤ r * (2 * 10 ^ (place + 1)) + 10 ^ place := by omega
        _ = (20 * r + 1) * 10 ^ place := by ring
    have hr' : r < 2 ^ 24 := hr
    have htrim := Decimal.trim_coefficient_le ⟨c, place - (149 : Nat)⟩
    rw [← heq] at htrim
    dsimp only at htrim
    omega
  · have hplace : 103 ≤ place := by
      by_contra hlt
      have hpow : 10 ^ (place + 1) ≤ 10 ^ 103 := Nat.pow_le_pow_right (by decide) (by omega)
      have hfive : 2 * 10 ^ 103 < 5 ^ 149 := by norm_num
      have hone := Nat.le_mul_of_pos_left (5 ^ 149) (Nat.two_pow_pos s)
      omega
    have htrim := Decimal.trim_exponent_le ⟨c, place - (149 : Nat)⟩
    rw [← heq] at htrim
    dsimp only at htrim
    omega
  · have hdigits := shortest_exponent_lt Format.single_moderate tie x hx hpos 39
      (by decide +kernel)
    omega

end Binary

/-! ## Decimals near midpoints -/

namespace Decimal

/-- The size of `10 ^ p` in steps of `2 ^ s` halves of the smallest single. -/
def stepRatio (p : Int) (s : Nat) : Fraction :=
  match p with
  | .ofNat e => ⟨10 ^ e * 2 ^ 150, 2 ^ s⟩
  | .negSucc e => ⟨2 ^ 150, 10 ^ (e + 1) * 2 ^ s⟩

/-- All decimals of at most 25 bits that lie next to a midpoint without being one. -/
def nextToMidpoint : List Decimal := [⟨7038531, -32⟩, ⟨14077062, -32⟩, ⟨25645849, -15⟩]

/-- If a fraction is near the ratio, it is the ratio, or its multiples are in the list. -/
def isSettled (p : Int) (ratio f : Fraction) : Bool :=
  !decide (Near ratio.num ratio.den f.den f.num) ||
    (Nat.beq (f.den * ratio.num) (f.num * ratio.den) && Nat.ble p.natAbs 22) ||
    (List.range (2 ^ 25 / max f.den f.num)).all fun g => ⟨(g + 1) * f.den, p⟩ ∈ nextToMidpoint

/-- Whether both neighbours of a ratio are settled, unless the ratio is too small or too large for
the last place of a shortest decimal. -/
def isCovered (p : Int) (s : Nat) : Bool :=
  let ratio := stepRatio p s
  Nat.blt (ratio.num * 2 ^ 20) (ratio.den * (2 ^ 20 - 1)) ||
    Nat.blt (ratio.den * 2 ^ 25) ratio.num ||
    Nat.ble ratio.den ratio.num &&
      let (l, r) := Fraction.around ratio.num ratio.den (2 ^ 25)
      decide (Neighbours ratio.num ratio.den (2 ^ 25) l r) && isSettled p ratio l &&
        isSettled p ratio r

theorem all_isCovered :
    ((List.range 85).all fun i => (List.range 254).all fun s =>
      isCovered (i - 46 : Int) s) = true := by
  decide +kernel

theorem isCovered_of_bounds {p : Int} {s : Nat} (hlow : -46 ≤ p) (hhigh : p ≤ 38) (hs : s < 254) :
    isCovered p s := by
  have hall := all_isCovered
  simp only [List.all_eq_true, List.mem_range] at hall
  have h := hall (p + 46).toNat (by omega) s hs
  rwa [show ((p + 46).toNat - 46 : Int) = p by omega] at h

theorem stepRatio_spec (p : Int) (s : Nat) :
    0 < (stepRatio p s).num ∧ 0 < (stepRatio p s).den ∧
      (10 : ℚ) ^ p * 2 ^ 150 * (stepRatio p s).den = (stepRatio p s).num * 2 ^ s := by
  cases p with
  | ofNat e =>
    rw [stepRatio, Int.ofNat_eq_natCast, zpow_natCast]
    refine ⟨by positivity, by positivity, ?_⟩
    push_cast
    ring
  | negSucc e =>
    rw [stepRatio, zpow_negSucc]
    refine ⟨by positivity, by positivity, ?_⟩
    push_cast
    field_simp
    norm_num

theorem of_isSettled {p : Int} {ratio f : Fraction} (h : isSettled p ratio f)
    (hnear : Near ratio.num ratio.den f.den f.num) {g : Nat} (hpos : 0 < g * f.den)
    (hden : g * f.den ≤ 2 ^ 25) (hnum : g * f.num ≤ 2 ^ 25) :
    (g * f.den * ratio.num = g * f.num * ratio.den ∧ p.natAbs ≤ 22) ∨
      ⟨g * f.den, p⟩ ∈ nextToMidpoint := by
  simp only [isSettled, Bool.or_eq_true, Bool.and_eq_true, Bool.not_eq_true',
    decide_eq_false_iff_not, Nat.beq_eq, Nat.ble_eq, List.all_eq_true, List.mem_range,
    decide_eq_true_eq] at h
  rcases h with (h | ⟨h, hp⟩) | h
  · exact absurd hnear h
  · exact Or.inl ⟨by rw [Nat.mul_assoc, h, Nat.mul_assoc], hp⟩
  · have hmax : g * max f.den f.num ≤ 2 ^ 25 := by
      rcases max_choice f.den f.num with hmax | hmax <;> rwa [hmax]
    right
    obtain ⟨i, rfl⟩ := Nat.exists_eq_succ_of_ne_zero (Nat.pos_of_mul_pos_right hpos).ne'
    exact h i ((Nat.le_div_iff_mul_le
      ((Nat.pos_of_mul_pos_left hpos).trans_le (Nat.le_max_left _ _))).mpr hmax)

/-- A decimal near a midpoint of no more than 25 bits is exactly there, or is one of three. -/
theorem exact_or_mem {p : Int} {s c m : Nat} (hcovered : isCovered p s) (hc : 0 < c) (hm : 0 < m)
    (hbits : m < 2 ^ 25) (hnear : Near (stepRatio p s).num (stepRatio p s).den c m)
    (hstep : (stepRatio p s).den * (2 ^ 20 - 1) ≤ (stepRatio p s).num * 2 ^ 20) :
    (c * (stepRatio p s).num = m * (stepRatio p s).den ∧ p.natAbs ≤ 22) ∨
      ⟨c, p⟩ ∈ nextToMidpoint := by
  obtain ⟨hnum, hden, -⟩ := stepRatio_spec p s
  simp only [isCovered, Bool.or_eq_true, Bool.and_eq_true, Nat.blt_eq, Nat.ble_eq,
    decide_eq_true_eq] at hcovered
  generalize stepRatio p s = ratio at *
  have hupper : m * ratio.den ≤ (2 ^ 25 - 1) * ratio.den := Nat.mul_le_mul_right _ (by omega)
  have hlower := Nat.le_mul_of_pos_left ratio.num hc
  have habove := hnear.1
  unfold NotAbove at habove
  rcases hcovered with (hsmall | hlarge) | ⟨hle, ⟨hneighbours, hl⟩, hr⟩
  · omega
  · omega
  · -- A last place no smaller than the step leaves the decimal no more bits than the midpoint has.
    have hcm : c ≤ m := by
      by_contra hlt
      have hsucc : (m + 1) * ratio.num ≤ c * ratio.num := Nat.mul_le_mul_right _ (by omega)
      have hterm : m * ratio.den ≤ m * ratio.num := Nat.mul_le_mul_left m hle
      have hbound : m * ratio.num ≤ 2 ^ 25 * ratio.num := Nat.mul_le_mul_right _ hbits.le
      rw [Nat.add_mul] at hsucc
      omega
    obtain ⟨f, hf, hfnear, g, rfl, rfl⟩ := hneighbours.multiple_of_near le_rfl hnum hden hc hm
      (hcm.trans hbits.le) hbits.le hnear
    have hsettled : isSettled p ratio f := by
      rcases hf with rfl | rfl
      · exact hl
      · exact hr
    exact of_isSettled hsettled hfnear hc (hcm.trans hbits.le) hbits.le

theorem near_of_agree {p : Int} {s c m : Nat} (h : Agree 52 (c * 10 ^ p * 2 ^ 150) (m * 2 ^ s)) :
    Near (stepRatio p s).num (stepRatio p s).den c m := by
  obtain ⟨-, -, hratio⟩ := stepRatio_spec p s
  generalize stepRatio p s = ratio at *
  have hscale : (0 : ℚ) < 2 ^ s := by positivity
  have hscaled := h.mul_left (div_nonneg (Nat.cast_nonneg (α := ℚ) ratio.den) hscale.le)
  have hdecimal : (ratio.den : ℚ) / 2 ^ s * (c * 10 ^ p * 2 ^ 150) = (c * ratio.num : Nat) := by
    rw [div_mul_eq_mul_div, div_eq_iff hscale.ne']
    push_cast
    linear_combination (c : ℚ) * hratio
  have hmidpoint : (ratio.den : ℚ) / 2 ^ s * (m * 2 ^ s) = (m * ratio.den : Nat) := by
    push_cast
    field_simp
  rw [hdecimal, hmidpoint] at hscaled
  exact ⟨by exact_mod_cast hscaled.le, by exact_mod_cast hscaled.ge⟩

theorem stepRatio_le {p : Int} {s : Nat}
    (h : (2 ^ s * (2 ^ 20 - 1) : ℚ) ≤ 10 ^ p * 2 ^ 150 * 2 ^ 20) :
    (stepRatio p s).den * (2 ^ 20 - 1) ≤ (stepRatio p s).num * 2 ^ 20 := by
  obtain ⟨-, -, hratio⟩ := stepRatio_spec p s
  generalize stepRatio p s = ratio at *
  have hscale : (0 : ℚ) < 2 ^ s := by positivity
  have hscaled := mul_le_mul_of_nonneg_right h (Nat.cast_nonneg (α := ℚ) ratio.den)
  have hle : (ratio.den * (2 ^ 20 - 1) : ℚ) ≤ ratio.num * 2 ^ 20 := by
    apply le_of_mul_le_mul_right _ hscale
    linear_combination hscaled + 2 ^ 20 * hratio
  norm_num at hle ⊢
  exact_mod_cast hle

theorem value_of_stepRatio {p : Int} {s c m : Nat}
    (h : c * (stepRatio p s).num = m * (stepRatio p s).den) :
    (c * 10 ^ p * 2 ^ 150 : ℚ) = m * 2 ^ s := by
  obtain ⟨-, hden, hratio⟩ := stepRatio_spec p s
  generalize stepRatio p s = ratio at *
  have hcast : (c * ratio.num : ℚ) = m * ratio.den := by exact_mod_cast h
  apply mul_right_cancel₀ (Nat.cast_pos (α := ℚ).mpr hden).ne'
  linear_combination (c : ℚ) * hratio + 2 ^ s * hcast

end Decimal

/-! ## What comes back -/

namespace Binary

variable (tie : Tie) (x : Single) (hx : x.isFinite) (hpos : x.ordinal ≠ 0)

include hx hpos

theorem midpoint_step_le {k s r : Nat} (hk : k = x.ordinal ∨ k + 1 = x.ordinal)
    (hr : r < 2 ^ 24) (hunits : Format.single.units k = r * 2 ^ s)
    (hnext : Format.single.units (k + 1) = (r + 1) * 2 ^ s)
    (hagree : Agree 52 ((x.shortest tie).value * 2 ^ 150) ((2 * r + 1 : Nat) * 2 ^ s)) :
    (2 ^ s * (2 ^ 20 - 1) : ℚ) ≤ 10 ^ (x.shortest tie).exponent * 2 ^ 150 * 2 ^ 20 := by
  have hdist := abs_le.mp (shortest_dist Format.single_moderate tie x hx hpos)
  rw [Format.single_one] at hdist
  have hvalue := (x.shortest tie).value_nonneg
  have hscale : (0 : ℚ) < 2 ^ s := by positivity
  have hbits : (r : ℚ) + 1 ≤ 2 ^ 24 := by exact_mod_cast hr
  have hsum : (r : ℚ) * 2 ^ s + 2 ^ s ≤ 2 ^ 24 * 2 ^ s := by nlinarith
  obtain ⟨hle, hge⟩ := hagree
  push_cast at hle hge
  rcases hk with rfl | hk
  · rw [hunits] at hdist
    push_cast at hdist
    linarith
  · rw [← hk, hnext] at hdist
    push_cast at hdist
    linarith

/-- What agrees with the shortest decimal to 52 bits is rounded like it, unless the decimal is a
midpoint itself or one of the three next to one. -/
theorem shortest_cases {w : ℚ} (hagree : Agree 52 (x.shortest tie).value w) :
    Format.single.IsNearest (w * Format.single.one) x.ordinal ∨
      ((x.shortest tie).exponent.natAbs ≤ 22 ∧ ∃ m s : Nat, m < 2 ^ 25 ∧
        (x.shortest tie).value * 2 ^ 150 = m * 2 ^ s) ∨
      x.shortest tie ∈ Decimal.nextToMidpoint := by
  have hfinite := (isFinite_iff x).mp hx
  have hvalue := (x.shortest tie).value_nonneg
  have hnear := shortest_isNearest Format.single_moderate tie x hx
  obtain ⟨-, hlow, hhigh⟩ := shortest_bounds tie x hx hpos
  have hcoefficient := shortest_coefficient_pos Format.single_moderate tie x hx hpos
  rcases hnear.or_midpoint hfinite (w * Format.single.one) with hw | ⟨k, hk, hadjacent, hbetween⟩
  · exact Or.inl hw
  right
  obtain ⟨s, r, hbinade, hr, hsteps, hunits, hnext⟩ := Format.single.exists_gap k
  have hs : s < 254 := by
    have hinfinity : Format.single.infinity = 255 * 2 ^ 23 := by decide
    have hfraction : Format.single.binade = 2 ^ 23 := by decide
    rw [hfraction] at hbinade hsteps
    omega
  -- In halves of a unit midpoints are whole, too.
  have htwo (q : ℚ) : 2 * (q * Format.single.one) = q * 2 ^ 150 := by
    rw [Format.single_one]
    ring
  have hmid : (Format.single.units k + Format.single.units (k + 1) : ℚ) =
      (2 * r + 1 : Nat) * 2 ^ s := by
    rw [hunits, hnext]
    push_cast
    ring
  have hagree' : Agree 52 ((x.shortest tie).value * 2 ^ 150) ((2 * r + 1 : Nat) * 2 ^ s) := by
    have hscaled := hagree.mul_left (show (0 : ℚ) ≤ 2 ^ 150 by positivity)
    rw [hmid, htwo, htwo] at hbetween
    rw [mul_comm, mul_comm _ w] at hscaled
    exact hscaled.between (by positivity) hbetween
  have hstep := midpoint_step_le tie x hx hpos hadjacent hr hunits hnext hagree'
  obtain ⟨hnum, hden, hratio⟩ := Decimal.stepRatio_spec (x.shortest tie).exponent s
  have hbits : 2 * r + 1 < 2 ^ 25 := by
    have hr' : r < 2 ^ 24 := hr
    omega
  have hnext' := Decimal.exact_or_mem (Decimal.isCovered_of_bounds hlow hhigh hs) hcoefficient
    (Nat.succ_pos _) hbits (Decimal.near_of_agree hagree') (Decimal.stepRatio_le hstep)
  exact hnext'.imp_left fun ⟨hexact, hp⟩ => ⟨hp, _, s, hbits, Decimal.value_of_stepRatio hexact⟩

theorem convert_of_agree (y : Double) (hy : y.isFinite)
    (hagree : Agree 52 (x.shortest tie).value y.magnitude)
    (hexact : (x.shortest tie).exponent.natAbs ≤ 22 → ∀ m s : Nat, m < 2 ^ 53 → 52 ≤ s →
      (x.shortest tie).value * Format.double.one = (m * 2 ^ s : ℚ) →
      y.magnitude = (x.shortest tie).value)
    (hnext : x.shortest tie ∈ Decimal.nextToMidpoint →
      (y.convert : Single).ordinal = ((x.shortest tie).toBinary Format.single false).ordinal) :
    (y.convert : Single).ordinal = x.ordinal := by
  have hconvert := (convert_isNearest (G := Format.single) (by decide) y hy).2
  have hnear := shortest_isNearest Format.single_moderate tie x hx
  rcases shortest_cases tie x hx hpos hagree with hw | ⟨hp, m, s, hm, hvalue⟩ | hmem
  · exact hconvert.unique hw
  · rw [hexact hp m (s + 924) (by omega) (by omega)] at hconvert
    · exact hconvert.unique hnear
    · rw [Format.double_one, pow_add, ← mul_assoc, hvalue, mul_assoc]
  · rw [hnext hmem]
    exact ((x.shortest tie).toBinary_isNearest Format.single_moderate false).unique hnear

theorem convert_timesPower :
    let d := x.shortest tie
    let y := Literal.timesPower (ofNat d.coefficient) d.exponent
    y.isFinite ∧ (y.convert : Single) = { x with negative := false } := by
  intro d y
  obtain ⟨hbits, hlow, hhigh⟩ := shortest_bounds tie x hx hpos
  have hcoefficient := shortest_coefficient_pos Format.single_moderate tie x hx hpos
  have he : d.exponent.natAbs ≤ 46 := by
    change (x.shortest tie).exponent.natAbs ≤ 46
    omega
  obtain ⟨hfinite, hagree⟩ :=
    Literal.timesPower_agree d.coefficient hcoefficient hbits d.exponent he
  have hsign := (Literal.timesPower_isNearest d.coefficient hcoefficient hbits d.exponent he).1
  have hnext : ∀ d ∈ Decimal.nextToMidpoint,
      ((Literal.timesPower (ofNat d.coefficient) d.exponent).convert : Single).ordinal =
        (d.toBinary Format.single false).ordinal := by
    decide +kernel
  have hordinal := convert_of_agree tie x hx hpos y hfinite hagree
    (fun hp m s hm hs =>
      Literal.timesPower_exact d.coefficient hcoefficient hbits d.exponent hp hm hs)
    (hnext d)
  have hnegative := (convert_isNearest (G := Format.single) (by decide) y hfinite).1.trans hsign
  exact ⟨hfinite, eq_of_ordinal hnegative hordinal⟩

theorem shortest_value_bounds :
    1 ≤ (x.shortest tie).value * 10 ^ 100 ∧ (x.shortest tie).value ≤ 10 ^ 100 := by
  obtain ⟨hbits, hlow, hhigh⟩ := shortest_bounds tie x hx hpos
  have hcoefficient := shortest_coefficient_pos Format.single_moderate tie x hx hpos
  have hone : (1 : ℚ) ≤ (x.shortest tie).coefficient := by exact_mod_cast hcoefficient
  have hbits' : ((x.shortest tie).coefficient : ℚ) ≤ 2 ^ 53 := by exact_mod_cast hbits.le
  have hsmall : (10 : ℚ) ^ (-46 : Int) ≤ 10 ^ (x.shortest tie).exponent :=
    zpow_le_zpow_right₀ (by norm_num) hlow
  have hlarge : (10 : ℚ) ^ (x.shortest tie).exponent ≤ 10 ^ (38 : Int) :=
    zpow_le_zpow_right₀ (by norm_num) hhigh
  rw [Decimal.value]
  constructor
  · calc (1 : ℚ) ≤ 1 * 10 ^ (-46 : Int) * 10 ^ 100 := by norm_num
      _ ≤ (x.shortest tie).coefficient * 10 ^ (x.shortest tie).exponent * 10 ^ 100 := by gcongr
  · calc ((x.shortest tie).coefficient : ℚ) * 10 ^ (x.shortest tie).exponent
        ≤ 2 ^ 53 * 10 ^ (38 : Int) := by gcongr
      _ ≤ 10 ^ 100 := by norm_num

omit hpos in
theorem shortest_nextToMidpoint (hmem : x.shortest tie ∈ Decimal.nextToMidpoint) :
    x.shortest tie = ⟨7038531, -32⟩ := by
  have hall : ∀ d ∈ Decimal.nextToMidpoint,
      (d.toBinary Format.single false).shortest tie = d → d = ⟨7038531, -32⟩ := by
    cases tie <;> decide +kernel
  have hordinal : ((x.shortest tie).toBinary Format.single false).ordinal = x.ordinal :=
    ((x.shortest tie).toBinary_isNearest Format.single_moderate false).unique
      (shortest_isNearest Format.single_moderate tie x hx)
  exact hall _ hmem (shortest_congr tie hordinal)

theorem ordinal_convert_toBinary (negative : Bool) :
    (((x.shortest tie).toBinary Format.double negative).isFinite) ∧
      ((((x.shortest tie).toBinary Format.double negative).convert : Single).ordinal = x.ordinal ↔
        x.ordinal ≠ 0x15ae43fd) := by
  obtain ⟨hlow, hhigh⟩ := shortest_value_bounds tie x hx hpos
  have hread := (x.shortest tie).toBinary_isNearest Format.double_moderate negative
  obtain ⟨hfinite, hagree⟩ := agree_of_isNearest Format.double_covers hread
    (by exact_mod_cast hlow) (by exact_mod_cast hhigh)
  have hnear := shortest_isNearest Format.single_moderate tie x hx
  refine ⟨hfinite, ?_⟩
  by_cases hd : x.shortest tie = ⟨7038531, -32⟩
  · have hordinal := ((x.shortest tie).toBinary_isNearest Format.single_moderate false).unique hnear
    have hsingle : (Decimal.toBinary Format.single false ⟨7038531, -32⟩).ordinal = 0x15ae43fd := by
      decide +kernel
    have hdouble : ((Decimal.toBinary Format.double negative ⟨7038531, -32⟩).convert :
        Single).ordinal ≠ 0x15ae43fd := by
      cases negative <;> decide +kernel
    rw [hd, hsingle] at hordinal
    rw [hd, ← hordinal]
    simpa using hdouble
  · have hordinal : x.ordinal ≠ 0x15ae43fd := by
      intro heq
      have hshortest : (⟨false, 0x15ae43fd, by decide⟩ : Single).shortest tie = ⟨7038531, -32⟩ := by
        cases tie <;> decide +kernel
      exact hd ((shortest_congr tie heq).trans hshortest)
    have hmember : x.shortest tie ∉ Decimal.nextToMidpoint :=
      fun hmem => hd (shortest_nextToMidpoint tie x hx hmem)
    refine iff_of_true (convert_of_agree tie x hx hpos _ hfinite
      (hagree.mono (Decimal.value_nonneg _) (magnitude_nonneg _)) (fun _ m s hm hs hvalue => ?_)
      fun hmem => absurd hmem hmember) hordinal
    exact magnitude_of_isNearest Format.double_covers hread (by exact_mod_cast hhigh) hm hs hvalue

omit hpos in
/-- With the nearest double instead, one magnitude is lost, `7.038531e-26`. -/
theorem convert_toBinary_iff :
    (((x.shortest tie).toBinary Format.double x.negative).convert : Single) = x ↔
      x.ordinal ≠ 0x15ae43fd := by
  by_cases hpos : x.ordinal = 0
  · have hzero (negative : Bool) :
        ((Decimal.toBinary Format.double negative ⟨0, 0⟩).convert : Single) = zero negative := by
      cases negative <;> decide +kernel
    rw [shortest_of_zero tie x hpos, hzero, hpos]
    exact iff_of_true (eq_of_ordinal rfl hpos.symm) (by decide)
  · obtain ⟨hfinite, hordinal⟩ := ordinal_convert_toBinary tie x hx hpos x.negative
    have hsign := (convert_isNearest (G := Format.single) (by decide) _ hfinite).1
    rw [Decimal.toBinary_negative] at hsign
    rw [← hordinal]
    exact ⟨congrArg ordinal, eq_of_ordinal hsign⟩

end Binary

end CounterStream
