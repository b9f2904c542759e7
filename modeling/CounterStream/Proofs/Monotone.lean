import CounterStream.Proofs.Agreement

/-!
# Operations keep order

Rounding never puts a larger fraction below a smaller one. So each operation on finite numbers gives
a magnitude that grows with the magnitudes it is given, and bounds can be found by calculating with
the largest of these.
-/

namespace CounterStream

/-! ## Rounding -/

namespace Format

variable {F : Format} {p q : ℚ} {m n : Nat}

theorem IsNearest.mono (hm : F.IsNearest p m) (hn : F.IsNearest q n) (h : p ≤ q) : m ≤ n := by
  by_contra hlt
  have habove := (isNearest_iff.mp hm).2.1 n (by omega)
  have hbelow := (isNearest_iff.mp hn).2.2 m hm.1 (by omega)
  -- Both lie at the midpoint, where one of them would have to be rounded the other way.
  obtain rfl : p = q := by
    rcases habove with h' | ⟨h', -⟩ <;> rcases hbelow with h'' | ⟨h'', -⟩ <;> linarith
  exact hlt (hm.unique hn).le

theorem nearest_mono (hF : 0 < F.fractionBits) {a b c d : Nat} (hb : 0 < b) (hd : 0 < d)
    (h : a * d ≤ c * b) : F.nearest a b ≤ F.nearest c d := by
  refine (nearest_isNearest hF a b hb).mono (nearest_isNearest hF c d hd) ?_
  rw [div_le_div_iff₀ (by exact_mod_cast hb) (by exact_mod_cast hd)]
  exact_mod_cast h

theorem nearest_le_nearest (hF : 0 < F.fractionBits) {a c b : Nat} (hb : 0 < b) (h : a ≤ c) :
    F.nearest a b ≤ F.nearest c b := nearest_mono hF hb hb (Nat.mul_le_mul_right b h)

theorem nearest_mul_self (hF : 0 < F.fractionBits) {k : Nat} (hk : 0 < k) (hn : n ≤ F.infinity) :
    F.nearest (F.units n * k) k = n := by
  rw [nearest_eq_iff hF _ _ hk, Nat.cast_mul, mul_div_cancel_right₀ _ (by exact_mod_cast hk.ne')]
  exact isNearest_units hn

theorem nearest_units (hF : 0 < F.fractionBits) (hn : n ≤ F.infinity) :
    F.nearest (F.units n) 1 = n := by
  have hone := nearest_mul_self hF Nat.one_pos hn
  rwa [Nat.mul_one] at hone

end Format

/-! ## Whole roots -/

theorem wholeRoot_spec (n : Nat) :
    wholeRoot n * wholeRoot n ≤ n ∧ n < (wholeRoot n + 1) * (wholeRoot n + 1) := by
  fun_induction wholeRoot n with
  | case1 => decide
  | case2 n hn r hr ih =>
    obtain ⟨-, hhigh⟩ := ih
    refine ⟨hr, ?_⟩
    have hfour : n < 4 * (n / 4 + 1) := by omega
    have hsquare : 4 * (n / 4 + 1) ≤ (r + 1 + 1) * (r + 1 + 1) := by
      calc 4 * (n / 4 + 1) ≤ 4 * ((wholeRoot (n / 4) + 1) * (wholeRoot (n / 4) + 1)) := by omega
        _ = (r + 1 + 1) * (r + 1 + 1) := by simp only [r]; ring
    omega
  | case3 n hn r hr ih =>
    obtain ⟨hlow, -⟩ := ih
    refine ⟨?_, not_le.mp hr⟩
    calc r * r = 4 * (wholeRoot (n / 4) * wholeRoot (n / 4)) := by simp only [r]; ring
      _ ≤ 4 * (n / 4) := Nat.mul_le_mul_left 4 hlow
      _ ≤ n := Nat.mul_div_le n 4

theorem wholeRoot_mono {m n : Nat} (h : m ≤ n) : wholeRoot m ≤ wholeRoot n := by
  have hm := (wholeRoot_spec m).1
  have hn := (wholeRoot_spec n).2
  by_contra hlt
  have hsquare := Nat.mul_le_mul (not_le.mp hlt) (not_le.mp hlt)
  simp only [Nat.succ_eq_add_one] at hsquare
  omega

/-- Twice the root, and one more if anything is left. -/
def doubleRoot (n : Nat) : Nat :=
  2 * wholeRoot n + if wholeRoot n * wholeRoot n = n then 0 else 1

theorem doubleRoot_mono {m n : Nat} (h : m ≤ n) : doubleRoot m ≤ doubleRoot n := by
  have hm := (wholeRoot_spec m).1
  have hroots := wholeRoot_mono h
  unfold doubleRoot
  rcases hroots.lt_or_eq with hlt | heq
  · split_ifs <;> omega
  · rw [heq] at hm ⊢
    split_ifs <;> omega

/-! ## Operations -/

namespace Binary

variable {F G : Format}

theorem isFinite_of_le {x y : Binary F} (h : x.ordinal ≤ y.ordinal) (hy : y.isFinite) :
    x.isFinite := by
  rw [isFinite_iff] at *
  omega

theorem mul_le_mul (hF : 0 < F.fractionBits) {x y x' y' : Binary F} (hx : x.ordinal ≤ x'.ordinal)
    (hy : y.ordinal ≤ y'.ordinal) (hx' : x'.isFinite) (hy' : y'.isFinite) :
    (x * y).ordinal ≤ (x' * y').ordinal := by
  rw [mul_eq (isFinite_of_le hx hx') (isFinite_of_le hy hy'), mul_eq hx' hy']
  exact Format.nearest_le_nearest hF F.one_pos
    (Nat.mul_le_mul (F.units_strictMono.monotone hx) (F.units_strictMono.monotone hy))

theorem mul_ordinal_eq_zero (hF : 0 < F.fractionBits) {x y : Binary F} (hx : x.isFinite)
    (hy : y.isFinite) (h : x.ordinal = 0 ∨ y.ordinal = 0) : (x * y).ordinal = 0 := by
  have hproduct : F.units x.ordinal * F.units y.ordinal = F.units 0 * F.one := by
    rcases h with h | h <;> simp [h, F.units_zero]
  rw [mul_eq hx hy, hproduct]
  exact Format.nearest_mul_self hF F.one_pos (Nat.zero_le F.infinity)

theorem mul_nonneg (hF : 0 < F.fractionBits) {x y : Binary F} (hx : x.isFinite) (hy : y.isFinite)
    (hxsign : x.negative = true) (hysign : y.negative = true ∨ y.ordinal = 0) :
    (x * y).negative = false ∨ (x * y).ordinal = 0 := by
  rcases hysign with hsign | hzero
  · rw [mul_eq hx hy]
    exact Or.inl (by simp [ofUnits, hxsign, hsign])
  · exact Or.inr (mul_ordinal_eq_zero hF hx hy (Or.inr hzero))

theorem div_le_div (hF : 0 < F.fractionBits) {x x' y : Binary F} (h : x.ordinal ≤ x'.ordinal)
    (hx' : x'.isFinite) (hy : y.isFinite) (hpos : y.ordinal ≠ 0) :
    (x / y).ordinal ≤ (x' / y).ordinal := by
  rw [div_eq (isFinite_of_le h hx') hy hpos, div_eq hx' hy hpos]
  have hunits : 0 < F.units y.ordinal :=
    F.units_zero ▸ F.units_strictMono (Nat.pos_of_ne_zero hpos)
  exact Format.nearest_le_nearest hF hunits
    (Nat.mul_le_mul_right F.one (F.units_strictMono.monotone h))

/-! ### Roots -/

theorem sqrt_ordinal (hF : 0 < F.fractionBits) {x : Binary F} (hx : x.isFinite)
    (hsign : x.ordinal = 0 ∨ x.negative = false) :
    x.sqrt.ordinal = F.nearest (doubleRoot (4 * (F.units x.ordinal * F.one))) 4 := by
  by_cases hzero : x.ordinal = 0
  · have hroot : doubleRoot 0 = F.units 0 * 4 := by simp [doubleRoot, wholeRoot, F.units_zero]
    rw [hzero, F.units_zero, Nat.zero_mul, Nat.mul_zero, hroot,
      Format.nearest_mul_self hF (by decide) (Nat.zero_le _)]
    simp [sqrt, isNaN_eq_false, hx, hzero]
  · have hpositive := hsign.resolve_left hzero
    simp [sqrt, isNaN_eq_false, isInfinite_eq_false, hx, hzero, hpositive, ofUnits, doubleRoot]

theorem sqrt_le_sqrt (hF : 0 < F.fractionBits) {x y : Binary F} (h : x.ordinal ≤ y.ordinal)
    (hy : y.isFinite) (hxsign : x.ordinal = 0 ∨ x.negative = false)
    (hysign : y.ordinal = 0 ∨ y.negative = false) : x.sqrt.ordinal ≤ y.sqrt.ordinal := by
  rw [sqrt_ordinal hF (isFinite_of_le h hy) hxsign, sqrt_ordinal hF hy hysign]
  exact Format.nearest_le_nearest hF (by decide) (doubleRoot_mono
    (Nat.mul_le_mul_left 4 (Nat.mul_le_mul_right F.one (F.units_strictMono.monotone h))))

/-! ### Sums -/

section

variable {x y : Binary F} (hx : x.isFinite) (hy : y.isFinite)

include hx hy

theorem add_eq : x + y =
    ofUnits (if x.units + y.units = 0 then x.negative && y.negative else x.units + y.units < 0)
      (x.units + y.units).natAbs 1 := by
  show add x y = _
  simp [add, isNaN_eq_false, isInfinite_eq_false, hx, hy]

theorem add_ordinal : (x + y).ordinal = F.nearest (x.units + y.units).natAbs 1 := by
  rw [add_eq hx hy]
  rfl

end

theorem natAbs_units (x : Binary F) : x.units.natAbs = F.units x.ordinal := by
  rw [units]
  split_ifs <;> simp

theorem units_neg (x : Binary F) : x.neg.units = -x.units := by
  rw [units, units, neg]
  cases x.negative <;> simp

theorem add_le_add_or (hF : 0 < F.fractionBits) {x y bound : Binary F} (hx : x.isFinite)
    (hbound : bound.isFinite) (h : y.ordinal ≤ bound.ordinal) :
    (x + y).ordinal ≤ (x + bound).ordinal ∨ (x + y).ordinal ≤ (x + bound.neg).ordinal := by
  have hunits : y.units.natAbs ≤ bound.units.natAbs := by
    rw [natAbs_units, natAbs_units]
    exact F.units_strictMono.monotone h
  rw [add_ordinal hx (isFinite_of_le h hbound), add_ordinal hx hbound,
    add_ordinal hx (show bound.neg.isFinite from hbound), units_neg]
  have hsum : (x.units + y.units).natAbs ≤ (x.units + bound.units).natAbs ∨
      (x.units + y.units).natAbs ≤ (x.units + -bound.units).natAbs := by
    omega
  exact hsum.imp (Format.nearest_le_nearest hF Nat.one_pos)
    (Format.nearest_le_nearest hF Nat.one_pos)

/-! ### Signs -/

section

variable {x y : Binary F}

theorem neg_mul (hx : x.isFinite) (hy : y.isFinite) : x.neg * y = (x * y).neg := by
  rw [mul_eq hx hy, mul_eq (show x.neg.isFinite from hx) hy]
  refine eq_of_ordinal ?_ rfl
  show ((!x.negative) != y.negative) = !(x.negative != y.negative)
  cases x.negative <;> cases y.negative <;> rfl

theorem isFinite_of_add (hx : x.isFinite) (h : (x + y).isFinite) : y.isFinite := by
  have hnan : ¬ (nan : Binary F).isFinite := by simp [nan, isFinite_iff]
  have hadd : x + y = add x y := rfl
  rw [hadd, add, isNaN_eq_false x hx, isInfinite_eq_false x hx] at h
  by_cases hynan : y.isNaN
  · rw [hynan] at h
    exact absurd h hnan
  · by_cases hyinf : y.isInfinite
    · simpa [hynan, hyinf] using h
    · have hle : ¬ F.infinity < y.ordinal := fun hlt => hynan (decide_eq_true hlt)
      have hne : ¬ y.ordinal = F.infinity := fun heq => hyinf (beq_iff_eq.mpr heq)
      rw [isFinite_iff]
      omega

theorem units_lt_units_of_rank_lt (h : x.rank < y.rank) : x.units < y.units := by
  have hmono := F.units_strictMono
  have hzero := F.units_zero
  have hpos {n : Nat} (hn : 0 < n) : 0 < F.units n := hzero ▸ hmono hn
  unfold rank at h
  unfold units
  split_ifs at * with hx hy
  · have := hmono (show y.ordinal < x.ordinal by omega)
    omega
  · by_cases hy0 : 0 < y.ordinal
    · have := hpos hy0
      omega
    · have := hpos (show 0 < x.ordinal by omega)
      omega
  · omega
  · have := hmono (show x.ordinal < y.ordinal by omega)
    omega

theorem sub_of_rank_lt (hx : x.isFinite) (hy : y.isFinite) (h : x.rank < y.rank) :
    (y - x).negative = false := by
  have hunits := units_lt_units_of_rank_lt h
  have hsub : y - x = y + x.neg := rfl
  rw [hsub, add_eq hy (show x.neg.isFinite from hx), units_neg, if_neg (by omega)]
  exact decide_eq_false (by omega)

theorem rank_lt_of_not_le (hx : x.isFinite) (hy : y.isFinite) (h : y.le x = false) :
    x.rank < y.rank := by
  simpa [le, isNaN_eq_false, hx, hy] using h

theorem not_isNaN_ofUnits (negative : Bool) (num den : Nat) :
    ¬ (ofUnits negative num den : Binary F).isNaN := by
  rw [isNaN, decide_eq_true_eq, not_lt]
  exact F.nearest_le_infinity num den

theorem rank_zero : (zero false : Binary F).rank = 0 := rfl

theorem nonneg_iff (x : Binary F) :
    (zero false).le x ↔ ¬ x.isNaN ∧ (x.negative = false ∨ x.ordinal = 0) := by
  have hnan : (zero false : Binary F).isNaN = false := rfl
  have hrank : 0 ≤ x.rank ↔ x.negative = false ∨ x.ordinal = 0 := by
    rw [rank]
    cases x.negative <;> simp
  rw [le, rank_zero, hnan]
  simp [hrank]

theorem div_nonneg (hF : 0 < F.fractionBits) (hx : x.isFinite) (hy : y.isFinite)
    (hpos : y.ordinal ≠ 0) (hxsign : x.negative = false ∨ x.ordinal = 0)
    (hysign : y.negative = false) : (zero false).le (x / y) := by
  rw [nonneg_iff, div_eq hx hy hpos]
  refine ⟨not_isNaN_ofUnits _ _ _, hxsign.imp (fun hsign => ?_) fun hzero => ?_⟩
  · simp [ofUnits, hsign, hysign]
  · have hunits : 0 < F.units y.ordinal :=
      F.units_zero ▸ F.units_strictMono (Nat.pos_of_ne_zero hpos)
    have hnearest := Format.nearest_mul_self hF hunits (Nat.zero_le F.infinity)
    rw [F.units_zero, Nat.zero_mul] at hnearest
    rwa [hzero, F.units_zero, Nat.zero_mul]

end

end Binary

end CounterStream
