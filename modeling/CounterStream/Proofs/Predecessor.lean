import CounterStream.Proofs.Numerals
import CounterStream.Proofs.Order

/-!
# The number just below another

Numbers compare by their ranks, and a larger rank is a larger value. Every rank down to that of the
lowest finite number belongs to a number, so the number one rank below another is its predecessor:
what is less than the one is at most the other.
-/

namespace CounterStream.Binary

variable {F : Format} {x y : Binary F}

/-! ## Values in order -/

theorem units_eq_of_rank_eq (h : x.rank = y.rank) : x.units = y.units := by
  have hordinal : x.ordinal = y.ordinal := by
    unfold rank at h
    split_ifs at h <;> omega
  unfold rank at h
  unfold units
  rw [hordinal] at h ⊢
  -- Numbers of one rank and different signs are the two zeros.
  split_ifs at h ⊢ with hx hy hy
  · rfl
  · obtain hzero : y.ordinal = 0 := by omega
    simp [hzero, F.units_zero]
  · obtain hzero : y.ordinal = 0 := by omega
    simp [hzero, F.units_zero]
  · rfl

theorem units_lt_units_iff : x.units < y.units ↔ x.rank < y.rank := by
  constructor
  · intro h
    rcases lt_trichotomy x.rank y.rank with hlt | heq | hgt
    · exact hlt
    · exact absurd (units_eq_of_rank_eq heq) h.ne
    · exact absurd (units_lt_units_of_rank_lt hgt) h.not_gt
  · exact units_lt_units_of_rank_lt

theorem toRat_eq (x : Binary F) : x.toRat = x.units / F.one := by
  unfold toRat magnitude units
  split_ifs <;> push_cast <;> ring

theorem toRat_lt_toRat_iff : x.toRat < y.toRat ↔ x.rank < y.rank := by
  have hone : (0 : ℚ) < F.one := Nat.cast_pos.mpr F.one_pos
  rw [toRat_eq, toRat_eq, div_lt_div_iff_of_pos_right hone, Int.cast_lt, units_lt_units_iff]

/-! ## Bits -/

theorem ofBits_bits (x : Binary F) : ofBits F x.bits = x := by
  have hlt := x.ordinal_lt
  apply eq_of_ordinal
  · show (x.bits / F.ordinals % 2 == 1) = x.negative
    cases hsign : x.negative
    · simp [bits, hsign, Nat.div_eq_of_lt hlt]
    · simp [bits, hsign, Nat.add_div_left _ (Nat.zero_lt_of_lt hlt), Nat.div_eq_of_lt hlt]
  · show x.bits % F.ordinals = x.ordinal
    unfold bits
    split_ifs
    · rw [Nat.add_mod_left, Nat.mod_eq_of_lt hlt]
    · rw [Nat.zero_add, Nat.mod_eq_of_lt hlt]

/-! ## The lowest number -/

/-- The finite number furthest below zero. -/
def lowest (F : Format) : Binary F where
  negative := true
  ordinal := F.infinity - 1
  ordinal_lt := Nat.lt_of_le_of_lt (Nat.sub_le _ _) F.infinity_lt_ordinals

example : lowest Format.single = ofBits Format.single 0xFF7FFFFF := by decide

theorem eq_lowest_iff (hF : 1 < F.infinity) : x = lowest F ↔ x.rank = 1 - F.infinity := by
  constructor
  · rintro rfl
    simp only [rank, lowest, if_true]
    omega
  · intro h
    unfold rank at h
    split_ifs at h with hsign
    · exact eq_of_ordinal hsign (show x.ordinal = F.infinity - 1 by omega)
    · omega

/-! ## The predecessor -/

section

variable (hx : x.isFinite)

include hx

theorem below_not_isNaN : ¬ x.below.isNaN := by
  have hrank := rank_below hx
  rw [isFinite_iff] at hx
  rw [isNaN, decide_eq_true_eq, not_lt]
  unfold rank at hrank
  split_ifs at hrank <;> omega

theorem below_isFinite_iff (hF : 1 < F.infinity) : x.below.isFinite ↔ x ≠ lowest F := by
  have hrank := rank_below hx
  rw [ne_eq, eq_lowest_iff hF]
  rw [isFinite_iff] at hx ⊢
  unfold rank at *
  split_ifs at * <;> omega

theorem lt_iff_le_below (y : Binary F) : y.lt x ↔ y.le x.below := by
  have hrank := rank_below hx
  have hnumber := below_not_isNaN hx
  simp only [lt, le, isNaN_eq_false x hx, hnumber, hrank, Int.le_sub_one_iff]

theorem below_eq_ofBits (hF : 1 < F.infinity) :
    x.below = if x.eq (zero false) then (ofBits F 1).neg
      else if (zero false).lt x then ofBits F (x.bits - 1) else ofBits F (x.bits + 1) := by
  have hordinals := F.infinity_lt_ordinals
  have hzero : (zero false : Binary F).isFinite := (isFinite_iff _).mpr (Nat.zero_lt_of_lt hF)
  have heq : x.eq (zero false) ↔ x.ordinal = 0 := by
    rw [eq_iff_rank hx hzero, rank_zero, rank]
    split_ifs <;> omega
  have hlt : (zero false).lt x ↔ x.negative = false ∧ x.ordinal ≠ 0 := by
    rw [lt_iff_rank hzero hx, rank_zero, rank]
    split_ifs with hsign <;> simp [hsign]
    omega
  rw [isFinite_iff] at hx
  have hroom : x.ordinal + 1 < F.ordinals := by omega
  rw [if_congr heq rfl (if_congr hlt rfl rfl)]
  by_cases hordinal : x.ordinal = 0
  · have hone : ofBits F 1 = ⟨false, 1, by omega⟩ := by
      simpa [bits] using ofBits_bits (⟨false, 1, by omega⟩ : Binary F)
    rw [if_pos hordinal, hone, below, if_pos hordinal, dif_pos (by omega)]
    rfl
  · rw [if_neg hordinal]
    cases hsign : x.negative
    · have hpred : x.bits - 1 = bits (F := F) ⟨false, x.ordinal - 1, by omega⟩ := by
        simp [bits, hsign]
      rw [if_pos ⟨rfl, hordinal⟩, hpred, ofBits_bits, below, if_neg hordinal,
        if_neg (by simp [hsign])]
    · have hsucc : x.bits + 1 = bits (F := F) ⟨true, x.ordinal + 1, hroom⟩ := by
        simp [bits, hsign, Nat.add_assoc]
      rw [if_neg (by simp), hsucc, ofBits_bits, below, if_neg hordinal, if_pos hsign, dif_pos hroom]

end

/-! ## Nothing in between -/

/-- The bits next to those of a finite number, the lowest one apart, are those of a finite number
below it. No number is strictly between the two, neither in the order of the format nor by value. So
the number below the end of an interval is in the interval, and nothing in it is larger. -/
theorem below_is_predecessor (x : Single) (hx : x.isFinite) :
    (x.below = if x.eq (zero false) then (ofBits Format.single 1).neg
      else if (zero false).lt x then ofBits Format.single (x.bits - 1)
      else ofBits Format.single (x.bits + 1)) ∧
    (x.below.isFinite ↔ x ≠ lowest Format.single) ∧
    (x ≠ lowest Format.single →
      x.below.lt x ∧ x.below.toRat < x.toRat ∧
      (∀ y : Single, ¬ (x.below.lt y ∧ y.lt x)) ∧
      ∀ y : Single, y.isFinite → ¬ (x.below.toRat < y.toRat ∧ y.toRat < x.toRat)) ∧
    ∀ low : Single, low.isFinite → low.lt x → low.le x.below ∧ x.below.lt x := by
  have hinfinity : 1 < Format.single.infinity := by decide
  have hrank := rank_below hx
  have hself : x.below.lt x := by
    rw [lt_iff_le_below hx]
    simp [le, below_not_isNaN hx]
  refine ⟨below_eq_ofBits hx hinfinity, below_isFinite_iff hx hinfinity,
    fun _ => ⟨hself, ?_, ?_, ?_⟩, ?_⟩
  · rw [toRat_lt_toRat_iff]
    omega
  · rintro y ⟨hbelow, habove⟩
    rw [lt_iff_le_below hx] at habove
    simp only [lt, le, Bool.and_eq_true, decide_eq_true_eq] at hbelow habove
    omega
  · rintro y - ⟨hbelow, habove⟩
    rw [toRat_lt_toRat_iff] at hbelow habove
    omega
  · intro low _ hlow
    exact ⟨(lt_iff_le_below hx low).mp hlow, hself⟩

theorem below_is_predecessor_at_edges :
    let z : Single := zero true
    let foot : Single := ofBits Format.single 0x00800000
    z.isFinite ∧ z ≠ lowest Format.single ∧ z.below.isFinite ∧ z.below.lt z ∧
      (∀ y : Single, ¬ (z.below.lt y ∧ y.lt z)) ∧
    foot.isFinite ∧ foot ≠ lowest Format.single ∧ foot.below = ofBits Format.single 0x007FFFFF ∧
      foot.below.toRat < foot.toRat ∧
      (∀ y : Single, y.isFinite → ¬ (foot.below.toRat < y.toRat ∧ y.toRat < foot.toRat)) ∧
    z.lt foot ∧ z.le foot.below := by
  intro z foot
  have hz : z.isFinite := by decide
  have hzlowest : z ≠ lowest Format.single := by decide
  have hfoot : foot.isFinite := by decide
  have hfootLowest : foot ≠ lowest Format.single := by decide
  have hlt : z.lt foot := by decide
  obtain ⟨-, hzfinite, hzbetween, -⟩ := below_is_predecessor z hz
  obtain ⟨hbits, -, hbetween, hinterval⟩ := below_is_predecessor foot hfoot
  exact ⟨hz, hzlowest, hzfinite.mpr hzlowest, (hzbetween hzlowest).1, (hzbetween hzlowest).2.2.1,
    hfoot, hfootLowest, hbits, (hbetween hfootLowest).2.1, (hbetween hfootLowest).2.2.2,
    hlt, (hinterval z hz hlt).1⟩

end CounterStream.Binary
