import CounterStream.Proofs.Monotone

/-!
# Sums and neighbours in order

The rank of a number is its place in the order of its format. A rounded sum has the rank of the
number nearest to the exact sum, so it grows with both terms, and what is not negative takes no
number down. The number below another stands one rank lower, so nothing lies between the two.
-/

namespace CounterStream

/-- The rank of the number nearest to `n` units. -/
def Format.nearestRank (F : Format) (n : Int) : Int :=
  if n < 0 then -(F.nearest n.natAbs 1 : Int) else F.nearest n.natAbs 1

theorem Format.nearestRank_mono {F : Format} (hF : 0 < F.fractionBits) {m n : Int} (h : m ≤ n) :
    F.nearestRank m ≤ F.nearestRank n := by
  have hle {a b : Nat} (hab : a ≤ b) : F.nearest a 1 ≤ F.nearest b 1 :=
    nearest_le_nearest hF Nat.one_pos hab
  unfold nearestRank
  split_ifs with hm hn
  · have := hle (show n.natAbs ≤ m.natAbs by omega)
    omega
  · omega
  · omega
  · have := hle (show m.natAbs ≤ n.natAbs by omega)
    omega

namespace Binary

variable {F : Format} {x y : Binary F}

/-! ## Ranks -/

theorem le_iff_rank (hx : x.isFinite) (hy : y.isFinite) : x.le y ↔ x.rank ≤ y.rank := by
  simp [le, isNaN_eq_false, hx, hy]

theorem lt_iff_rank (hx : x.isFinite) (hy : y.isFinite) : x.lt y ↔ x.rank < y.rank := by
  simp [lt, isNaN_eq_false, hx, hy]

theorem eq_iff_rank (hx : x.isFinite) (hy : y.isFinite) : x.eq y ↔ x.rank = y.rank := by
  simp [eq, isNaN_eq_false, hx, hy]

theorem sign_of_not_le_zero (hx : x.isFinite) (hpos : 0 < F.infinity)
    (h : x.le (zero false) = false) : x.negative = false ∧ x.ordinal ≠ 0 := by
  have hrank := rank_lt_of_not_le ((isFinite_iff _).mpr hpos) hx h
  rw [rank_zero, rank] at hrank
  split_ifs at hrank with hsign
  · omega
  · exact ⟨Bool.eq_false_of_not_eq_true hsign, by omega⟩

theorem rank_of_nonneg (h : x.negative = false) : x.rank = x.ordinal := by
  rw [rank, h, if_neg (by decide)]

theorem units_nonneg (h : x.negative = false) : 0 ≤ x.units := by
  simp [units, h]

theorem isFinite_of_between {z : Binary F} (hx : x.isFinite) (hz : z.isFinite)
    (hxy : x.rank ≤ y.rank) (hyz : y.rank ≤ z.rank) : y.isFinite := by
  rw [isFinite_iff] at *
  unfold rank at hxy hyz
  split_ifs at hxy hyz <;> omega

theorem rank_min (hx : ¬ x.isNaN) (hy : ¬ y.isNaN) : (x.min y).rank = Min.min x.rank y.rank := by
  rw [min, if_neg hx, if_neg hy]
  split_ifs with h
  · exact (min_eq_left h.le).symm
  · exact (min_eq_right (not_lt.mp h)).symm

theorem rank_below (hx : x.isFinite) : x.below.rank = x.rank - 1 := by
  have hpos := F.binade_pos
  have hordinals := F.infinity_add_binade
  rw [isFinite_iff] at hx
  unfold below
  split_ifs with hzero hone hnegative hroom
  · simp [rank, hzero]
  · omega
  · simp only [rank, hnegative, if_true]
    omega
  · omega
  · simp only [rank, hnegative, if_false, Bool.false_eq_true]
    omega

/-! ## Sums -/

theorem nearestRank_units (hF : 0 < F.fractionBits) (hx : x.isFinite) :
    F.nearestRank x.units = x.rank := by
  have hself := Format.nearest_units hF ((isFinite_iff x).mp hx).le
  have hzero : F.units x.ordinal = 0 → x.ordinal = 0 := fun h => by
    rwa [← F.units_zero, F.units_strictMono.injective.eq_iff] at h
  unfold Format.nearestRank
  rw [natAbs_units, hself, units, rank]
  split_ifs <;> omega

section

variable (hx : x.isFinite) (hy : y.isFinite)

include hx hy

theorem rank_add (hF : 0 < F.fractionBits) : (x + y).rank = F.nearestRank (x.units + y.units) := by
  have hzero := Format.nearest_units hF (Nat.zero_le F.infinity)
  rw [F.units_zero] at hzero
  rw [add_eq hx hy, rank, Format.nearestRank, ofUnits]
  -- A sum of zero may have either sign, but it has one rank.
  by_cases hsum : x.units + y.units = 0
  · simp [hsum, hzero]
  · simp [hsum]

theorem add_not_isNaN : ¬ (x + y).isNaN := by
  rw [add_eq hx hy]
  exact not_isNaN_ofUnits _ _ _

theorem rank_le_rank_add (hF : 0 < F.fractionBits) (h : 0 ≤ y.units) : x.rank ≤ (x + y).rank := by
  rw [rank_add hx hy hF, ← nearestRank_units hF hx]
  exact Format.nearestRank_mono hF (by omega)

theorem rank_add_of_zero (hF : 0 < F.fractionBits) (h : y.units = 0) : (x + y).rank = x.rank := by
  rw [rank_add hx hy hF, h, Int.add_zero, nearestRank_units hF hx]

end

theorem rank_add_le_rank_add (hF : 0 < F.fractionBits) {x' y' : Binary F} (hx : x.isFinite)
    (hy : y.isFinite) (hx' : x'.isFinite) (hy' : y'.isFinite) (hxx' : x.units ≤ x'.units)
    (hyy' : y.units ≤ y'.units) : (x + y).rank ≤ (x' + y').rank := by
  rw [rank_add hx hy hF, rank_add hx' hy' hF]
  exact Format.nearestRank_mono hF (Int.add_le_add hxx' hyy')

end Binary

end CounterStream
