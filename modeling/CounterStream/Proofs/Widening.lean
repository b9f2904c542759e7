import Mathlib.Tactic.FieldSimp
import CounterStream.Binary.Arithmetic
import CounterStream.Proofs.Decimal

/-!
# Numbers in a wider format

Every finite number of a narrow format is also one of a wide format, so it is converted exactly and
comes back bit for bit.
-/

namespace CounterStream

namespace Format

/-- `G` has all the bits of the finite numbers of `F`, also of the smallest and the largest. -/
structure Widens (F G : Format) : Prop where
  fraction : F.fractionBits ≤ G.fractionBits
  places : F.places + G.fractionBits ≤ G.places
  infinity : F.units F.infinity * G.one ≤ G.units G.infinity * F.one

theorem single_widens_double : single.Widens double := ⟨by decide, by decide, by decide +kernel⟩

variable {F G : Format}

theorem exists_units_eq (r s : Nat) (hr : r < 2 * G.binade) (hs : G.fractionBits ≤ s) :
    ∃ n, G.units n = r * 2 ^ s := by
  by_cases h0 : r = 0
  · exact ⟨0, by rw [h0, units_zero, Nat.zero_mul]⟩
  · -- The leading bit is moved up to the top of a binade.
    have hlog : r.log2 ≤ G.fractionBits := by
      rw [binade_eq, ← pow_succ'] at hr
      exact Nat.le_of_lt_succ ((Nat.log2_lt h0).mpr hr)
    have hlow : 2 ^ r.log2 ≤ r := Nat.log2_self_le h0
    have hhigh : r < 2 ^ (r.log2 + 1) := Nat.lt_log2_self
    obtain ⟨t, ht⟩ := Nat.exists_eq_add_of_le hlog
    refine ⟨(s - t) * G.binade + r * 2 ^ t, ?_⟩
    rw [G.units_steps (s - t) (r * 2 ^ t), Nat.mul_assoc, ← pow_add]
    · congr 2
      omega
    · left
      calc G.binade = 2 ^ r.log2 * 2 ^ t := by rw [binade_eq, ht, pow_add]
        _ ≤ r * 2 ^ t := Nat.mul_le_mul_right _ hlow
    · calc r * 2 ^ t ≤ 2 ^ (r.log2 + 1) * 2 ^ t := Nat.mul_le_mul_right _ hhigh.le
        _ = 2 * G.binade := by rw [binade_eq, ht]; ring

theorem Widens.exists_units (h : F.Widens G) (k : Nat) (hk : k < F.infinity) :
    ∃ n < G.infinity, G.units n * F.one = F.units k * G.one := by
  obtain ⟨d, hd⟩ := Nat.exists_eq_add_of_le h.places
  obtain ⟨s, r, hlow, hhigh, rfl⟩ := F.exists_steps k
  have hbinade : F.binade ≤ G.binade := by
    rw [binade_eq, binade_eq]
    exact Nat.pow_le_pow_right (by decide) h.fraction
  obtain ⟨n, hn⟩ := G.exists_units_eq r (s + G.fractionBits + d) (by omega) (by omega)
  have hone : G.one = 2 ^ (G.fractionBits + d) * F.one := by
    rw [one, one, Nat.one_shiftLeft, Nat.one_shiftLeft, hd]
    ring
  have hunits : G.units n * F.one = F.units (s * F.binade + r) * G.one := by
    rw [hn, F.units_steps s r hlow hhigh.le, hone]
    ring
  refine ⟨n, ?_, hunits⟩
  rw [← G.units_strictMono.lt_iff_lt]
  apply Nat.lt_of_mul_lt_mul_right (a := F.one)
  calc G.units n * F.one = F.units (s * F.binade + r) * G.one := hunits
    _ < F.units F.infinity * G.one :=
      Nat.mul_lt_mul_of_pos_right (F.units_strictMono hk) G.one_pos
    _ ≤ G.units G.infinity * F.one := h.infinity

end Format

namespace Binary

variable {F G : Format}

theorem convert_of_isFinite (x : Binary F) (hx : x.isFinite) :
    (x.convert : Binary G) = ofUnits x.negative (F.units x.ordinal * G.one) F.one := by
  rw [isFinite_iff] at hx
  rw [convert, if_neg, if_neg]
  · simpa [isInfinite] using hx.ne
  · simpa [isNaN] using hx.le

theorem convert_exact (hF : 0 < G.fractionBits) (h : F.Widens G) (x : Binary F)
    (hx : x.isFinite) :
    (x.convert : Binary G).isFinite ∧ (x.convert : Binary G).negative = x.negative ∧
      G.units (x.convert : Binary G).ordinal * F.one = F.units x.ordinal * G.one := by
  obtain ⟨n, hlt, hn⟩ := h.exists_units x.ordinal ((isFinite_iff x).mp hx)
  have hordinal : (x.convert : Binary G).ordinal = n := by
    rw [convert_of_isFinite x hx]
    show G.nearest _ _ = n
    rw [Format.nearest_eq_iff hF _ _ F.one_pos, ← hn]
    have hcast : ((G.units n * F.one : Nat) : ℚ) / F.one = G.units n := by
      have := F.one_pos
      push_cast
      field_simp
    rw [hcast]
    exact Format.isNearest_units hlt.le
  rw [isFinite_iff, hordinal]
  exact ⟨hlt, by rw [convert_of_isFinite x hx]; rfl, hn⟩

theorem convert_convert (hF : 0 < F.fractionBits) (hG : 0 < G.fractionBits) (h : F.Widens G)
    (x : Binary F) (hx : x.isFinite) : ((x.convert : Binary G).convert : Binary F) = x := by
  obtain ⟨hfinite, hnegative, hunits⟩ := convert_exact hG h x hx
  have hordinal : F.nearest (G.units (x.convert : Binary G).ordinal * F.one) G.one = x.ordinal := by
    rw [Format.nearest_eq_iff hF _ _ G.one_pos, hunits]
    have hcast : ((F.units x.ordinal * G.one : Nat) : ℚ) / G.one = F.units x.ordinal := by
      have := G.one_pos
      push_cast
      field_simp
    rw [hcast]
    exact Format.isNearest_units ((isFinite_iff x).mp hx).le
  rw [convert_of_isFinite _ hfinite]
  cases x
  simp only [ofUnits, mk.injEq]
  exact ⟨hnegative, hordinal⟩

end Binary

end CounterStream
