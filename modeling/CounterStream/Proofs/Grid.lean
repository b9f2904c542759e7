import CounterStream.Proofs.Exactness
import CounterStream.Proofs.Modulus

/-!
# Even grids on the unit interval

A uniform number is one of equally spaced fractions from zero up to one. Which one it is depends on
some bits of its word only, the lowest or the highest ones, and every fraction is given by as many
words as the other bits can differ.
-/

namespace CounterStream

/-! ## Counting words -/

namespace Word

theorem bijOn_toNat_half : Set.BijOn UInt16.toNat Set.univ (Set.Iio (2 ^ 16)) :=
  ⟨fun n _ => n.toNat_lt, fun _ _ _ _ h => UInt16.toNat_inj.mp h,
    fun n hn => ⟨UInt16.ofNat n, trivial, UInt16.toNat_ofNat_of_lt' hn⟩⟩

theorem bijOn_toNat_double : Set.BijOn UInt64.toNat Set.univ (Set.Iio (2 ^ 64)) :=
  ⟨fun d _ => d.toNat_lt, fun _ _ _ _ h => UInt64.toNat_inj.mp h,
    fun n hn => ⟨UInt64.ofNat n, trivial, UInt64.toNat_ofNat_of_lt' hn⟩⟩

/-- The number of two words, the first one above the second. -/
def pairNumber (p : UInt32 × UInt32) : Nat := p.1.toNat * 2 ^ 32 + p.2.toNat

theorem bijOn_pairNumber : Set.BijOn pairNumber Set.univ (Set.Iio (2 ^ 64)) := by
  refine ⟨?_, ?_, ?_⟩
  · rintro ⟨high, low⟩ -
    have hhigh := high.toNat_lt
    have hlow := low.toNat_lt
    simp only [pairNumber, Set.mem_Iio]
    omega
  · rintro ⟨a, b⟩ - ⟨c, d⟩ - h
    have hb := b.toNat_lt
    have hd := d.toNat_lt
    simp only [pairNumber] at h
    rw [Prod.mk.injEq, ← UInt32.toNat_inj, ← UInt32.toNat_inj]
    omega
  · intro n hn
    rw [Set.mem_Iio] at hn
    refine ⟨(UInt32.ofNat (n / 2 ^ 32), UInt32.ofNat (n % 2 ^ 32)), trivial, ?_⟩
    rw [pairNumber, UInt32.toNat_ofNat_of_lt' (show n / 2 ^ 32 < 2 ^ 32 by omega),
      UInt32.toNat_ofNat_of_lt' (show n % 2 ^ 32 < 2 ^ 32 by omega)]
    omega

end Word

section

variable {α : Type} {number : α → Nat} {points share k : Nat}

theorem ncard_mod (h : Set.BijOn number Set.univ (Set.Iio (points * share))) (hk : k < points) :
    {a | number a % points = k}.ncard = share := by
  have hpos : 0 < points := by omega
  have hresidue (i : Nat) : i % points = k ↔ i ≡ k [MOD points] := by
    rw [Nat.ModEq, Nat.mod_eq_of_lt hk]
  simp only [hresidue]
  rw [ncard_of_bijOn h (fun i => i ≡ k [MOD points]), Nat.count_modEq_card _ hpos,
    Nat.mul_div_cancel_left _ hpos, Nat.mul_mod_right, if_neg (Nat.not_lt_zero _), Nat.add_zero]

theorem ncard_div (h : Set.BijOn number Set.univ (Set.Iio (points * share))) (hshare : 0 < share)
    (hk : k < points) : {a | number a / share = k}.ncard = share := by
  have hrun : (Finset.range (points * share)).filter (fun i => i / share = k) =
      Finset.Ico (k * share) (k * share + share) := by
    have hlast : (k + 1) * share ≤ points * share := Nat.mul_le_mul_right share hk
    rw [Nat.succ_mul] at hlast
    ext i
    rw [Finset.mem_filter, Finset.mem_range, Finset.mem_Ico, Nat.div_eq_iff hshare]
    omega
  rw [ncard_of_bijOn h (fun i => i / share = k), Nat.count_eq_card_filter_range, hrun,
    Nat.card_Ico, Nat.add_sub_cancel_left]

end

/-! ## Grids -/

/-- The function gives the fraction `index / points` of what it is given, without rounding, so it
never reaches one. Two equal fractions have one index, and every fraction is given `share` times. -/
structure EvenGrid {α : Type} {F : Format} (f : α → Binary F) (index : α → Nat)
    (points share : Nat) : Prop where
  exact (a : α) : (f a).isFinite ∧ (f a).negative = false ∧ (f a).toRat = index a / points
  inUnit (a : α) : (Binary.zero false).le (f a) ∧ (f a).lt (Binary.ofNat 1)
  index_eq (a b : α) : (f a).eq (f b) → index a = index b
  value_eq (a b : α) : index a = index b → f a = f b
  ncard (k : Nat) : k < points → {a | (f a).toRat = k / points}.ncard = share

theorem evenGrid_of_isFraction {α : Type} {F : Format} {f : α → Binary F} {index : α → Nat}
    {points share : Nat} (hF : F.HasOne) (hf : ∀ a, (f a).IsFraction (index a) points)
    (hlt : ∀ a, index a < points)
    (hcount : ∀ k < points, {a | index a = k}.ncard = share) :
    EvenGrid f index points share where
  exact a := ⟨(hf a).isFinite, (hf a).nonneg, (hf a).toRat (Nat.zero_lt_of_lt (hlt a))⟩
  inUnit a := ⟨(hf a).nonneg_le, (hf a).lt_one hF (hlt a)⟩
  index_eq a b := ((hf a).eq_iff (Nat.zero_lt_of_lt (hlt a)) (hf b)).mp
  value_eq a b h := (hf a).unique (Nat.zero_lt_of_lt (hlt a)) (h ▸ hf b)
  ncard k hk := by
    have hpoints : (points : ℚ) ≠ 0 := Nat.cast_ne_zero.mpr (Nat.zero_lt_of_lt hk).ne'
    rw [← hcount k hk]
    congr 1
    ext a
    simp only [Set.mem_ofPred_eq]
    rw [(hf a).toRat (Nat.zero_lt_of_lt hk), div_left_inj' hpoints, Nat.cast_inj]

namespace Uniform

theorem single_evenGrid : EvenGrid single (fun w => w.toNat % 2 ^ 23) (2 ^ 23) (2 ^ 9) :=
  evenGrid_of_isFraction Format.single_hasOne single_isFraction
    (fun _ => Nat.mod_lt _ (by decide)) fun _ => ncard_mod Word.bijOn_toNat

theorem half_evenGrid : EvenGrid half (fun n => n.toNat % 2 ^ 10) (2 ^ 10) (2 ^ 6) :=
  evenGrid_of_isFraction Format.half_hasOne half_isFraction
    (fun _ => Nat.mod_lt _ (by decide)) fun _ => ncard_mod Word.bijOn_toNat_half

theorem double_evenGrid :
    EvenGrid (fun p : UInt32 × UInt32 => double p.1 p.2)
      (fun p => p.1.toNat % 2 ^ 20 * 2 ^ 32 + p.2.toNat) (2 ^ 52) (2 ^ 12) := by
  have hindex (p : UInt32 × UInt32) :
      p.1.toNat % 2 ^ 20 * 2 ^ 32 + p.2.toNat = Word.pairNumber p % 2 ^ 52 := by
    have hlow := p.2.toNat_lt
    unfold Word.pairNumber
    omega
  refine evenGrid_of_isFraction Format.double_hasOne (fun p => double_isFraction p.1 p.2) ?_ ?_
  · intro p
    rw [hindex]
    exact Nat.mod_lt _ (by decide)
  · intro k hk
    simp only [hindex]
    exact ncard_mod Word.bijOn_pairNumber hk

end Uniform

namespace WordStream

theorem upperSingle_evenGrid :
    EvenGrid upperSingle (fun w => w.toNat / 2 ^ 8) (2 ^ 24) (2 ^ 8) := by
  refine evenGrid_of_isFraction Format.single_hasOne upperSingle_isFraction (fun w => ?_)
    fun _ => ncard_div Word.bijOn_toNat (by decide)
  have hword := w.toNat_lt
  omega

theorem upperDouble_evenGrid :
    EvenGrid upperDouble (fun d => d.toNat / 2 ^ 11) (2 ^ 53) (2 ^ 11) := by
  refine evenGrid_of_isFraction Format.double_hasOne upperDouble_isFraction (fun d => ?_)
    fun _ => ncard_div Word.bijOn_toNat_double (by decide)
  have hword := d.toNat_lt
  omega

end WordStream

/-- Words give uniform numbers without rounding: by their low bits as samples, by their high bits
from a word stream, which hands out one word or two for each. -/
theorem uniform_numbers_are_even_grids :
    EvenGrid Uniform.single (fun w => w.toNat % 2 ^ 23) (2 ^ 23) (2 ^ 9) ∧
    EvenGrid (fun p : UInt32 × UInt32 => Uniform.double p.1 p.2)
      (fun p => p.1.toNat % 2 ^ 20 * 2 ^ 32 + p.2.toNat) (2 ^ 52) (2 ^ 12) ∧
    EvenGrid Uniform.half (fun n => n.toNat % 2 ^ 10) (2 ^ 10) (2 ^ 6) ∧
    EvenGrid WordStream.upperSingle (fun w => w.toNat / 2 ^ 8) (2 ^ 24) (2 ^ 8) ∧
    EvenGrid WordStream.upperDouble (fun d => d.toNat / 2 ^ 11) (2 ^ 53) (2 ^ 11) ∧
    ∀ s : WordStream,
      s.single = (WordStream.upperSingle s.next.1, s.next.2) ∧
      s.single.1.toRat = (s.next.1.toNat / 2 ^ 8 : Nat) / 2 ^ 24 ∧
      s.double = (WordStream.upperDouble s.nextDouble.1, s.nextDouble.2) ∧
      s.double.1.toRat = (s.nextDouble.1.toNat / 2 ^ 11 : Nat) / 2 ^ 53 := by
  refine ⟨Uniform.single_evenGrid, Uniform.double_evenGrid, Uniform.half_evenGrid,
    WordStream.upperSingle_evenGrid, WordStream.upperDouble_evenGrid, ?_⟩
  intro s
  obtain ⟨-, -, hsingle⟩ := WordStream.upperSingle_evenGrid.exact s.next.1
  obtain ⟨-, -, hdouble⟩ := WordStream.upperDouble_evenGrid.exact s.nextDouble.1
  rw [s.single_eq, s.double_eq]
  refine ⟨rfl, ?_, rfl, ?_⟩
  · rw [hsingle]
    norm_num
  · rw [hdouble]
    norm_num

end CounterStream
