import Mathlib.Data.Int.CardIntervalMod
import Mathlib.Data.Set.Card
import CounterStream.Proofs.Frame

/-!
# Integers by a modulus

A word is reduced modulo the size of a range and added to its start, which never leaves 64 bits. The
words are spread over the range as evenly as their number allows: where they do not come out even,
the first integers of the range have one word more than the others.
-/

namespace CounterStream

theorem ncard_of_bijOn {α : Type} {number : α → Nat} {n : Nat}
    (h : Set.BijOn number Set.univ (Set.Iio n)) (p : Nat → Prop) [DecidablePred p] :
    {a | p (number a)}.ncard = Nat.count p n := by
  have hinj : Function.Injective number := Set.injOn_univ.mp h.injOn
  have himage : number '' {a | p (number a)} = ((Finset.range n).filter p : Set Nat) := by
    ext i
    simp only [Set.mem_image, Set.mem_ofPred_eq, Finset.coe_filter, Finset.mem_range]
    constructor
    · rintro ⟨a, ha, rfl⟩
      exact ⟨h.mapsTo (Set.mem_univ a), ha⟩
    · rintro ⟨hi, hp⟩
      obtain ⟨a, -, rfl⟩ := h.surjOn hi
      exact ⟨a, hp, rfl⟩
  rw [← Set.ncard_image_of_injective _ hinj, himage, Set.ncard_coe_finset,
    Nat.count_eq_card_filter_range]

theorem Word.bijOn_toNat : Set.BijOn UInt32.toNat Set.univ (Set.Iio (2 ^ 32)) :=
  ⟨fun w _ => w.toNat_lt, fun _ _ _ _ h => UInt32.toNat_inj.mp h,
    fun n hn => ⟨UInt32.ofNat n, trivial, UInt32.toNat_ofNat_of_lt' hn⟩⟩

namespace Distribution

variable {low high : Int64}

theorem check_uniformInteger_iff :
    (uniformInteger low high).check = .ok () ↔
      1 ≤ high.toInt - low.toInt ∧ high.toInt - low.toInt ≤ 2 ^ 32 := by
  have hsize : (UInt32.size : Int) = 2 ^ 32 := rfl
  simp only [check, hsize]
  split_ifs with h
  · exact iff_of_true rfl h
  · exact iff_of_false (by simp) h

section

variable (h : (uniformInteger low high).check = .ok ()) (w : UInt32)

include h

theorem mod_range_lt :
    (w.toNat % (high.toInt - low.toInt).toNat : Int) < high.toInt - low.toInt := by
  obtain ⟨hpos, -⟩ := check_uniformInteger_iff.mp h
  have hmod := Nat.mod_lt w.toNat (show 0 < (high.toInt - low.toInt).toNat by omega)
  omega

theorem toInt_inIntegers : (inIntegers low high w).toInt =
    low.toInt + (w.toNat % (high.toInt - low.toInt).toNat : Nat) := by
  have hlt := mod_range_lt h w
  obtain ⟨-, hsize⟩ := check_uniformInteger_iff.mp h
  have hlow := low.le_toInt
  have hhigh := high.toInt_lt
  rw [inIntegers, Int64.toInt_add, Int64.toInt_ofNat_of_lt (by omega)]
  exact Int.bmod_eq_of_le (by omega) (by omega)

theorem inIntegers_mem : low ≤ inIntegers low high w ∧ inIntegers low high w < high := by
  have hlt := mod_range_lt h w
  rw [Int64.le_iff_toInt_le, Int64.lt_iff_toInt_lt, toInt_inIntegers h w]
  omega

theorem inIntegers_eq_iff {v : Int64} (hlow : low ≤ v) (hhigh : v < high) :
    inIntegers low high w = v ↔
      w.toNat ≡ (v.toInt - low.toInt).toNat [MOD (high.toInt - low.toInt).toNat] := by
  rw [Int64.le_iff_toInt_le] at hlow
  rw [Int64.lt_iff_toInt_lt] at hhigh
  rw [← Int64.toInt_inj, toInt_inIntegers h w, Nat.ModEq,
    Nat.mod_eq_of_lt (show (v.toInt - low.toInt).toNat < (high.toInt - low.toInt).toNat by omega)]
  omega

end

theorem ncard_inIntegers (h : (uniformInteger low high).check = .ok ()) {v : Int64} (hlow : low ≤ v)
    (hhigh : v < high) :
    {w | inIntegers low high w = v}.ncard = 2 ^ 32 / (high.toInt - low.toInt).toNat +
      if v.toInt - low.toInt < (2 ^ 32 % (high.toInt - low.toInt).toNat : Nat) then 1 else 0 := by
  obtain ⟨hpos, -⟩ := check_uniformInteger_iff.mp h
  have hlow' := Int64.le_iff_toInt_le.mp hlow
  have hhigh' := Int64.lt_iff_toInt_lt.mp hhigh
  simp only [inIntegers_eq_iff h _ hlow hhigh]
  rw [ncard_of_bijOn Word.bijOn_toNat (fun n => n ≡ _ [MOD _]), Nat.count_modEq_card _ (by omega),
    Nat.mod_eq_of_lt (show (v.toInt - low.toInt).toNat < (high.toInt - low.toInt).toNat by omega)]
  exact congrArg _ (if_congr (by omega) rfl rfl)

theorem exists_inIntegers_eq (h : (uniformInteger low high).check = .ok ()) {v : Int64}
    (hlow : low ≤ v) (hhigh : v < high) : ∃ w, inIntegers low high w = v := by
  obtain ⟨hpos, hsize⟩ := check_uniformInteger_iff.mp h
  have hdiv : 0 < 2 ^ 32 / (high.toInt - low.toInt).toNat := Nat.div_pos (by omega) (by omega)
  have hcount : 0 < {w | inIntegers low high w = v}.ncard := by
    rw [ncard_inIntegers h hlow hhigh]
    exact Nat.add_pos_left hdiv _
  exact Set.nonempty_of_ncard_ne_zero hcount.ne'

/-! ## All integers of a range -/

/-- The accepted ranges hold between one and `2 ^ 32` integers. A sample is the start of its range
and what is left of its word by the size of the range, added in 64 bits without overflow. Each
integer of the range is given by as many words as the size goes into `2 ^ 32`, and the first ones by
one word more, as many of them as are left over. -/
theorem integers_even_as_modulus_allows (low high : Int64) :
    ((uniformInteger low high).check = .ok () ↔
      1 ≤ high.toInt - low.toInt ∧ high.toInt - low.toInt ≤ 2 ^ 32) ∧
    ((uniformInteger low high).check = .ok () → ∀ r : Nat, (r : Int) = high.toInt - low.toInt →
      (∀ (b : Block) (slice : List Int64), ∀ i < 4, i < slice.length →
        ((uniformInteger low high).sampler.transform b slice)[i]? =
          some (inIntegers low high (b.word i))) ∧
      (∀ w : UInt32,
        (Int64.ofNat (w.toNat % r)).toInt = (w.toNat % r : Nat) ∧
        Int64.minValue.toInt ≤ low.toInt + (w.toNat % r : Nat) ∧
        low.toInt + (w.toNat % r : Nat) ≤ Int64.maxValue.toInt ∧
        (inIntegers low high w).toInt = low.toInt + (w.toNat % r : Nat) ∧
        low ≤ inIntegers low high w ∧ inIntegers low high w < high) ∧
      ∀ v : Int64, low ≤ v → v < high →
        {w | inIntegers low high w = v}.ncard =
          2 ^ 32 / r + (if v.toInt - low.toInt < (2 ^ 32 % r : Nat) then 1 else 0) ∧
        ∃ w, inIntegers low high w = v) := by
  refine ⟨check_uniformInteger_iff, ?_⟩
  intro hcheck r hr
  obtain rfl : r = (high.toInt - low.toInt).toNat := by omega
  refine ⟨?_, ?_, ?_⟩
  · intro b slice i hi hslice
    exact (uniformInteger low high).transform_getElem? b slice i hi hslice
  · intro w
    have hlt := mod_range_lt hcheck w
    obtain ⟨-, hsize⟩ := check_uniformInteger_iff.mp hcheck
    have hlow : Int64.minValue.toInt ≤ low.toInt := low.le_toInt
    have hhigh : high.toInt ≤ Int64.maxValue.toInt := high.toInt_le
    exact ⟨Int64.toInt_ofNat_of_lt (by omega), by omega, by omega, toInt_inIntegers hcheck w,
      inIntegers_mem hcheck w⟩
  · intro v hlow hhigh
    exact ⟨ncard_inIntegers hcheck hlow hhigh, exists_inIntegers_eq hcheck hlow hhigh⟩

theorem integers_even_as_modulus_allows_at_top :
    let low : Int64 := 9223372036854775801
    let high : Int64 := Int64.maxValue
    (uniformInteger low high).check = .ok () ∧
    {w | inIntegers low high w = low}.ncard = 715827883 ∧
    {w | inIntegers low high w = high - 1}.ncard = 715827882 ∧
    (inIntegers low high 0xFFFFFFFF).toInt = 9223372036854775804 := by
  intro low high
  have hcheck : (uniformInteger low high).check = .ok () := by decide
  obtain ⟨-, hsample, hcount⟩ := (integers_even_as_modulus_allows low high).2 hcheck 6 (by decide)
  obtain ⟨-, -, -, hlast, -⟩ := hsample 0xFFFFFFFF
  exact ⟨hcheck, (hcount low (by decide) (by decide)).1.trans (by decide),
    (hcount (high - 1) (by decide) (by decide)).1.trans (by decide), hlast.trans (by decide)⟩

end Distribution

end CounterStream
