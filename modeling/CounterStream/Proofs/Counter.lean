import Mathlib.Tactic.Ring
import CounterStream.Engine
import CounterStream.Proofs.Word

/-!
# Counters are numbers below 2^128

`Block.toNat` and `Counter.ofNat` are inverse to each other up to 2^128, and the two carry chains
`Counter.succ` and `Counter.add` are one addition each.
-/

namespace CounterStream

namespace Block

theorem toNat_lt (b : Block) : b.toNat < 2 ^ 128 := by
  have := b.w0.toNat_lt
  have := b.w1.toNat_lt
  have := b.w2.toNat_lt
  have := b.w3.toNat_lt
  simp only [toNat, UInt32.size]
  omega

theorem toNat_injective : Function.Injective toNat := by
  rintro ⟨a0, a1, a2, a3⟩ ⟨b0, b1, b2, b3⟩ h
  have := a0.toNat_lt
  have := a1.toNat_lt
  have := a2.toNat_lt
  have := b0.toNat_lt
  have := b1.toNat_lt
  have := b2.toNat_lt
  simp only [toNat, UInt32.size] at h
  simp only [mk.injEq, ← UInt32.toNat_inj]
  omega

end Block

namespace Counter

theorem toNat_ofNat (n : Nat) : (ofNat n).toNat = n % 2 ^ 128 := by
  simp only [ofNat, Block.toNat, UInt32.toNat_ofNat', UInt32.size, Nat.shiftRight_eq_div_pow]
  omega

theorem ofNat_toNat (c : Counter) : ofNat c.toNat = c := by
  apply Block.toNat_injective
  rw [toNat_ofNat, Nat.mod_eq_of_lt c.toNat_lt]

theorem ofNat_eq_iff (n : Nat) (c : Counter) : ofNat n = c ↔ n % 2 ^ 128 = c.toNat := by
  rw [← Block.toNat_injective.eq_iff, toNat_ofNat]

/-! ## Carries -/

theorem toNat_succ (c : Counter) : (succ c).toNat = (c.toNat + 1) % 2 ^ 128 := by
  have := c.w0.toNat_lt
  have := c.w1.toNat_lt
  have := c.w2.toNat_lt
  have := c.w3.toNat_lt
  simp only [succ, ne_eq, Word.succ_eq_zero, ite_not]
  -- One case for each word at which the ripple can stop.
  split_ifs <;> simp only [Block.toNat, UInt32.size, Word.toNat_succ] <;> omega

example : succ ⟨0xFFFFFFFF, 0xFFFFFFFF, 0xFFFFFFFF, 0⟩ = ⟨0, 0, 0, 1⟩ := by decide

theorem toNat_add (c : Counter) (n : UInt64) :
    (add c n).toNat = (c.toNat + n.toNat) % 2 ^ 128 := by
  have hn := Word.low_add_high n
  have h0 := Word.addCarry_sum c.w0 (Word.low n) false
  have h1 := Word.addCarry_sum c.w1 (Word.high n) (Word.addCarry c.w0 (Word.low n) false).2
  have h2 := Word.addCarry_sum c.w2 0
    (Word.addCarry c.w1 (Word.high n) (Word.addCarry c.w0 (Word.low n) false).2).2
  have h3 := Word.addCarry_sum c.w3 0 (Word.addCarry c.w2 0
    (Word.addCarry c.w1 (Word.high n) (Word.addCarry c.w0 (Word.low n) false).2).2).2
  have hlt := (add c n).toNat_lt
  simp only [Bool.toNat_false, UInt32.toNat_zero] at h0 h1 h2 h3
  simp only [add, Block.toNat, UInt32.size] at hlt ⊢
  -- The four sums, each weighted by its word's place, add up to one sum of 128 bits.
  omega

theorem succ_eq (c : Counter) : succ c = ofNat (c.toNat + 1) := by
  apply Block.toNat_injective
  rw [toNat_succ, toNat_ofNat]

theorem add_eq (c : Counter) (n : UInt64) : add c n = ofNat (c.toNat + n.toNat) := by
  apply Block.toNat_injective
  rw [toNat_add, toNat_ofNat]

end Counter

end CounterStream
