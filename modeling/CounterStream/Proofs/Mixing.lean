import Mathlib.Data.List.Nodup
import Mathlib.Tactic.Ring
import CounterStream.Proofs.Engine

/-!
# Mixing can be undone

One round keeps two words of a block multiplied by odd constants, and those products tell the two
wide products whole. So a round is undone word by word, ten rounds are undone in reverse order, and
the blocks of one key are its counters in another order.
-/

namespace CounterStream

namespace Word

theorem wideMul_snd (a b : UInt32) : (wideMul a b).2 = a * b := by
  rw [wideMul, UInt64.toUInt32_mul, UInt32.toUInt32_toUInt64, UInt32.toUInt32_toUInt64]

theorem mul_mul_cancel (a b w : UInt32) (h : a * b = 1) : a * (b * w) = w := by
  rw [← UInt32.mul_assoc, h, UInt32.one_mul]

theorem fold_fold_cancel (a b w : UInt32) : a ^^^ (a ^^^ w ^^^ b) ^^^ b = w := by
  rw [UInt32.xor_assoc a w b, ← UInt32.xor_assoc a a, UInt32.xor_self, UInt32.zero_xor,
    UInt32.xor_assoc, UInt32.xor_self, UInt32.xor_zero]

end Word

namespace Block

/-! ## One round -/

/-- The block that a round mixes to `b`. The two constants are the inverses modulo 2^32 of the
multipliers of `mix`. -/
def unmix (b : Block) (k : Key) : Block :=
  let w0 := 0x991A7CDB * b.w3
  let w2 := 0x6D7CAE67 * b.w1
  let (high0, _) := Word.wideMul 0xD2511F53 w0
  let (high1, _) := Word.wideMul 0xCD9E8D57 w2
  ⟨w0, high1 ^^^ b.w0 ^^^ k.low, w2, high0 ^^^ b.w2 ^^^ k.high⟩

theorem unmix_mix (b : Block) (k : Key) : (b.mix k).unmix k = b := by
  have h0 : 0x991A7CDB * (0xD2511F53 * b.w0) = b.w0 := Word.mul_mul_cancel _ _ _ (by decide)
  have h2 : 0x6D7CAE67 * (0xCD9E8D57 * b.w2) = b.w2 := Word.mul_mul_cancel _ _ _ (by decide)
  simp only [mix, unmix, Word.wideMul_snd, h0, h2, Word.fold_fold_cancel]

theorem mix_unmix (b : Block) (k : Key) : (b.unmix k).mix k = b := by
  have h3 : 0xD2511F53 * (0x991A7CDB * b.w3) = b.w3 := Word.mul_mul_cancel _ _ _ (by decide)
  have h1 : 0xCD9E8D57 * (0x6D7CAE67 * b.w1) = b.w1 := Word.mul_mul_cancel _ _ _ (by decide)
  simp only [mix, unmix, Word.wideMul_snd, h3, h1, Word.fold_fold_cancel]

/-! ## Several rounds -/

/-- The last round, under the key raised most, is undone first. -/
def unmixRounds : Nat → Key → Block → Block
  | 0, _, b => b
  | n + 1, k, b => (unmixRounds n k.raise b).unmix k

theorem unmixRounds_mixRounds (n : Nat) (k : Key) (b : Block) :
    unmixRounds n k (mixRounds n k b) = b := by
  induction n generalizing k b with
  | zero => rfl
  | succ n ih => rw [mixRounds, unmixRounds, ih, unmix_mix]

theorem mixRounds_unmixRounds (n : Nat) (k : Key) (b : Block) :
    mixRounds n k (unmixRounds n k b) = b := by
  induction n generalizing k b with
  | zero => rfl
  | succ n ih => rw [unmixRounds, mixRounds, mix_unmix, ih]

end Block

namespace Key

/-- The counter whose block is `b`. -/
def counterOf (k : Key) (b : Block) : Counter := Block.unmixRounds 10 k b

theorem counterOf_block (k : Key) : Function.LeftInverse k.counterOf k.block :=
  Block.unmixRounds_mixRounds 10 k

theorem block_counterOf (k : Key) : Function.RightInverse k.counterOf k.block :=
  Block.mixRounds_unmixRounds 10 k

theorem block_inj (k : Key) (c d : Counter) : k.block c = k.block d ↔ c = d :=
  k.counterOf_block.injective.eq_iff

end Key

/-! ## A whole period of a stream -/

namespace Engine

theorem peek_forward_inj (e : Engine) (i j : Nat) (hi : i < 2 ^ 128) (hj : j < 2 ^ 128) :
    (e.forward i).peek = (e.forward j).peek ↔ i = j := by
  rw [peek_forward, peek_forward, Key.block_inj, Counter.ofNat_eq_iff, Counter.toNat_ofNat]
  omega

theorem take_nodup (e : Engine) (n : Nat) (hn : n ≤ 2 ^ 128) : (e.take n).1.Nodup := by
  rw [take_eq]
  apply List.Nodup.map_on _ List.nodup_range
  intro i hi j hj h
  rw [List.mem_range] at hi hj
  exact (e.peek_forward_inj i j (by omega) (by omega)).mp h

theorem mem_take_period (e : Engine) (n : Nat) (hn : n = 2 ^ 128) (b : Block) :
    b ∈ (e.take n).1 := by
  have hc := (e.key.counterOf b).toNat_lt
  have he := e.position_lt
  -- How far ahead of the engine the counter of `b` is.
  let ahead := ((e.key.counterOf b).toNat + 2 ^ 128 - e.position) % 2 ^ 128
  have hahead : Counter.ofNat (e.position + ahead) = e.key.counterOf b := by
    rw [Counter.ofNat_eq_iff]
    omega
  rw [take_eq, List.mem_map]
  refine ⟨ahead, ?_, ?_⟩
  · rw [List.mem_range]
    omega
  · rw [peek_forward, hahead, e.key.block_counterOf b]

end Engine

/-- Under one key, the mixing of counters to blocks is one-to-one and onto, with an inverse that is
computed from the block and the key alone. So a stream gives each of the 2^128 blocks exactly once
in any 2^128 blocks on end, and engines of one key give the same next block only at one position. -/
theorem Key.block_bijective (k : Key) :
    Function.LeftInverse k.counterOf k.block ∧
    Function.RightInverse k.counterOf k.block ∧
    Function.Bijective k.block ∧
    (∀ (c : Counter) (b : Block), ((Engine.mk c k).take (2 ^ 128)).1.count b = 1) ∧
    ∀ c d : Counter, (Engine.mk c k).next.1 = (Engine.mk d k).next.1 ↔
      (Engine.mk c k).position = (Engine.mk d k).position := by
  refine ⟨k.counterOf_block, k.block_counterOf, ?_, ?_, ?_⟩
  · exact ⟨k.counterOf_block.injective, k.block_counterOf.surjective⟩
  · intro c b
    exact List.count_eq_one_of_mem (Engine.take_nodup _ _ le_rfl)
      (Engine.mem_take_period _ _ rfl b)
  · intro c d
    exact (k.block_inj c d).trans Block.toNat_injective.eq_iff.symm

end CounterStream
