import Mathlib.Tactic.Ring
import Mathlib.Data.List.Basic
import CounterStream.Distribution.Basic
import CounterStream.Sampling.Fill
import CounterStream.Proofs.Transform

/-!
# A fill does not depend on its sharding

A fill from front to back writes sample `i` at place `i`. Every shard writes the same samples at the
places it covers, so the shards may come in any order, and together they cover the buffer.
-/

namespace CounterStream

variable {α : Type}

/-! ## From front to back -/

theorem slices_of_ne_nil (n : Nat) (hn : 0 < n) (l : List α) (h : l ≠ []) :
    slices n l = l.take n :: slices n (l.drop n) := by
  obtain ⟨x, xs, rfl⟩ := List.exists_cons_of_ne_nil h
  obtain ⟨m, rfl⟩ : ∃ m, n = m + 1 := ⟨n - 1, by omega⟩
  rw [slices, Nat.add_sub_cancel, List.take_succ_cons, List.drop_succ_cons]

namespace Sampler

theorem fillSequential_nil (s : Sampler α) (e : Engine) : s.fillSequential e [] = [] := by
  rw [fillSequential, slices, fillSlices]

theorem fillSequential_of_ne_nil (s : Sampler α) (e : Engine) (buffer : List α) (h : buffer ≠ []) :
    s.fillSequential e buffer =
      s.transform e.peek (buffer.take s.size) ++
        s.fillSequential (e.forward 1) (buffer.drop s.size) := by
  rw [fillSequential, slices_of_ne_nil s.size s.size_pos buffer h, fillSlices, Engine.next_eq]
  rfl

theorem fillSequential_eq (s : Sampler α) (e : Engine) (buffer : List α) :
    s.fillSequential e buffer = (List.range buffer.length).map (s.sampleAt e) := by
  induction hn : buffer.length using Nat.strong_induction_on generalizing e buffer with
  | _ n ih =>
    by_cases hnil : buffer = []
    · subst hnil
      rw [fillSequential_nil, ← hn]
      rfl
    · have hpos : 0 < buffer.length := List.length_pos_of_ne_nil hnil
      have hsize := s.size_pos
      have hrest := ih (buffer.length - s.size) (by omega) (e.forward 1) (buffer.drop s.size)
        List.length_drop
      rw [s.fillSequential_of_ne_nil e buffer hnil, hrest, s.transform_of_le _ _ (by simp)]
      apply List.ext_getElem?
      intro i
      simp only [List.getElem?_append, List.getElem?_map, List.length_take, finished_length, ← hn]
      split_ifs with hi
      · -- Place `i` is in the first group.
        rw [List.getElem?_take_of_lt (by omega), s.finished_peek_getElem? e i (by omega),
          List.getElem?_range (by omega), Option.map_some]
      · by_cases hlt : i < buffer.length
        · rw [List.getElem?_range hlt, List.getElem?_range (by omega)]
          simp only [Option.map_some, sampleAt_forward, Option.some_inj]
          congr 1
          omega
        · rw [List.getElem?_eq_none (by simp; omega), List.getElem?_eq_none (by simp; omega),
            Option.map_none, Option.map_none]

end Sampler

/-! ## Shards in any order -/

/-- Place `i` is one of those that the shard writes. -/
def Shard.Covers (shard : Shard) (i : Nat) : Prop :=
  shard.start ≤ i ∧ i < shard.start + shard.length

/-- The shard lies in a buffer of length `n`, and its engine gives the samples from `e` on that
belong to its places. -/
def Shard.Agrees (shard : Shard) (s : Sampler α) (e : Engine) (n : Nat) : Prop :=
  shard.start + shard.length ≤ n ∧
    ∀ j < shard.length, s.sampleAt shard.engine j = s.sampleAt e (shard.start + j)

namespace Sampler

theorem fillShard_length (s : Sampler α) (e : Engine) (buffer : List α) (shard : Shard)
    (h : shard.Agrees s e buffer.length) : (s.fillShard buffer shard).length = buffer.length := by
  have hin := h.1
  simp only [fillShard, fillSequential_eq, List.length_append, List.length_map, List.length_range,
    List.length_take, List.length_drop]
  omega

theorem fillShard_covered (s : Sampler α) (e : Engine) (buffer : List α) (shard : Shard)
    (h : shard.Agrees s e buffer.length) (i : Nat) (hi : shard.Covers i) :
    (s.fillShard buffer shard)[i]? = some (s.sampleAt e i) := by
  obtain ⟨hin, hsame⟩ := h
  obtain ⟨hlow, hhigh⟩ := hi
  have hrun : ((buffer.drop shard.start).take shard.length).length = shard.length := by
    rw [List.length_take, List.length_drop]
    omega
  have hfront : (buffer.take shard.start).length = shard.start := by
    rw [List.length_take]
    omega
  rw [fillShard, fillSequential_eq, hrun, List.getElem?_append_left (by simp; omega),
    List.getElem?_append_right (by omega), hfront, List.getElem?_map,
    List.getElem?_range (by omega), Option.map_some, hsame _ (by omega),
    Nat.add_sub_cancel' hlow]

theorem fillShard_not_covered (s : Sampler α) (e : Engine) (buffer : List α) (shard : Shard)
    (h : shard.Agrees s e buffer.length) (i : Nat) (hi : ¬ shard.Covers i) :
    (s.fillShard buffer shard)[i]? = buffer[i]? := by
  have hin := h.1
  have hfront : (buffer.take shard.start).length = shard.start := by
    rw [List.length_take]
    omega
  unfold Shard.Covers at hi
  rw [fillShard, fillSequential_eq]
  by_cases hlow : i < shard.start
  · rw [List.append_assoc, List.getElem?_append_left (by omega), List.getElem?_take_of_lt hlow]
  · have hmiddle : (buffer.take shard.start ++ (List.range ((buffer.drop shard.start).take
        shard.length).length).map (s.sampleAt shard.engine)).length =
        shard.start + shard.length := by
      simp
      omega
    rw [List.getElem?_append_right (by omega), hmiddle, List.getElem?_drop,
      Nat.add_sub_cancel' (by omega)]

theorem fillShards_cons (s : Sampler α) (shard : Shard) (rest : List Shard) (buffer : List α) :
    s.fillShards (shard :: rest) buffer = s.fillShards rest (s.fillShard buffer shard) := rfl

theorem fillShards_not_covered (s : Sampler α) (e : Engine) (shards : List Shard)
    (buffer : List α) (h : ∀ shard ∈ shards, shard.Agrees s e buffer.length) (i : Nat)
    (hi : ∀ shard ∈ shards, ¬ shard.Covers i) :
    (s.fillShards shards buffer)[i]? = buffer[i]? := by
  induction shards generalizing buffer with
  | nil => rfl
  | cons shard rest ih =>
    have hshard := h shard List.mem_cons_self
    rw [fillShards_cons, ih]
    · exact s.fillShard_not_covered e buffer shard hshard i (hi shard List.mem_cons_self)
    · intro r hr
      rw [s.fillShard_length e buffer shard hshard]
      exact h r (List.mem_cons_of_mem _ hr)
    · exact fun r hr => hi r (List.mem_cons_of_mem _ hr)

theorem fillShards_covered (s : Sampler α) (e : Engine) (shards : List Shard)
    (buffer : List α) (h : ∀ shard ∈ shards, shard.Agrees s e buffer.length) (i : Nat)
    (hi : ∃ shard ∈ shards, shard.Covers i) :
    (s.fillShards shards buffer)[i]? = some (s.sampleAt e i) := by
  induction shards generalizing buffer with
  | nil => simp at hi
  | cons shard rest ih =>
    have hshard := h shard List.mem_cons_self
    have hrest : ∀ r ∈ rest, r.Agrees s e (s.fillShard buffer shard).length := by
      intro r hr
      rw [s.fillShard_length e buffer shard hshard]
      exact h r (List.mem_cons_of_mem _ hr)
    rw [fillShards_cons]
    by_cases hlater : ∃ r ∈ rest, r.Covers i
    · exact ih _ hrest hlater
    · -- No later shard touches the place, so it keeps what this one wrote.
      have hhere : shard.Covers i := by
        obtain ⟨r, hr, hcov⟩ := hi
        rcases List.mem_cons.mp hr with rfl | hr
        · exact hcov
        · exact absurd ⟨r, hr, hcov⟩ hlater
      rw [s.fillShards_not_covered e rest _ hrest i (fun r hr hcov => hlater ⟨r, hr, hcov⟩)]
      exact s.fillShard_covered e buffer shard hshard i hhere

/-- Shards that agree with one stream and cover the buffer fill it with that stream, in whatever
order they come. -/
theorem fillShards_eq (s : Sampler α) (e : Engine) (shards : List Shard) (buffer : List α)
    (hagree : ∀ shard ∈ shards, shard.Agrees s e buffer.length)
    (hcover : ∀ i < buffer.length, ∃ shard ∈ shards, shard.Covers i) :
    s.fillShards shards buffer = (List.range buffer.length).map (s.sampleAt e) := by
  apply List.ext_getElem?
  intro i
  rw [List.getElem?_map]
  by_cases hi : i < buffer.length
  · rw [s.fillShards_covered e shards buffer hagree i (hcover i hi), List.getElem?_range hi,
      Option.map_some]
  · have hnone : ∀ shard ∈ shards, ¬ shard.Covers i := by
      rintro shard hmem ⟨-, hcov⟩
      have := (hagree shard hmem).1
      omega
    rw [s.fillShards_not_covered e shards buffer hagree i hnone, List.getElem?_eq_none (by omega),
      List.getElem?_eq_none (by simp; omega), Option.map_none]

end Sampler

/-! ## The shards of a plan -/

theorem lt_blocksFor_iff {size n i : Nat} (hsize : 0 < size) :
    i < blocksFor size n ↔ i * size < n := by
  rw [blocksFor, ← Nat.succ_le_iff, Nat.le_div_iff_mul_le hsize, Nat.succ_mul]
  omega

namespace Sharding

theorem shardLength_lt_of_applies {s : Sharding} {size n : Nat} (h : s.applies size n) :
    s.shardLength size < n := by
  simp only [applies, Bool.and_eq_true, decide_eq_true_eq] at h
  exact h.2

theorem shardLength_pos (s : Sharding) (size : Nat) (hsize : 0 < size) (h : s.blocks ≠ 0) :
    0 < s.shardLength size := by
  have hblocks : 0 < s.blocks.toNat := by
    rw [Nat.pos_iff_ne_zero]
    exact fun h0 => h (UInt64.toNat_inj.mp h0)
  have := Nat.mul_pos hblocks hsize
  simp only [shardLength, countLimit, UInt64.size]
  omega

theorem shardLength_of_lt (s : Sharding) (size n : Nat) (hn : n < 2 ^ 64)
    (h : s.shardLength size < n) : s.shardLength size = s.blocks.toNat * size := by
  simp only [shardLength, countLimit, UInt64.size] at h ⊢
  -- A length that met the limit would leave no longer buffer.
  omega

theorem mul_blocks_lt (s : Sharding) (size n : Nat) (hsize : 0 < size) (hn : n < 2 ^ 64)
    (h : s.shardLength size < n) {i : Nat} (hi : i * s.shardLength size < n) :
    i * s.blocks.toNat < n := by
  rw [s.shardLength_of_lt size n hn h, ← Nat.mul_assoc] at hi
  exact (Nat.le_mul_of_pos_right _ hsize).trans_lt hi

theorem mem_shards (s : Sharding) (size : Nat) (e : Engine) (n : Nat) (shard : Shard)
    (hpos : 0 < s.shardLength size) :
    shard ∈ s.shards size e n ↔ ∃ i, i * s.shardLength size < n ∧
      shard = ⟨i * s.shardLength size, min (s.shardLength size) (n - i * s.shardLength size),
        e.skip (UInt64.ofNat (i * s.blocks.toNat))⟩ := by
  have hcount (i : Nat) : i < (n + (s.shardLength size - 1)) / s.shardLength size ↔
      i * s.shardLength size < n := lt_blocksFor_iff hpos
  simp only [shards, List.mem_map, List.mem_range, hcount]
  constructor
  · rintro ⟨i, hi, rfl⟩
    exact ⟨i, hi, rfl⟩
  · rintro ⟨i, hi, rfl⟩
    exact ⟨i, hi, rfl⟩

theorem shards_agree (s : Sharding) (sampler : Sampler α) (e : Engine) (n : Nat) (hn : n < 2 ^ 64)
    (hblocks : s.blocks ≠ 0) (hlt : s.shardLength sampler.size < n) :
    ∀ shard ∈ s.shards sampler.size e n, shard.Agrees sampler e n := by
  have hlen := s.shardLength_of_lt sampler.size n hn hlt
  intro shard hmem
  rw [s.mem_shards _ _ _ _ (s.shardLength_pos _ sampler.size_pos hblocks)] at hmem
  obtain ⟨i, hi, rfl⟩ := hmem
  refine ⟨?_, ?_⟩
  · show i * s.shardLength sampler.size + min _ _ ≤ n
    omega
  · intro j _
    show sampler.sampleAt (e.skip _) j = sampler.sampleAt e (i * s.shardLength sampler.size + j)
    -- The shards before this one are whole groups, so its first block is known without a carry.
    have hskip : i * s.blocks.toNat < 2 ^ 64 :=
      (s.mul_blocks_lt _ n sampler.size_pos hn hlt hi).trans hn
    rw [Engine.skip_ofNat _ _ hskip, Sampler.sampleAt_forward, hlen, Nat.mul_assoc]

theorem shards_cover (s : Sharding) (size : Nat) (e : Engine) (n : Nat)
    (hpos : 0 < s.shardLength size) :
    ∀ j < n, ∃ shard ∈ s.shards size e n, shard.Covers j := by
  intro j hj
  have hdiv := Nat.div_add_mod' j (s.shardLength size)
  have hmod := Nat.mod_lt j hpos
  refine ⟨_, (s.mem_shards size e n _ hpos).mpr ⟨j / s.shardLength size, by omega, rfl⟩, ?_, ?_⟩
  · show j / s.shardLength size * s.shardLength size ≤ j
    omega
  · show j < j / s.shardLength size * s.shardLength size + min _ _
    omega

end Sharding

/-! ## Whole fills -/

theorem blocksFor_le (size n : Nat) (hsize : 0 < size) : blocksFor size n ≤ n := by
  rw [blocksFor, ← Nat.lt_succ_iff, Nat.div_lt_iff_lt_mul hsize, Nat.succ_mul]
  have := Nat.le_mul_of_pos_right n hsize
  omega

namespace Sampler

theorem fillShards_plan (s : Sampler α) (sharding : Sharding) (e : Engine) (buffer : List α)
    (hblocks : sharding.blocks ≠ 0) (hlen : buffer.length < 2 ^ 64)
    (happlies : sharding.applies s.size buffer.length) (order : List Shard)
    (horder : order.Perm (sharding.shards s.size e buffer.length)) :
    s.fillShards order buffer = (List.range buffer.length).map (s.sampleAt e) := by
  have hlt := Sharding.shardLength_lt_of_applies happlies
  apply s.fillShards_eq e order buffer
  · intro shard hmem
    exact sharding.shards_agree s e _ hlen hblocks hlt shard (horder.mem_iff.mp hmem)
  · intro i hi
    obtain ⟨shard, hmem, hcov⟩ := sharding.shards_cover s.size e _
      (sharding.shardLength_pos _ s.size_pos hblocks) i hi
    exact ⟨shard, horder.mem_iff.mpr hmem, hcov⟩

theorem fill_eq (s : Sampler α) (sharding : Sharding) (e : Engine) (buffer : List α)
    (hblocks : sharding.blocks ≠ 0) (hlen : buffer.length < 2 ^ 64) :
    s.fill sharding e buffer =
      ((List.range buffer.length).map (s.sampleAt e),
        e.forward (blocksFor s.size buffer.length)) := by
  have hcount := blocksFor_le s.size buffer.length s.size_pos
  rw [fill, Engine.skip_ofNat _ _ (by omega)]
  split_ifs with happlies
  · rw [s.fillShards_plan sharding e buffer hblocks hlen happlies _ (List.Perm.refl _)]
  · rw [fillSequential_eq]

theorem fillWith_eq (s : Sampler α) (sharding : Sharding) (e : Engine) (buffer : List α)
    (hblocks : sharding.blocks ≠ 0) (hlen : buffer.length < 2 ^ 64) :
    s.fillWith sharding e buffer =
      .ok ((List.range buffer.length).map (s.sampleAt e),
        e.forward (blocksFor s.size buffer.length)) := by
  rw [fillWith, Sharding.check, if_neg hblocks, s.fill_eq sharding e buffer hblocks hlen]
  rfl

end Sampler

namespace Distribution

/-- A fill gives, at place `i`, the sample `i % groupSize` of the group of the block `i / groupSize`
further along, and the engine past all its blocks. The sharding, the order in which shards are
filled, and what the buffer and the group's slice held before make no difference. -/
theorem fill_gives_samples (d : Distribution) (sharding : Sharding) (e : Engine)
    (buffer : List d.sampleType.Value) (hblocks : sharding.blocks ≠ 0)
    (hlen : buffer.length < 2 ^ 64) :
    ∃ filled final,
      d.sampler.fillWith sharding e buffer = .ok (filled, final) ∧
      d.sampler.fillWith Sharding.sequential e buffer = .ok (filled, final) ∧
      d.sampler.fill {} e buffer = (filled, final) ∧
      (∀ order : List Shard, order.Perm (sharding.shards d.groupSize e buffer.length) →
        sharding.applies d.groupSize buffer.length → d.sampler.fillShards order buffer = filled) ∧
      filled.length = buffer.length ∧
      (∀ i < buffer.length, ∀ slice : List d.sampleType.Value, slice.length = d.groupSize →
        filled[i]? = (d.sampler.transform
          (e.key.block (Counter.ofNat (e.position + i / d.groupSize))) slice)[i % d.groupSize]?) ∧
      final.position = (e.position + (buffer.length + (d.groupSize - 1)) / d.groupSize) % 2 ^ 128 ∧
      final.key = e.key := by
  refine ⟨(List.range buffer.length).map (d.sampler.sampleAt e),
    e.forward (blocksFor d.sampler.size buffer.length), ?_, ?_, ?_, ?_, ?_, ?_, ?_, ?_⟩
  · exact d.sampler.fillWith_eq sharding e buffer hblocks hlen
  · exact d.sampler.fillWith_eq Sharding.sequential e buffer (by decide) hlen
  · exact d.sampler.fill_eq {} e buffer (by decide) hlen
  · intro order horder happlies
    exact d.sampler.fillShards_plan sharding e buffer hblocks hlen happlies order horder
  · rw [List.length_map, List.length_range]
  · intro i hi slice hslice
    rw [List.getElem?_map, List.getElem?_range hi, Option.map_some,
      d.sampler.transform_of_eq _ slice hslice, ← Engine.peek_forward]
    exact (d.sampler.finished_getElem? e i).symm
  · rw [Engine.forward_position]
    rfl
  · rfl

theorem fill_gives_samples_past_the_end :
    (1 : UInt64) ≠ 0 ∧ (List.replicate 9 (0 : Int64)).length < 2 ^ 64 ∧
    ∃ filled final,
      (uniformInteger 0 4294967296).sampler.fillWith ⟨0, 1⟩
        ⟨Counter.ofNat (2 ^ 128 - 1), Key.zero⟩ (List.replicate 9 (0 : Int64)) =
          .ok (filled, final) ∧
      filled.length = 9 ∧ final.position = 2 := by
  obtain ⟨filled, final, hfill, -, -, -, hlength, -, hposition, -⟩ :=
    fill_gives_samples (uniformInteger 0 4294967296) ⟨0, 1⟩
      ⟨Counter.ofNat (2 ^ 128 - 1), Key.zero⟩ (List.replicate 9 (0 : Int64))
      (by decide) (by decide)
  refine ⟨by decide, by decide, filled, final, hfill, hlength, ?_⟩
  rw [hposition]
  decide

end Distribution

end CounterStream
