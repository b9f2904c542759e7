import CounterStream.Proofs.Draw
import CounterStream.Proofs.Modulus
import CounterStream.Proofs.Name
import CounterStream.Proofs.Substreams
import CounterStream.Proofs.WordStream

/-!
# Counts stay within 64 bits

The program counts without bounds here, while a machine counts in 64 bits. Each operation that a
machine could refuse is written once more so that it is refused: a sum, a product or a difference
that leaves its type, a slice of no length, a place past the end. What the program does is what
these operations give, so none of them is ever refused.
-/

namespace CounterStream

variable {α : Type}

/-! ## Counts -/

/-- A count, unless it passes the limit. -/
def count? (n : Nat) : Option Nat := if n ≤ countLimit then some n else none

theorem count?_of_le {n : Nat} (h : n ≤ countLimit) : count? n = some n := if_pos h

theorem count?_of_lt {n : Nat} (h : n < 2 ^ 64) : count? n = some n :=
  count?_of_le (Nat.le_of_lt_succ h)

theorem count?_of_not_le {n : Nat} (h : ¬ n ≤ countLimit) : count? n = none := if_neg h

/-- The slices of one length that hold `length` elements: the quotient, and one more for a
remainder. -/
def blocksFor? (size length : Nat) : Option Nat :=
  if size = 0 then none
  else if length % size = 0 then some (length / size)
  else count? (length / size + 1)

theorem blocksFor_eq_quotient {size : Nat} (hsize : 0 < size) (length : Nat) :
    blocksFor size length = length / size + if length % size = 0 then 0 else 1 := by
  have hdiv := Nat.div_add_mod' length size
  have hmod := Nat.mod_lt length hsize
  rw [blocksFor]
  split_ifs with h
  · apply Nat.div_eq_of_lt_le <;> simp only [Nat.add_zero, Nat.succ_mul] <;> omega
  · apply Nat.div_eq_of_lt_le <;> simp only [Nat.succ_mul] <;> omega

theorem blocksFor?_eq {size length : Nat} (hsize : 0 < size) (hlength : length ≤ countLimit) :
    blocksFor? size length = some (blocksFor size length) := by
  have hle := blocksFor_le size length hsize
  rw [blocksFor?, if_neg hsize.ne']
  rw [blocksFor_eq_quotient hsize] at hle ⊢
  split_ifs at hle ⊢ with h
  · rfl
  · exact count?_of_le (hle.trans hlength)

theorem mapM_of_forall {β : Type} {f : α → Option β} {g : α → β} {l : List α}
    (h : ∀ x ∈ l, f x = some (g x)) : l.mapM f = some (l.map g) := by
  induction l with
  | nil => rfl
  | cons x rest ih =>
    rw [List.mapM_cons, h x List.mem_cons_self, ih fun y hy => h y (List.mem_cons_of_mem _ hy)]
    rfl

/-! ## Shards -/

/-- The slices of length `n`, unless they have no length. -/
def slices? (n : Nat) (l : List α) : Option (List (List α)) :=
  if n = 0 then none else some (slices n l)

namespace Sharding

/-- The shards of a buffer, unless they have no length or a first block passes the limit. -/
def shards? (s : Sharding) (size : Nat) (e : Engine) (length : Nat) : Option (List Shard) := do
  let shard := s.shardLength size
  let count ← blocksFor? shard length
  (List.range count).mapM fun i => do
    let skipped ← count? (i * s.blocks.toNat)
    return ⟨i * shard, min shard (length - i * shard), e.skip (UInt64.ofNat skipped)⟩

variable {s : Sharding} {size n : Nat}

/-- A length that is cut off at the limit is that of no shard, since no buffer is longer. So the
first block of every shard can be counted. -/
theorem shards?_eq (hsize : 0 < size) (hblocks : s.blocks ≠ 0) (hn : n ≤ countLimit)
    (h : s.shardLength size < n) (e : Engine) : s.shards? size e n = some (s.shards size e n) := by
  have hpos := s.shardLength_pos size hsize hblocks
  rw [shards?, blocksFor?_eq hpos hn]
  apply mapM_of_forall
  intro i hi
  have hin : i * s.shardLength size < n := by
    rw [← lt_blocksFor_iff hpos]
    exact List.mem_range.mp hi
  have hskip := s.mul_blocks_lt size n hsize (Nat.lt_succ_of_le hn) h hin
  rw [count?_of_le (by omega)]
  rfl

theorem shards_getElem? (hpos : 0 < s.shardLength size) {e : Engine} {i : Nat} {shard : Shard}
    (h : (s.shards size e n)[i]? = some shard) :
    i * s.shardLength size < n ∧ shard.start = i * s.shardLength size ∧
      shard.length = min (s.shardLength size) (n - i * s.shardLength size) := by
  rw [shards, List.getElem?_map, Option.map_eq_some_iff] at h
  obtain ⟨j, hj, rfl⟩ := h
  obtain ⟨hlength, rfl⟩ := List.getElem?_eq_some_iff.mp hj
  rw [List.length_range] at hlength
  rw [List.getElem_range]
  exact ⟨(lt_blocksFor_iff hpos).mp hlength, rfl, rfl⟩

theorem shards_whole_groups (hsize : 0 < size) (hblocks : s.blocks ≠ 0) (hn : n ≤ countLimit)
    (h : s.shardLength size < n) {e : Engine} {i : Nat} {shard : Shard}
    (hshard : (s.shards size e n)[i]? = some shard) :
    i * s.blocks.toNat ≤ countLimit ∧ size ∣ shard.start ∧
      i * s.blocks.toNat = shard.start / size ∧ 1 ≤ shard.length ∧
      shard.start + shard.length ≤ n := by
  have hn' := Nat.lt_succ_of_le hn
  have hpos := s.shardLength_pos size hsize hblocks
  obtain ⟨hin, hstart, hlength⟩ := shards_getElem? hpos hshard
  have hskip := s.mul_blocks_lt size n hsize hn' h hin
  have hgroups : shard.start = i * s.blocks.toNat * size := by
    rw [hstart, s.shardLength_of_lt size n hn' h, Nat.mul_assoc]
  refine ⟨by omega, ⟨_, hgroups.trans (Nat.mul_comm _ _)⟩, ?_, by omega, by omega⟩
  rw [hgroups, Nat.mul_div_cancel _ hsize]

end Sharding

/-! ## Fills -/

namespace Sampler

def fillSequential? (s : Sampler α) (e : Engine) (buffer : List α) : Option (List α) := do
  let run ← slices? s.size buffer
  return s.fillSlices e run

/-- The buffer with a shard filled, unless the shard leaves the buffer. -/
def fillShard? (s : Sampler α) (buffer : List α) (shard : Shard) : Option (List α) :=
  if shard.start + shard.length ≤ buffer.length then do
    let run ← s.fillSequential? shard.engine ((buffer.drop shard.start).take shard.length)
    return buffer.take shard.start ++ run ++ buffer.drop (shard.start + shard.length)
  else none

def fill? (s : Sampler α) (sharding : Sharding) (e : Engine) (buffer : List α) :
    Option (List α × Engine) := do
  let blocks ← blocksFor? s.size buffer.length
  let filled ←
    if sharding.applies s.size buffer.length then do
      let shards ← sharding.shards? s.size e buffer.length
      shards.foldlM s.fillShard? buffer
    else s.fillSequential? e buffer
  return (filled, e.skip (UInt64.ofNat blocks))

theorem fillSequential?_eq (s : Sampler α) (e : Engine) (buffer : List α) :
    s.fillSequential? e buffer = some (s.fillSequential e buffer) := by
  rw [fillSequential?, slices?, if_neg s.size_pos.ne']
  rfl

theorem fillShard?_eq (s : Sampler α) (buffer : List α) {shard : Shard}
    (h : shard.start + shard.length ≤ buffer.length) :
    s.fillShard? buffer shard = some (s.fillShard buffer shard) := by
  rw [fillShard?, if_pos h, fillSequential?_eq]
  rfl

/-- Filling one shard keeps the length of the buffer, so the later shards lie in it as well. -/
theorem fillShards?_eq (s : Sampler α) (e : Engine) (shards : List Shard) (buffer : List α)
    (h : ∀ shard ∈ shards, shard.Agrees s e buffer.length) :
    shards.foldlM s.fillShard? buffer = some (s.fillShards shards buffer) := by
  induction shards generalizing buffer with
  | nil => rfl
  | cons shard rest ih =>
    have hshard := h shard List.mem_cons_self
    rw [List.foldlM_cons, s.fillShard?_eq buffer hshard.1, fillShards_cons]
    apply ih
    rw [s.fillShard_length e buffer shard hshard]
    exact fun r hr => h r (List.mem_cons_of_mem _ hr)

theorem fill?_eq (s : Sampler α) (sharding : Sharding) (e : Engine) (buffer : List α)
    (hblocks : sharding.blocks ≠ 0) (hlength : buffer.length ≤ countLimit) :
    s.fill? sharding e buffer = some (s.fill sharding e buffer) := by
  rw [fill?, blocksFor?_eq s.size_pos hlength, fill]
  split_ifs with happlies
  · have hlt := Sharding.shardLength_lt_of_applies happlies
    have hagree := sharding.shards_agree s e _ (Nat.lt_succ_of_le hlength) hblocks hlt
    simp only [Option.bind_eq_bind, Option.bind_some,
      Sharding.shards?_eq s.size_pos hblocks hlength hlt, s.fillShards?_eq e _ buffer hagree]
    rfl
  · rw [fillSequential?_eq]
    rfl

end Sampler

/-- The integer of a word, unless the range is empty or the sum leaves 64 bits. -/
def Distribution.inIntegers? (low high : Int64) (w : UInt32) : Option Int64 :=
  let count := high.toInt - low.toInt
  if count ≤ 0 then none else int64? (low.toInt + w.toNat % count)

theorem Distribution.inIntegers?_eq {low high : Int64}
    (h : (uniformInteger low high).check = .ok ()) (w : UInt32) :
    inIntegers? low high w = some (inIntegers low high w) := by
  obtain ⟨hpos, -⟩ := check_uniformInteger_iff.mp h
  have hcount : ((high.toInt - low.toInt).toNat : Int) = high.toInt - low.toInt := by omega
  rw [inIntegers?, if_neg (by omega), ← int64?_toInt (inIntegers low high w), toInt_inIntegers h w,
    Int.natCast_mod, hcount]

/-! ## Lists of streams -/

/-- The streams, or their refusal; none where an offset passes the limit after all. -/
def substreams? (seed : Int64) (first : UInt64) (count : Nat) :
    Option (Except ParameterError (List Engine)) :=
  match count? (first.toNat + (count - 1)) with
  | none => some (.error (.substreams count first))
  | some _ => do
    let engines ← (List.range count).mapM fun i => do
      let offset ← count? (first.toNat + i)
      return Engine.new seed (UInt64.ofNat offset)
    return .ok engines

theorem substreams?_eq (seed : Int64) (first : UInt64) (count : Nat) :
    substreams? seed first count = some (substreams seed first count) := by
  rw [substreams?, substreams_eq]
  split_ifs with hroom
  · have hmap : (List.range count).mapM (fun i => do
        let offset ← count? (first.toNat + i)
        return Engine.new seed (UInt64.ofNat offset)) =
        some ((List.range count).map fun i => Engine.new seed (first + UInt64.ofNat i)) := by
      apply mapM_of_forall
      intro i hi
      rw [List.mem_range] at hi
      rw [count?_of_lt (by omega)]
      show some (Engine.new seed (UInt64.ofNat (first.toNat + i))) = _
      rw [UInt64.ofNat_add, UInt64.ofNat_toNat]
    rw [count?_of_lt hroom]
    simp only [hmap]
    rfl
  · rw [count?_of_not_le fun h => hroom (Nat.lt_succ_of_le h)]

theorem offset_le_of_substreams {seed : Int64} {first : UInt64} {count : Nat}
    {streams : List Engine} (h : substreams seed first count = .ok streams) {i : Nat}
    (hi : i < count) : first.toNat + i ≤ countLimit := by
  rw [substreams_eq] at h
  split_ifs at h with hroom
  have hlast : first.toNat + (count - 1) ≤ countLimit := Nat.le_of_lt_succ hroom
  omega

/-! ## Words of a stream -/

namespace WordStream

def buffered? (s : WordStream) : Option Nat := if s.taken ≤ 4 then some (4 - s.taken) else none

/-- The word at the place that the stream has come to, unless its block has no such place. -/
def next? (s : WordStream) : Option (UInt32 × WordStream) := do
  let s := if 4 ≤ s.taken then ⟨s.engine.next.2, s.engine.next.1, 0⟩ else s
  let word ← s.block.words[s.taken]?
  return (word, { s with taken := s.taken + 1 })

theorem next?_eq (s : WordStream) : s.next? = some s.next := by
  obtain ⟨engine, block, taken⟩ := s
  match taken with
  | 0 | 1 | 2 | 3 => rfl
  | n + 4 =>
    rw [next?, next, if_pos (Nat.le_add_left 4 n), if_pos (Nat.le_add_left 4 n)]
    rfl

theorem buffered?_eq {s : WordStream} (h : s.taken ≤ 4) : s.buffered? = some s.buffered := if_pos h

theorem StandsAt.taken_le {s : WordStream} {k : Key} {w : Nat} (h : s.StandsAt k w) :
    s.taken ≤ 4 := by
  rw [h.taken]
  split_ifs <;> omega

end WordStream

/-! ## All of them -/

/-- No operation is refused in a fill, in a list of streams or in a stream of words. Where a fill is
cut into shards, each has some length, all but the last have one length of whole groups, and the
blocks before each, which are the groups before it, are counted without passing the limit. The
offsets of a list of streams stay within the limit, and a stream never goes past the end of its
block. -/
theorem counts_stay_in_range :
    (∀ (d : Distribution) (sharding : Sharding) (e : Engine) (buffer : List d.sampleType.Value),
      sharding.check = .ok () → buffer.length ≤ countLimit →
        d.sampler.fill? sharding e buffer = some (d.sampler.fill sharding e buffer) ∧
        (sharding.applies d.groupSize buffer.length →
          1 ≤ sharding.shardLength d.groupSize ∧
          d.groupSize ∣ sharding.shardLength d.groupSize ∧
          ∀ i shard, (sharding.shards d.groupSize e buffer.length)[i]? = some shard →
            i * sharding.blocks.toNat ≤ countLimit ∧
            d.groupSize ∣ shard.start ∧
            i * sharding.blocks.toNat = shard.start / d.groupSize ∧
            1 ≤ shard.length ∧
            shard.start + shard.length ≤ buffer.length)) ∧
    (∀ (d : Distribution) (length : Nat), length ≤ countLimit →
      blocksFor? d.groupSize length = some (blocksFor d.groupSize length)) ∧
    (∀ (low high : Int64) (w : UInt32), (Distribution.uniformInteger low high).check = .ok () →
      Distribution.inIntegers? low high w = some (Distribution.inIntegers low high w)) ∧
    (∀ (seed : Int64) (first : UInt64) (count : Nat),
      substreams? seed first count = some (substreams seed first count) ∧
      ∀ streams, substreams seed first count = .ok streams →
        ∀ i < count, first.toNat + i ≤ countLimit) ∧
    ∀ (origin : WordStream.Origin) (requests : List WordStream.Request),
      ∃ start, origin.stream? = some start ∧
        let s := start.after requests
        s.taken ≤ 4 ∧ s.next? = some s.next ∧ s.buffered? = some s.buffered := by
  refine ⟨?_, ?_, ?_, ?_, ?_⟩
  · intro d sharding e buffer hcheck hlength
    have hblocks := Sharding.blocks_ne_zero_of_check hcheck
    have hsize : 0 < d.groupSize := d.sampler.size_pos
    refine ⟨d.sampler.fill?_eq sharding e buffer hblocks hlength, ?_⟩
    intro happlies
    have hlt := Sharding.shardLength_lt_of_applies happlies
    have hmul := sharding.shardLength_of_lt _ _ (Nat.lt_succ_of_le hlength) hlt
    refine ⟨sharding.shardLength_pos _ hsize hblocks, ⟨_, hmul.trans (Nat.mul_comm _ _)⟩, ?_⟩
    intro i shard hshard
    exact Sharding.shards_whole_groups hsize hblocks hlength hlt hshard
  · intro d length hlength
    exact blocksFor?_eq d.sampler.size_pos hlength
  · intro low high w hcheck
    exact Distribution.inIntegers?_eq hcheck w
  · intro seed first count
    refine ⟨substreams?_eq seed first count, ?_⟩
    intro streams hstreams i hi
    exact offset_le_of_substreams hstreams hi
  · intro origin requests
    obtain ⟨e, he⟩ := origin.exists_engine
    have htaken := ((WordStream.ofEngine_standsAt e).after requests).taken_le
    exact ⟨_, he, htaken, WordStream.next?_eq _, WordStream.buffered?_eq htaken⟩

theorem counts_stay_in_range_at_limits :
    let small : Sharding := ⟨0, 1⟩
    let large : Sharding := ⟨0, 0xFFFFFFFFFFFFFFFF⟩
    let sampler := Distribution.normalDouble.sampler
    let buffer : List Double := List.replicate 5 (Binary.zero false)
    small.check = .ok () ∧ large.check = .ok () ∧ buffer.length ≤ countLimit ∧
    small.applies 2 5 ∧
    sampler.fill? small Engine.zero buffer = some (sampler.fill small Engine.zero buffer) ∧
    sampler.fill? large Engine.zero buffer = some (sampler.fill large Engine.zero buffer) ∧
    (∃ last, (small.shards 2 Engine.zero 5)[2]? = some last ∧ 2 ≤ countLimit ∧
      2 = last.start / 2 ∧ last.start + last.length ≤ 5) ∧
    blocksFor? 4 countLimit = some (2 ^ 62) ∧
    (Distribution.uniformInteger 0x7FFFFFFFFFFFFFFD 0x7FFFFFFFFFFFFFFF).check = .ok () ∧
    Distribution.inIntegers? 0x7FFFFFFFFFFFFFFD 0x7FFFFFFFFFFFFFFF 7 = some 0x7FFFFFFFFFFFFFFE ∧
    substreams? 5 0xFFFFFFFFFFFFFFFF 1 = some (.ok [Engine.new 5 0xFFFFFFFFFFFFFFFF]) ∧
    ∃ start, (WordStream.Origin.new 5 0).stream? = some start ∧
      (start.after [.word, .skip 0xFFFFFFFFFFFFFFFF, .doubleWord, .word]).buffered? = some 1 := by
  intro small large sampler buffer
  obtain ⟨hfill, hblocks, hinteger, hstreams, hwords⟩ := counts_stay_in_range
  have hlength : buffer.length ≤ countLimit := by decide
  have happlies : small.applies 2 5 := by decide
  have hcheck : (Distribution.uniformInteger 0x7FFFFFFFFFFFFFFD 0x7FFFFFFFFFFFFFFF).check =
      .ok () := by decide
  obtain ⟨hsmall, hshards⟩ := hfill .normalDouble small Engine.zero buffer rfl hlength
  obtain ⟨hlarge, -⟩ := hfill .normalDouble large Engine.zero buffer rfl hlength
  obtain ⟨-, -, hshard⟩ := hshards happlies
  have hlast : (small.shards 2 Engine.zero 5)[2]? = some ⟨4, 1, Engine.zero.skip 2⟩ := by cbv
  obtain ⟨hskip, -, hgroups, -, hend⟩ := hshard 2 _ hlast
  obtain ⟨start, hstart, -, -, hbuffered⟩ :=
    hwords (.new 5 0) [.word, .skip 0xFFFFFFFFFFFFFFFF, .doubleWord, .word]
  refine ⟨rfl, rfl, hlength, happlies, hsmall, hlarge, ⟨_, hlast, hskip, hgroups, hend⟩,
    hblocks .uniformSingle countLimit le_rfl, hcheck, hinteger _ _ 7 hcheck,
    (hstreams 5 0xFFFFFFFFFFFFFFFF 1).1, start, hstart, ?_⟩
  obtain rfl := Option.some.inj hstart
  exact hbuffered

end CounterStream
