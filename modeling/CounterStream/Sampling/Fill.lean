import CounterStream.ParameterError
import CounterStream.Sampling.Sampler

/-!
# Filling a buffer

A buffer is filled from successive blocks. A large one is cut into shards, each filled from its own
copy of the engine at its own first block; the shards share nothing, so they may be written in any
order.
-/

namespace CounterStream

structure Sharding where
  /-- The work from which a fill is cut into shards. -/
  threshold : UInt64 := 65536
  /-- The blocks of one shard. -/
  blocks : UInt64 := 1024
deriving DecidableEq

/-- Lengths and amounts of work are counted up to this and no further. -/
def countLimit : Nat := UInt64.size - 1

/-- The blocks that hold `length` samples. -/
def blocksFor (size length : Nat) : Nat := (length + (size - 1)) / size

namespace Sharding

/-- Only a fill whose work is counted up to the limit reaches this threshold. -/
def sequential : Sharding := { threshold := UInt64.ofNat countLimit }

def check (s : Sharding) : Except ParameterError Unit :=
  if s.blocks = 0 then .error .emptyShards else .ok ()

def shardLength (s : Sharding) (size : Nat) : Nat := min (s.blocks.toNat * size) countLimit

/-- Ten units of work for each word of each block. -/
def work (size length : Nat) : Nat := min (blocksFor size length * 40) countLimit

def applies (s : Sharding) (size length : Nat) : Bool :=
  s.threshold.toNat ≤ work size length && s.shardLength size < length

end Sharding

/-- A run of a buffer and the engine at its first block. -/
structure Shard where
  start : Nat
  length : Nat
  engine : Engine

/-- The shards of a buffer of the given length, in order. -/
def Sharding.shards (s : Sharding) (size : Nat) (e : Engine) (length : Nat) : List Shard :=
  let shard := s.shardLength size
  (List.range ((length + (shard - 1)) / shard)).map fun i =>
    ⟨i * shard, min shard (length - i * shard), e.skip (UInt64.ofNat (i * s.blocks.toNat))⟩

/-- The slices of length `n`, the last one perhaps shorter. -/
def slices {α : Type} (n : Nat) : List α → List (List α)
  | [] => []
  | x :: xs => (x :: xs.take (n - 1)) :: slices n (xs.drop (n - 1))
termination_by xs => xs.length
decreasing_by simp only [List.length_drop, List.length_cons]; omega

namespace Sampler

variable {α : Type}

def fillSlices (s : Sampler α) : Engine → List (List α) → List α
  | _, [] => []
  | e, slice :: rest =>
    let (block, e) := e.next
    s.transform block slice ++ s.fillSlices e rest

def fillSequential (s : Sampler α) (e : Engine) (buffer : List α) : List α :=
  s.fillSlices e (slices s.size buffer)

def fillShard (s : Sampler α) (buffer : List α) (shard : Shard) : List α :=
  buffer.take shard.start ++
    s.fillSequential shard.engine ((buffer.drop shard.start).take shard.length) ++
    buffer.drop (shard.start + shard.length)

def fillShards (s : Sampler α) (shards : List Shard) (buffer : List α) : List α :=
  shards.foldl s.fillShard buffer

/-- The filled buffer, and the engine past every block it took. -/
def fill (s : Sampler α) (sharding : Sharding) (e : Engine) (buffer : List α) : List α × Engine :=
  let filled :=
    if sharding.applies s.size buffer.length then
      s.fillShards (sharding.shards s.size e buffer.length) buffer
    else s.fillSequential e buffer
  (filled, e.skip (UInt64.ofNat (blocksFor s.size buffer.length)))

def fillWith (s : Sampler α) (sharding : Sharding) (e : Engine) (buffer : List α) :
    Except ParameterError (List α × Engine) := do
  sharding.check
  return s.fill sharding e buffer

end Sampler

end CounterStream
