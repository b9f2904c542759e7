import CounterStream.Engine
import CounterStream.ParameterError

/-!
# Sharing a stream

Several clients draw from one seed without overlap in two ways. Each has an offset of its own, and
successive offsets are 2^64 blocks apart. Or they share one engine, and each reserves a run of
blocks: it gets a private engine at the start of the run, and the shared engine moves past the end.
A reservation is one step on the shared engine, so any order of clients is a sequence of these
steps.
-/

namespace CounterStream

/-! ## Substreams -/

/-- The engines of `count` successive offsets, unless the last would pass the largest offset. -/
def substreams (seed : Int64) (first : UInt64) (count : Nat) :
    Except ParameterError (List Engine) :=
  if first.toNat + (count - 1) < UInt64.size then
    .ok ((List.range count).map fun i => Engine.new seed (first + UInt64.ofNat i))
  else .error (.substreams count first)

/-! ## Reservations -/

/-- The private engine, and the shared engine past the reserved blocks. -/
def Engine.reserve (shared : Engine) (blocks : UInt64) : Engine × Engine :=
  (shared, shared.skip blocks)

/-- The number of blocks that hold `samples` words. -/
def blocksOfWords (samples : UInt64) : UInt64 := UInt64.ofNat ((samples.toNat + 3) / 4)

/-- A reservation of whole blocks for so many words. -/
def Engine.reserveWords (shared : Engine) (samples : UInt64) : Engine × Engine :=
  shared.reserve (blocksOfWords samples)

end CounterStream
