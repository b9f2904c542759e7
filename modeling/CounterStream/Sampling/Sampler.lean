import CounterStream.Engine

/-!
# Samplers

A sampler makes a group of samples from one block. The group has the same size for every block, so
sample `i` of a fill always comes from block `i / size`.
-/

namespace CounterStream

structure Sampler (α : Type) where
  size : Nat
  group : Block → List α
  /-- Applied to every element of the slice that a group is written to. -/
  finish : α → α := id
  size_pos : 0 < size := by decide
  length_group : ∀ b, (group b).length = size := by intro b; rfl

/-- `slice` with its front replaced by as many of the values as it has room for. -/
def overwrite {α : Type} (values slice : List α) : List α :=
  values.take slice.length ++ slice.drop values.length

namespace Sampler

variable {α : Type}

/-- The slice after a group of one block is written to it. -/
def transform (s : Sampler α) (block : Block) (slice : List α) : List α :=
  (overwrite (s.group block) slice).map s.finish

/-- The first sample of the next block. -/
def sample [Inhabited α] (s : Sampler α) (e : Engine) : α × Engine :=
  let (block, e) := e.next
  ((s.transform block [default]).headD default, e)

/-- So many samples, each from a block of its own. -/
def samples [Inhabited α] (s : Sampler α) (e : Engine) : Nat → List α × Engine
  | 0 => ([], e)
  | n + 1 =>
    let (x, e) := s.sample e
    let (xs, e) := s.samples e n
    (x :: xs, e)

end Sampler

end CounterStream
