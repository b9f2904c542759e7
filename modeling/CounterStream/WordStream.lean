import CounterStream.Engine
import CounterStream.Binary.Arithmetic

/-!
# Streams of words

A word stream hands out the words of successive blocks one at a time. It keeps the block it is
handing out; its engine already stands after that block.
-/

namespace CounterStream

structure WordStream where
  engine : Engine
  block : Block
  /-- The words of the block that are already handed out. -/
  taken : Nat
deriving DecidableEq

namespace WordStream

/-- Nothing is left of the block, so the first word comes from the engine. -/
def ofEngine (e : Engine) : WordStream := ⟨e, Block.zero, 4⟩

/-- Eight bytes of seed, then eight of offset. -/
def ofBytes? (bytes : List UInt8) : Option WordStream :=
  match Word.listOfBytes bytes with
  | [seed0, seed1, offset0, offset1] =>
    some (ofEngine (Engine.new (Word.join seed1 seed0).toInt64 (Word.join offset1 offset0)))
  | _ => none

def buffered (s : WordStream) : Nat := 4 - s.taken

/-- A stream resumed here starts at the next block: the words left are dropped. -/
def resume (s : WordStream) : WordStream := ofEngine (Engine.ofState s.engine.state)

/-- Drops the words left and so many whole blocks. -/
def skip (s : WordStream) (n : UInt64) : WordStream :=
  { s with engine := s.engine.skip n, taken := 4 }

def next (s : WordStream) : UInt32 × WordStream :=
  if 4 ≤ s.taken then
    let (block, engine) := s.engine.next
    (block.word 0, ⟨engine, block, 1⟩)
  else (s.block.word s.taken, { s with taken := s.taken + 1 })

def nextDouble (s : WordStream) : UInt64 × WordStream :=
  let (high, s) := s.next
  let (low, s) := s.next
  (Word.join high low, s)

/-- The bytes of successive words; the end of the last word may be dropped. -/
def bytes (s : WordStream) (n : Nat) : List UInt8 × WordStream :=
  if n = 0 then ([], s)
  else
    let (word, s) := s.next
    let (rest, s) := s.bytes (n - 4)
    ((Word.bytes word).take n ++ rest, s)
termination_by n

/-! ## Uniform reals in [0, 1) -/

/-- The upper 24 bits of a word, as a fraction. -/
def single (s : WordStream) : Single × WordStream :=
  let (word, s) := s.next
  (Binary.ofNat (word >>> 8).toNat * (Binary.ofNat 1 / Binary.ofNat (1 <<< 24)), s)

/-- The upper 53 bits of two words, as a fraction. -/
def double (s : WordStream) : Double × WordStream :=
  let (word, s) := s.nextDouble
  (Binary.ofNat (word >>> 11).toNat * (Binary.ofNat 1 / Binary.ofNat (1 <<< 53)), s)

end WordStream

end CounterStream
