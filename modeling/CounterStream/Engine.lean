import CounterStream.Block

/-!
# Counters and engines

A counter is a block read as a 128-bit number. It moves by one, or by any 64-bit count, and wraps
silently at 2^128. An engine is a counter and a key. It gives the block at its position and moves
on, or moves without giving blocks. An engine is a plain value, so a copy of it is a checkpoint.
-/

namespace CounterStream

/-! ## Counters -/

/-- A position in a stream. -/
abbrev Counter := Block

namespace Counter

/-- The block that holds `n` modulo 2^128. -/
def ofNat (n : Nat) : Counter :=
  ⟨UInt32.ofNat n, UInt32.ofNat (n >>> 32), UInt32.ofNat (n >>> 64), UInt32.ofNat (n >>> 96)⟩

/-- Counters from `offset * 2^64` on belong to one offset. -/
def ofOffset (offset : UInt64) : Counter := ⟨0, 0, Word.low offset, Word.high offset⟩

/-- A word is raised when all words below it have wrapped. -/
def succ (c : Counter) : Counter :=
  let w0 := c.w0 + 1
  if w0 ≠ 0 then { c with w0 } else
    let w1 := c.w1 + 1
    if w1 ≠ 0 then { c with w0, w1 } else
      let w2 := c.w2 + 1
      if w2 ≠ 0 then { c with w0, w1, w2 } else ⟨w0, w1, w2, c.w3 + 1⟩

/-- The counter `n` further, by long addition. -/
def add (c : Counter) (n : UInt64) : Counter :=
  let (w0, carry) := Word.addCarry c.w0 (Word.low n) false
  let (w1, carry) := Word.addCarry c.w1 (Word.high n) carry
  let (w2, carry) := Word.addCarry c.w2 0 carry
  let (w3, _) := Word.addCarry c.w3 0 carry
  ⟨w0, w1, w2, w3⟩

end Counter

/-! ## Engines -/

structure Engine where
  counter : Counter
  key : Key
deriving DecidableEq

namespace Engine

def zero : Engine := ⟨Block.zero, Key.zero⟩

/-- The seed is the key and the offset the upper half of the counter, so each offset owns a run
of 2^64 blocks. -/
def new (seed : Int64) (offset : UInt64) : Engine := ⟨Counter.ofOffset offset, Key.ofSeed seed⟩

def position (e : Engine) : Nat := e.counter.toNat

def peek (e : Engine) : Block := e.key.block e.counter

/-- The block at the position, and the engine one further. -/
def next (e : Engine) : Block × Engine := (e.peek, { e with counter := Counter.succ e.counter })

def skip (e : Engine) (n : UInt64) : Engine := { e with counter := Counter.add e.counter n }

/-! ## States -/

/-- What is kept of an engine to go on with its stream later. -/
structure State where
  counter : Counter
  key : Key
deriving DecidableEq

def state (e : Engine) : State := ⟨e.counter, e.key⟩

def ofState (s : State) : Engine := ⟨s.counter, s.key⟩

/-! ## Runs of blocks -/

def take (e : Engine) : Nat → List Block × Engine
  | 0 => ([], e)
  | n + 1 =>
    let (block, e) := e.next
    let (blocks, e) := e.take n
    (block :: blocks, e)

end Engine

end CounterStream
