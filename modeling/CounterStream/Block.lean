import CounterStream.Word

/-!
# Blocks and the keyed mixing of blocks

A block is four words. `Key.block` mixes a block under a key in ten rounds; the generator's
output at a position is that position, written as a block, after the mixing.
-/

namespace CounterStream

structure Block where
  w0 : UInt32
  w1 : UInt32
  w2 : UInt32
  w3 : UInt32
deriving DecidableEq

namespace Block

def zero : Block := ⟨0, 0, 0, 0⟩

def words (b : Block) : List UInt32 := [b.w0, b.w1, b.w2, b.w3]

/-- The word at place `i`; every place past the third is the last word. -/
def word (b : Block) : Nat → UInt32
  | 0 => b.w0
  | 1 => b.w1
  | 2 => b.w2
  | _ => b.w3

/-- The number whose digits in base 2^32 are the words, the first word lowest. -/
def toNat (b : Block) : Nat :=
  b.w0.toNat + UInt32.size * (b.w1.toNat + UInt32.size * (b.w2.toNat + UInt32.size * b.w3.toNat))

end Block

/-- Two words, the low one first. -/
structure Key where
  low : UInt32
  high : UInt32
deriving DecidableEq

namespace Key

def zero : Key := ⟨0, 0⟩

/-- The bits of a signed seed. -/
def ofSeed (seed : Int64) : Key :=
  ⟨Word.low seed.toUInt64, Word.high seed.toUInt64⟩

/-- The signed seed whose bits the key holds. -/
def seed (k : Key) : Int64 := (Word.join k.high k.low).toInt64

/-- The key of the next round: each word is raised by a fixed odd step. -/
def raise (k : Key) : Key := ⟨k.low + 0x9E3779B9, k.high + 0xBB67AE85⟩

end Key

namespace Block

/-! ## Mixing -/

/-- One round: two wide products, whose high halves are folded into the other two words. -/
def mix (b : Block) (k : Key) : Block :=
  let (high0, low0) := Word.wideMul 0xD2511F53 b.w0
  let (high1, low1) := Word.wideMul 0xCD9E8D57 b.w2
  ⟨high1 ^^^ b.w1 ^^^ k.low, low1, high0 ^^^ b.w3 ^^^ k.high, low0⟩

/-- So many rounds, the key raised between one and the next. -/
def mixRounds : Nat → Key → Block → Block
  | 0, _, b => b
  | n + 1, k, b => mixRounds n k.raise (b.mix k)

end Block

/-- The block of a counter: ten rounds of mixing. -/
def Key.block (k : Key) (counter : Block) : Block := Block.mixRounds 10 k counter

end CounterStream
