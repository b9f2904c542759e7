/-!
# Words of 32 bits

The arithmetic on words that the generator needs: the two halves of a product, a sum with a
carry, and the bytes and hexadecimal digits of a word.
-/

namespace CounterStream.Word

/-- The halves of the 64-bit product, the high one first. -/
def wideMul (a b : UInt32) : UInt32 × UInt32 :=
  let product := a.toUInt64 * b.toUInt64
  ((product >>> 32).toUInt32, product.toUInt32)

/-- The sum of two words and a carry, with the carry that goes out. -/
def addCarry (a b : UInt32) (carry : Bool) : UInt32 × Bool :=
  let sum := a.toUInt64 + b.toUInt64 + (if carry then 1 else 0)
  (sum.toUInt32, UInt32.size ≤ sum.toNat)

/-! ## Halves of a double word -/

def low (d : UInt64) : UInt32 := d.toUInt32

def high (d : UInt64) : UInt32 := (d >>> 32).toUInt32

def join (high low : UInt32) : UInt64 := high.toUInt64 <<< 32 ||| low.toUInt64

/-! ## Bytes, the low one first -/

def bytes (w : UInt32) : List UInt8 :=
  [w.toUInt8, (w >>> 8).toUInt8, (w >>> 16).toUInt8, (w >>> 24).toUInt8]

def ofBytes (a b c d : UInt8) : UInt32 :=
  a.toUInt32 ||| b.toUInt32 <<< 8 ||| c.toUInt32 <<< 16 ||| d.toUInt32 <<< 24

/-- The words of successive groups of four bytes; fewer at the end are dropped. -/
def listOfBytes : List UInt8 → List UInt32
  | a :: b :: c :: d :: rest => ofBytes a b c d :: listOfBytes rest
  | _ => []

/-! ## Hexadecimal digits -/

/-- The lower-case digits of `n`, at least `width` of them. -/
def hex (width n : Nat) : String :=
  let digits := Nat.toDigits 16 n
  String.ofList (List.replicate (width - digits.length) '0' ++ digits)

end CounterStream.Word
