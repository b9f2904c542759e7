import CounterStream.Binary.Basic

/-!
# Fixed-point approximations

A fixed-point number is a whole number of `2 ^ (-256)`. That is far more than the places after
which the logarithm, sine or cosine of a double can be told from a point halfway between two
numbers of 64 bits, so rounding these approximations rounds the functions themselves.
-/

namespace CounterStream.FixedPoint

def one : Nat := 1 <<< 256

def logTwo : Nat := 0xb17217f7d1cf79abc9e3b39803f2f6af40f343267298b62d8a0d175b8baafa2b

def halfPi : Nat := 0x3243f6a8885a308d313198a2e03707344a4093822299f31d0082efa98ec4e6c89 / 2

def mul (x y : Nat) : Nat := x * y / one

/-- The number to 64 significant bits, the precision of the extended format. -/
def extended (n : Nat) : Nat :=
  let step := 1 <<< (n.log2 - 63)
  roundEven n step * step

/-! ## The logarithm -/

/-- The sum of `power / n + power * square / (n + 2) + ...`, so many terms of it. -/
def oddSeries (square : Nat) : Nat → Nat → Nat → Nat
  | 0, _, _ => 0
  | terms + 1, n, power =>
    if power = 0 then 0 else power / n + oddSeries square terms (n + 2) (mul power square)

/-- The logarithm of `num / den`, a fraction from one to two. With `z = (num - den) / (num + den)`
it is twice `z + z^3 / 3 + z^5 / 5 + ...`, and `z` is at most a third. -/
def logFraction (num den : Nat) : Nat :=
  let z := (num - den) * one / (num + den)
  2 * oddSeries (mul z z) 90 1 z

/-- The logarithm of `n * 2 ^ (-places)`, for positive `n`. -/
def log (n places : Nat) : Int :=
  (n.log2 - places : Int) * logTwo + logFraction n (1 <<< n.log2)

/-! ## Sine and cosine -/

/-- The alternating sum `term - term * square / (n * (n + 1)) + ...`, so many terms of it. -/
def alternating (square : Nat) : Nat → Nat → Nat → Int
  | 0, _, _ => 0
  | terms + 1, n, term =>
    term - alternating square terms (n + 2) (mul term square / (n * (n + 1)))

/-- The sine of an angle of the first quadrant. -/
def sinQuadrant (angle : Nat) : Nat :=
  Nat.min one (alternating (mul angle angle) 40 2 angle).toNat

def cosQuadrant (angle : Nat) : Nat :=
  Nat.min one (alternating (mul angle angle) 40 1 one).toNat

/-- The sign and the size of the sine of an angle. -/
def sin (angle : Nat) : Bool × Nat :=
  let rest := angle % halfPi
  match angle / halfPi % 4 with
  | 0 => (false, sinQuadrant rest)
  | 1 => (false, cosQuadrant rest)
  | 2 => (true, sinQuadrant rest)
  | _ => (true, cosQuadrant rest)

def cos (angle : Nat) : Bool × Nat :=
  let rest := angle % halfPi
  match angle / halfPi % 4 with
  | 0 => (false, cosQuadrant rest)
  | 1 => (true, sinQuadrant rest)
  | 2 => (true, cosQuadrant rest)
  | _ => (false, sinQuadrant rest)

end CounterStream.FixedPoint
