import CounterStream.Binary.Basic

/-!
# Arithmetic on binary numbers

Each operation on finite numbers is the exact result, rounded once to the nearest number, a tie to
even. The rest are the rules for infinities, zeros and what is not a number.
-/

namespace CounterStream

/-- The largest `r` with `r * r ≤ n`, one binary digit for each two of `n`. -/
def wholeRoot (n : Nat) : Nat :=
  if h : n = 0 then 0 else
    let r := 2 * wholeRoot (n / 4)
    if (r + 1) * (r + 1) ≤ n then r + 1 else r
termination_by n
decreasing_by exact Nat.div_lt_self (Nat.pos_of_ne_zero h) (by decide)

namespace Binary

variable {F G : Format}

def neg (x : Binary F) : Binary F := { x with negative := !x.negative }

/-- A sum of zero is negative only when both terms are. -/
def add (x y : Binary F) : Binary F :=
  if x.isNaN || y.isNaN then nan
  else if x.isInfinite then
    if y.isInfinite && x.negative != y.negative then nan else x
  else if y.isInfinite then y
  else
    let sum := x.units + y.units
    ofUnits (if sum = 0 then x.negative && y.negative else sum < 0) sum.natAbs 1

def sub (x y : Binary F) : Binary F := x.add y.neg

def mul (x y : Binary F) : Binary F :=
  let negative := x.negative != y.negative
  if x.isNaN || y.isNaN then nan
  else if x.isInfinite || y.isInfinite then
    if x.ordinal = 0 ∨ y.ordinal = 0 then nan else infinite negative
  else ofUnits negative (F.units x.ordinal * F.units y.ordinal) F.one

def div (x y : Binary F) : Binary F :=
  let negative := x.negative != y.negative
  if x.isNaN || y.isNaN then nan
  else if x.isInfinite then
    if y.isInfinite then nan else infinite negative
  else if y.isInfinite then zero negative
  else if y.ordinal = 0 then
    if x.ordinal = 0 then nan else infinite negative
  else ofUnits negative (F.units x.ordinal * F.one) (F.units y.ordinal)

/-- The root of `n` units squared is compared with halves of a unit only, so it is enough to know
twice the root to the whole number below and whether anything is left. -/
def sqrt (x : Binary F) : Binary F :=
  if x.isNaN then nan
  else if x.ordinal = 0 then x
  else if x.negative then nan
  else if x.isInfinite then x
  else
    let square := 4 * (F.units x.ordinal * F.one)
    let root := wholeRoot square
    ofUnits false (2 * root + if root * root = square then 0 else 1) 4

/-- The number of another format nearest to `x`. What is not a number keeps its sign. -/
def convert (x : Binary F) : Binary G :=
  if x.isNaN then { (nan : Binary G) with negative := x.negative }
  else if x.isInfinite then infinite x.negative
  else ofUnits x.negative (F.units x.ordinal * G.one) F.one

instance : Neg (Binary F) := ⟨neg⟩
instance : Add (Binary F) := ⟨add⟩
instance : Sub (Binary F) := ⟨sub⟩
instance : Mul (Binary F) := ⟨mul⟩
instance : Div (Binary F) := ⟨div⟩

end Binary

end CounterStream
