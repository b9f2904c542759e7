import CounterStream.Binary.Basic

/-!
# Decimal numbers

A decimal is a whole coefficient and a power of ten. `Decimal.toBinary` is the binary number nearest
to it, and `Binary.shortest` the decimal of fewest digits that `toBinary` takes back. Of two such
decimals it is the nearer; a tie between them is for the caller to decide.
-/

namespace CounterStream

/-- The number `coefficient * 10 ^ exponent`. -/
structure Decimal where
  coefficient : Nat
  exponent : Int
deriving DecidableEq

namespace Decimal

/-! ## From decimal to binary -/

/-- The nearest binary number. From `10 ^ 400` on every format here has only infinity, and below
`10 ^ (-400)` only zero, so the powers of ten stay small. -/
def toBinary (F : Format) (negative : Bool) (d : Decimal) : Binary F :=
  if d.coefficient = 0 then Binary.zero negative
  else if 400 < d.exponent then Binary.infinite negative
  else if d.coefficient.log2 + 400 < -d.exponent then Binary.zero negative
  else
    match d.exponent with
    | .ofNat e => Binary.ofRatio negative (d.coefficient * Nat.pow 10 e) 1
    | .negSucc e => Binary.ofRatio negative d.coefficient (Nat.pow 10 (e + 1))

/-! ## From binary to decimal -/

/-- The same number with no zero at the end of its coefficient. -/
def trim (d : Decimal) : Decimal :=
  if d.coefficient ≠ 0 ∧ d.coefficient % 10 = 0 then
    trim ⟨d.coefficient / 10, d.exponent + 1⟩
  else d
termination_by d.coefficient
decreasing_by exact Nat.div_lt_self (by omega) (by omega)

end Decimal

/-- What is taken of two decimals that are equally near. -/
inductive Tie
  | larger
  | even
deriving DecidableEq

/-- Whether `c` is taken and not `c + 1`, when `distance` is twice as far as the value lies from
`c`, and `step` as far as the two lie apart. -/
def Tie.takesLower (tie : Tie) (distance step c : Nat) : Bool :=
  distance < step || (distance == step && tie == .even && c % 2 == 0)

namespace Format

/-- The value of a finite ordinal times `10 ^ places`, a whole number. -/
def scaled (F : Format) (n : Nat) : Nat := F.units n * Nat.pow 5 F.places

/-- The ordinal nearest to `m / 10 ^ places`. -/
def nearestScaled (F : Format) (m : Nat) : Nat := F.nearest m (Nat.pow 5 F.places)

/-- The coefficient and the place of the first decimal that reads back as `n`, from the given place
down. At each place only the two neighbours of the value can be the nearest. -/
def shortestFrom (F : Format) (tie : Tie) (n : Nat) : Nat → Nat × Nat
  | 0 => (F.scaled n, 0)
  | place + 1 =>
    let step := Nat.pow 10 (place + 1)
    let c := F.scaled n / step
    let below := F.nearestScaled (c * step) == n
    let above := F.nearestScaled ((c + 1) * step) == n
    if below && (!above || tie.takesLower (2 * (F.scaled n % step)) step c) then (c, place + 1)
    else if above then (c + 1, place + 1)
    else F.shortestFrom tie n place

end Format

/-- The magnitude of a finite number in the fewest digits that read back as it. The search starts no
lower than the place of the leading digit. -/
def Binary.shortest {F : Format} (tie : Tie) (x : Binary F) : Decimal :=
  if x.ordinal = 0 then ⟨0, 0⟩ else
    let (c, place) := F.shortestFrom tie x.ordinal ((F.scaled x.ordinal).log2 * 1234 / 4096 + 1)
    Decimal.trim ⟨c, place - F.places⟩

end CounterStream
