import CounterStream.Binary.Arithmetic
import CounterStream.Binary.FixedPoint

/-!
# Logarithm, sine and cosine of binary numbers

Each function is evaluated to the 64 bits of the extended format and then rounded to the format of
its argument.
-/

namespace CounterStream.Binary

variable {F : Format}

/-- The number nearest to the extended value of a fixed-point one. -/
def ofFixed (negative : Bool) (n : Nat) : Binary F :=
  ofRatio negative (FixedPoint.extended n) FixedPoint.one

def log (x : Binary F) : Binary F :=
  if x.isNaN then nan
  else if x.ordinal = 0 then infinite true
  else if x.negative then nan
  else if x.isInfinite then x
  else
    let result := FixedPoint.log (F.units x.ordinal) F.places
    ofFixed (result < 0) result.natAbs

def toFixed (x : Binary F) : Nat := F.units x.ordinal * FixedPoint.one / F.one

/-- Below `2 ^ (-80)` a number is its own sine and its cosine is one, to the nearest number of any
format. -/
def isTiny (x : Binary F) : Bool := x.toFixed < 1 <<< 176

/-- The sine of an angle in radians. The stored circle constant serves angles of a few turns. -/
def sin (x : Binary F) : Binary F :=
  if !x.isFinite then nan
  else if x.isTiny then x
  else
    let (negative, size) := FixedPoint.sin x.toFixed
    ofFixed (x.negative != negative) size

def cos (x : Binary F) : Binary F :=
  if !x.isFinite then nan
  else if x.isTiny then ofNat 1
  else
    let (negative, size) := FixedPoint.cos x.toFixed
    ofFixed negative size

end CounterStream.Binary
