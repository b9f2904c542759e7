import CounterStream.Decimal.Basic

/-!
# Writing decimal numbers

A layout says when a number is written with an exponent and whether a whole number shows a point.
-/

namespace CounterStream

namespace Decimal

def digits (d : Decimal) : List Char := Nat.toDigits 10 d.coefficient

/-- The exponent of the leading digit. -/
def leading (d : Decimal) : Int := d.exponent + (d.digits.length - 1 : Nat)

/-- All digits from the leading one, or the one before the point, to the last one. -/
def positional (d : Decimal) : List Char :=
  match d.exponent with
  | .ofNat e => d.digits ++ List.replicate (if d.coefficient = 0 then 0 else e) '0'
  | .negSucc e =>
    let padded := List.replicate (e + 2 - d.digits.length) '0' ++ d.digits
    let whole := padded.length - (e + 1)
    padded.take whole ++ '.' :: padded.drop whole

/-- One digit before the point and a signed exponent. -/
def scientific (d : Decimal) : List Char :=
  let sign := if d.leading < 0 then '-' else '+'
  let point := if d.digits.length = 1 then [] else ['.']
  d.digits.take 1 ++ point ++ d.digits.drop 1 ++
    'e' :: sign :: Nat.toDigits 10 d.leading.natAbs

end Decimal

structure Layout where
  /-- Whether a number is written without an exponent, by the exponent of its leading digit. -/
  isPositional : Int → Bool
  /-- Whether `.0` is written after a whole number. -/
  pointed : Bool
  /-- What is written of two shortest decimals that are equally near. -/
  tie : Tie
  notANumber : String

namespace Layout

/-- Always positional, and whole numbers without a point. -/
def plain : Layout := ⟨fun _ => true, false, .larger, "NaN"⟩

/-- Always positional, and whole numbers with a point. -/
def pointedPlain : Layout := ⟨fun _ => true, true, .larger, "nan"⟩

/-- Positional when the leading digit has an exponent from `low` to `high`. -/
def bounded (low high : Int) : Layout := ⟨fun e => low ≤ e && e ≤ high, true, .even, "nan"⟩

def decimal (L : Layout) (d : Decimal) : List Char :=
  if L.isPositional d.leading then
    d.positional ++ if L.pointed && 0 ≤ d.exponent then ['.', '0'] else []
  else d.scientific

/-- The sign is written for every number but one that is not a number. -/
def write {F : Format} (L : Layout) (x : Binary F) : String :=
  if x.isNaN then L.notANumber
  else
    let magnitude := if x.isInfinite then "inf".toList else L.decimal (x.shortest L.tie)
    String.ofList (if x.negative then '-' :: magnitude else magnitude)

end Layout

def Binary.text {F : Format} (x : Binary F) : String := Layout.plain.write x

end CounterStream
