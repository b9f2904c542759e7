import CounterStream.Binary.Arithmetic
import CounterStream.Decimal.Reader

/-!
# Number literals of JSON

A literal is a whole number when it has no point, no exponent, and 64 bits are enough for it. Any
literal is also a real number: its leading digits, as many as 64 bits hold, are rounded to a
double, which is then multiplied or divided by a power of ten.
-/

namespace CounterStream.Literal

/-- A whole number of at most 64 bits, signed or not. A zero with a sign is a real number. -/
def integer? (literal : List Char) : Option Int :=
  if literal = ['-', '0'] then none
  else (Decimal.integer? literal).filter fun n => Int64.minValue.toInt ≤ n && n < UInt64.size

/-- `n` with digits put after it while the number stays below 2^64, and how many are left over. -/
def absorb (n : Nat) : List Char → Nat × Nat
  | [] => (n, 0)
  | c :: cs =>
    let next := 10 * n + (c.toNat - 48)
    if next < UInt64.size then absorb next cs else (n, cs.length + 1)

def powerOfTen (e : Nat) : Double := Decimal.toBinary Format.double false ⟨1, e⟩

/-- `x * 10 ^ e`, or nothing past the largest double. Small powers are divided by in steps. -/
def scale (x : Double) (e : Int) : Option Double :=
  if x.ordinal = 0 then some x
  else if 308 < e then none
  else if 0 ≤ e then some (x * powerOfTen e.toNat) |>.filter Binary.isFinite
  else if -308 ≤ e then some (x / powerOfTen (-e).toNat)
  else scale (x / powerOfTen 308) (e + 308)
termination_by (-e).toNat

def unsignedDouble? (literal : List Char) : Option Double :=
  let rest := literal.dropWhile Char.isDigit
  let fraction :=
    match rest with
    | '.' :: cs => cs.takeWhile Char.isDigit
    | _ => []
  let exponent :=
    match rest.dropWhile fun c => c ≠ 'e' ∧ c ≠ 'E' with
    | _ :: cs => (Decimal.integer? cs).getD 0
    | [] => 0
  let (n, dropped) := absorb 0 (literal.takeWhile Char.isDigit)
  let (n, unused) := absorb n fraction
  scale (Binary.ofNat n) (exponent + dropped - (fraction.length - unused : Nat))

def double? : List Char → Option Double
  | '-' :: literal => (unsignedDouble? literal).map Binary.neg
  | literal => unsignedDouble? literal

end CounterStream.Literal
