import CounterStream.Binary.Elementary
import CounterStream.Decimal.Basic
import CounterStream.Block

/-!
# Words as real numbers

The low bits of a word are the fraction of a number from one to two, and one is taken away, so a
uniform real is never rounded. Two uniform reals are a radius and an angle of a point whose
coordinates are independent standard normals.
-/

namespace CounterStream

/-! ## Uniform reals -/

namespace Uniform

/-- The number from one to two whose fraction bits are the low bits of `n`. -/
def fromOne (F : Format) (n : Nat) : Binary F :=
  Binary.ofBits F ((Binary.ofNat 1 : Binary F).bits + n % F.binade)

def single (w : UInt32) : Single := fromOne Format.single w.toNat - Binary.ofNat 1

/-- The low 20 bits of the first word above the second word. -/
def double (high low : UInt32) : Double :=
  fromOne Format.double (high.toNat * UInt32.size + low.toNat) - Binary.ofNat 1

/-- One is taken away in single precision, where the difference is exact. -/
def half (n : UInt16) : Half :=
  ((fromOne Format.half n.toNat).convert - (Binary.ofNat 1 : Single)).convert

end Uniform

/-! ## Pairs of normals -/

namespace Normal

variable {F : Format}

/-- The least number a logarithm is taken of. -/
def least : Binary F := Decimal.toBinary F false ⟨1, -7⟩

def pi : Binary F := Decimal.toBinary F false ⟨31415926535897932384626433832795, -31⟩

/-- The point at the radius of `u` and the angle of `v`, sine first. -/
def pair (u v : Binary F) : Binary F × Binary F :=
  let angle := Binary.ofNat 2 * pi * v
  let radius := ((Binary.ofNat 2).neg * (u.max least).log).sqrt
  (angle.sin * radius, angle.cos * radius)

def pairOfWords (a b : UInt32) : Single × Single := pair (Uniform.single a) (Uniform.single b)

def pairOfBlock (b : Block) : Double × Double :=
  pair (Uniform.double b.w0 b.w1) (Uniform.double b.w2 b.w3)

end Normal

end CounterStream
