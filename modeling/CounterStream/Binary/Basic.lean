/-!
# Binary floating-point numbers

A format has so many stored fraction bits and exponent bits. A number of the format is a sign and
an ordinal: its remaining bits, read as a number. Ordinals grow with the magnitude, so the
neighbours of a number are the neighbours of its ordinal.

Each finite magnitude is a whole multiple of the smallest positive one, the unit. All arithmetic is
done on these multiples, and `Format.nearest` rounds a fraction of units to the nearest ordinal,
a tie to the even one.
-/

namespace CounterStream

/-- The whole number nearest to `num / den`, of two the even one. -/
def roundEven (num den : Nat) : Nat :=
  let below := num / den
  let rest := 2 * (num % den)
  if den < rest ∨ (rest = den ∧ below % 2 = 1) then below + 1 else below

structure Format where
  fractionBits : Nat
  exponentBits : Nat

namespace Format

def half : Format := ⟨10, 5⟩
def single : Format := ⟨23, 8⟩
def double : Format := ⟨52, 11⟩

/-- The ordinals from one power of two to the next. -/
def binade (F : Format) : Nat := 1 <<< F.fractionBits

def exponents (F : Format) : Nat := 1 <<< F.exponentBits

/-- Ordinals lie below this. -/
def ordinals (F : Format) : Nat := F.exponents * F.binade

/-- The ordinal of infinity; the larger ones are not numbers. -/
def infinity (F : Format) : Nat := (F.exponents - 1) * F.binade

/-- The unit is `2 ^ (-places)`. -/
def places (F : Format) : Nat := F.exponents / 2 - 2 + F.fractionBits

/-- The units that make one. -/
def one (F : Format) : Nat := 1 <<< F.places

/-- The magnitude of a finite ordinal, in units. -/
def units (F : Format) (n : Nat) : Nat :=
  if n < F.binade then n else (F.binade + n % F.binade) <<< (n / F.binade - 1)

/-- The ordinal nearest to `num / den` units. With `s` the number of low bits that do not fit,
the ordinal is `s` whole binades and the bits that do; a carry out of these goes to the exponent. -/
def nearest (F : Format) (num den : Nat) : Nat :=
  let s := (num / den).log2 - F.fractionBits
  min (s * F.binade + roundEven num (den <<< s)) F.infinity

theorem binade_pos (F : Format) : 0 < F.binade := by
  simp only [binade, Nat.one_shiftLeft, Nat.two_pow_pos]

theorem exponents_pos (F : Format) : 0 < F.exponents := by
  simp only [exponents, Nat.one_shiftLeft, Nat.two_pow_pos]

theorem infinity_add_binade (F : Format) : F.infinity + F.binade = F.ordinals := by
  rw [infinity, ← Nat.succ_mul, Nat.succ_eq_add_one, Nat.sub_add_cancel F.exponents_pos, ordinals]

theorem infinity_lt_ordinals (F : Format) : F.infinity < F.ordinals :=
  F.infinity_add_binade ▸ Nat.lt_add_of_pos_right F.binade_pos

theorem nearest_le_infinity (F : Format) (num den : Nat) : F.nearest num den ≤ F.infinity :=
  Nat.min_le_right _ _

end Format

structure Binary (F : Format) where
  negative : Bool
  ordinal : Nat
  ordinal_lt : ordinal < F.ordinals
deriving DecidableEq

abbrev Half := Binary Format.half
abbrev Single := Binary Format.single
abbrev Double := Binary Format.double

namespace Binary

variable {F G : Format}

/-! ## Bits -/

/-- The sign bit stands above the ordinal. -/
def bits (x : Binary F) : Nat := (if x.negative then F.ordinals else 0) + x.ordinal

/-- Bits past the sign are ignored. -/
def ofBits (F : Format) (n : Nat) : Binary F where
  negative := n / F.ordinals % 2 == 1
  ordinal := n % F.ordinals
  ordinal_lt := Nat.mod_lt _ (Nat.zero_lt_of_lt F.infinity_lt_ordinals)

/-! ## Classes -/

def isFinite (x : Binary F) : Bool := x.ordinal < F.infinity
def isInfinite (x : Binary F) : Bool := x.ordinal == F.infinity
def isNaN (x : Binary F) : Bool := F.infinity < x.ordinal

/-! ## Special numbers -/

def zero (negative : Bool) : Binary F where
  negative
  ordinal := 0
  ordinal_lt := Nat.zero_lt_of_lt F.infinity_lt_ordinals

def infinite (negative : Bool) : Binary F where
  negative
  ordinal := F.infinity
  ordinal_lt := F.infinity_lt_ordinals

/-- The first ordinal past infinity whose top fraction bit is set. -/
def nan : Binary F where
  negative := false
  ordinal := F.infinity + F.binade / 2
  ordinal_lt := by
    have := F.binade_pos
    have := F.infinity_add_binade
    omega

/-! ## Exact values -/

/-- The value of a finite number, in units. -/
def units (x : Binary F) : Int :=
  if x.negative then -(F.units x.ordinal : Int) else F.units x.ordinal

/-- The number nearest to `num / den` units, with the given sign. -/
def ofUnits (negative : Bool) (num den : Nat) : Binary F where
  negative
  ordinal := F.nearest num den
  ordinal_lt := Nat.lt_of_le_of_lt (F.nearest_le_infinity num den) F.infinity_lt_ordinals

def ofRatio (negative : Bool) (num den : Nat) : Binary F :=
  ofUnits negative (num * F.one) den

def ofNat (n : Nat) : Binary F := ofRatio false n 1

def ofInt (n : Int) : Binary F := ofRatio (n < 0) n.natAbs 1

/-! ## Order -/

/-- The position of a number in the order of its format; both zeros stand at one place. -/
def rank (x : Binary F) : Int := if x.negative then -(x.ordinal : Int) else x.ordinal

def lt (x y : Binary F) : Bool := !x.isNaN && !y.isNaN && x.rank < y.rank

def le (x y : Binary F) : Bool := !x.isNaN && !y.isNaN && x.rank ≤ y.rank

/-- Equality of numbers: the zeros are equal, and nothing equals what is not a number. -/
def eq (x y : Binary F) : Bool := !x.isNaN && !y.isNaN && x.rank == y.rank

/-- The smaller number; what is not a number gives way. -/
def min (x y : Binary F) : Binary F :=
  if x.isNaN then y else if y.isNaN then x else if x.rank < y.rank then x else y

def max (x y : Binary F) : Binary F :=
  if x.isNaN then y else if y.isNaN then x else if x.rank < y.rank then y else x

/-- The largest number below a finite one. -/
def below (x : Binary F) : Binary F :=
  if x.ordinal = 0 then
    if h : 1 < F.ordinals then ⟨true, 1, h⟩ else x
  else if x.negative then
    if h : x.ordinal + 1 < F.ordinals then ⟨true, x.ordinal + 1, h⟩ else x
  else ⟨false, x.ordinal - 1, Nat.lt_of_le_of_lt (Nat.sub_le _ _) x.ordinal_lt⟩

end Binary

end CounterStream
