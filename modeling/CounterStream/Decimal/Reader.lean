import CounterStream.Decimal.Basic

/-!
# Reading numbers

The texts of numbers in names and on the command line: a sign, then digits for a whole number, and
digits with a point and an exponent, or a word for infinity or not-a-number, for a real one.
-/

namespace CounterStream

namespace Decimal

def ofDigits (digits : List Char) : Nat := Nat.ofDigitChars 10 digits 0

/-- A whole number: at least one digit and nothing else. -/
def natural? (cs : List Char) : Option Nat :=
  if cs ≠ [] ∧ cs.all Char.isDigit then some (ofDigits cs) else none

/-- A whole number after at most one sign. -/
def integer? : List Char → Option Int
  | '-' :: cs => (natural? cs).map fun n => -(n : Int)
  | '+' :: cs => (natural? cs).map Int.ofNat
  | cs => (natural? cs).map Int.ofNat

/-- The value of the digits of an exponent. Once it has reached 65536, further digits are passed
over. -/
def exponentOfDigits (digits : List Char) : Nat :=
  digits.foldl (fun e c => if e < 65536 then 10 * e + (c.toNat - 48) else e) 0

/-- An exponent after at most one sign. -/
def exponent? (cs : List Char) : Option Int :=
  match cs with
  | '-' :: digits => (natural? digits).map fun _ => -(exponentOfDigits digits : Int)
  | '+' :: digits => (natural? digits).map fun _ => exponentOfDigits digits
  | digits => (natural? digits).map fun _ => exponentOfDigits digits

/-- Digits, with a point among them or at an end, and at most one exponent. -/
def unsigned? (cs : List Char) : Option Decimal :=
  let whole := cs.takeWhile Char.isDigit
  let rest := cs.dropWhile Char.isDigit
  let (fraction, rest) :=
    match rest with
    | '.' :: rest => (rest.takeWhile Char.isDigit, rest.dropWhile Char.isDigit)
    | rest => ([], rest)
  if whole = [] ∧ fraction = [] then none
  else
    let coefficient := ofDigits (whole ++ fraction)
    match rest with
    | [] => some ⟨coefficient, -fraction.length⟩
    | c :: rest =>
      if c = 'e' ∨ c = 'E' then
        (exponent? rest).map fun e => ⟨coefficient, e - fraction.length⟩
      else none

end Decimal

namespace Binary

/-- The words for infinity and not-a-number count in any case; all else is a decimal number. -/
def unsigned? (F : Format) (negative : Bool) (cs : List Char) : Option (Binary F) :=
  let word := String.ofList (cs.map Char.toLower)
  if word = "inf" ∨ word = "infinity" then some (infinite negative)
  else if word = "nan" then some { (nan : Binary F) with negative }
  else (Decimal.unsigned? cs).map (·.toBinary F negative)

/-- A real number after at most one sign. -/
def read? (F : Format) : List Char → Option (Binary F)
  | '-' :: cs => unsigned? F true cs
  | '+' :: cs => unsigned? F false cs
  | cs => unsigned? F false cs

end Binary

/-! ## Whole numbers of 64 bits

A whole number that is read has no bounds of its own; here it is fitted into 64 bits or refused.
-/

/-- The signed integer of 64 bits that equals `n`. -/
def int64? (n : Int) : Option Int64 :=
  if Int64.minValue.toInt ≤ n ∧ n ≤ Int64.maxValue.toInt then some (Int64.ofInt n) else none

/-- The unsigned integer of 64 bits that equals `n`. -/
def uint64? (n : Int) : Option UInt64 :=
  if 0 ≤ n ∧ n < UInt64.size then some (UInt64.ofNat n.toNat) else none

def readInt64? (cs : List Char) : Option Int64 :=
  (Decimal.integer? cs).bind int64?

/-- A whole number of 64 bits, with no minus before it. -/
def readUInt64? (cs : List Char) : Option UInt64 :=
  if cs.head? = some '-' then none
  else (Decimal.integer? cs).bind uint64?

end CounterStream
