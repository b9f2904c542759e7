import CounterStream.Decimal.Reader
import CounterStream.Toml.Basic

/-!
# Values of one word

Numbers, truth values and dates are words without blanks. A word is read by the rules of each in
turn; a date may go on with a time after one blank.
-/

namespace CounterStream.Toml

/-- Digits without the underscores between them. -/
def digits? (isDigit : Char → Bool) : List Char → Option (List Char)
  | [] => none
  | [c] => if isDigit c then some [c] else none
  | c :: '_' :: rest => if isDigit c then (digits? isDigit rest).map (c :: ·) else none
  | c :: rest => if isDigit c then (digits? isDigit rest).map (c :: ·) else none

/-- Decimal digits of which only a lone one is a leading zero. -/
def wholeDigits? (cs : List Char) : Option (List Char) :=
  if cs.head? = some '0' ∧ 1 < cs.length then none else digits? Char.isDigit cs

def splitSign : List Char → Bool × List Char
  | '-' :: cs => (true, cs)
  | '+' :: cs => (false, cs)
  | cs => (false, cs)

/-! ## Integers -/

def digitValue (c : Char) : Nat :=
  if c.isDigit then c.toNat - 48 else c.toLower.toNat - 87

/-- The value of digits in a base; each of them must be below it. -/
def based? (base : Nat) (cs : List Char) : Option Nat :=
  let isDigit (c : Char) := c.isAlphanum && digitValue c < base
  (digits? isDigit cs).map (·.foldl (fun n c => base * n + digitValue c) 0)

/-- A whole number of 64 bits. A base other than ten is named by two characters and has no sign. -/
def integer? (cs : List Char) : Option Int :=
  let n : Option Int :=
    match cs with
    | '0' :: 'x' :: cs => (based? 16 cs).map Int.ofNat
    | '0' :: 'o' :: cs => (based? 8 cs).map Int.ofNat
    | '0' :: 'b' :: cs => (based? 2 cs).map Int.ofNat
    | cs =>
      let (negative, cs) := splitSign cs
      (wholeDigits? cs).map fun ds =>
        if negative then -(Decimal.ofDigits ds : Int) else Decimal.ofDigits ds
  n.filter fun n => (CounterStream.int64? n).isSome

/-! ## Reals -/

def isExponentMark (c : Char) : Bool := c = 'e' || c = 'E'

/-- The digits of a real number without its sign and its underscores. It has a point with digits on
both sides, or an exponent, or both. -/
def realDigits? (cs : List Char) : Option (List Char) := do
  let body := cs.takeWhile fun c => !isExponentMark c
  let exponent ← match cs.dropWhile fun c => !isExponentMark c with
    | [] => some none
    | _ :: '+' :: cs => (digits? Char.isDigit cs).map some
    | _ :: '-' :: cs => (digits? Char.isDigit cs).map fun ds => some ('-' :: ds)
    | _ :: cs => (digits? Char.isDigit cs).map some
  let whole ← wholeDigits? (body.takeWhile (· ≠ '.'))
  let fraction ← match body.dropWhile (· ≠ '.') with
    | [] => some none
    | _ :: cs => (digits? Char.isDigit cs).map some
  match fraction, exponent with
  | none, none => none
  | some fraction, none => return whole ++ '.' :: fraction
  | none, some exponent => return whole ++ 'e' :: exponent
  | some fraction, some exponent => return whole ++ '.' :: fraction ++ 'e' :: exponent

/-- A real number. One too large to be finite is refused, unless it is negative. -/
def real? (cs : List Char) : Option Double :=
  let (negative, magnitude) := splitSign cs
  if magnitude = ['i', 'n', 'f'] then some (Binary.infinite negative)
  else if magnitude = ['n', 'a', 'n'] then some { (Binary.nan : Double) with negative }
  else
    ((realDigits? magnitude).bind (Binary.unsigned? Format.double negative)).filter
      fun x => negative || !x.isInfinite

/-! ## Dates and times -/

def pair? (a b : Char) (limit : Nat) : Option Nat :=
  if a.isDigit && b.isDigit && Decimal.ofDigits [a, b] ≤ limit then
    some (Decimal.ofDigits [a, b])
  else none

def daysIn (year month : Nat) : Nat :=
  if month = 2 then
    if year % 4 = 0 ∧ (year % 100 ≠ 0 ∨ year % 400 = 0) then 29 else 28
  else if month = 4 ∨ month = 6 ∨ month = 9 ∨ month = 11 then 30
  else 31

/-- The rest of a word after a full date. -/
def afterDate? : List Char → Option (List Char)
  | y0 :: y1 :: y2 :: y3 :: '-' :: m0 :: m1 :: '-' :: d0 :: d1 :: rest => do
    let month ← pair? m0 m1 12
    let day ← pair? d0 d1 31
    let year := [y0, y1, y2, y3]
    if year.all Char.isDigit ∧ 1 ≤ month ∧ 1 ≤ day ∧ day ≤ daysIn (Decimal.ofDigits year) month
    then return rest
    else none
  | _ => none

/-- The rest of a word after a time of day; a minute may have a sixty-first second. -/
def afterTime? : List Char → Option (List Char)
  | h0 :: h1 :: ':' :: m0 :: m1 :: ':' :: s0 :: s1 :: rest => do
    let _ ← pair? h0 h1 23
    let _ ← pair? m0 m1 59
    let _ ← pair? s0 s1 60
    match rest with
    | '.' :: c :: rest => if c.isDigit then return rest.dropWhile Char.isDigit else none
    | rest => return rest
  | _ => none

def isOffset : List Char → Bool
  | [] => true
  | ['Z'] | ['z'] => true
  | [sign, h0, h1, ':', m0, m1] =>
    (sign = '+' || sign = '-') && (pair? h0 h1 23).isSome && (pair? m0 m1 59).isSome
  | _ => false

/-- A time of day, perhaps with the distance from universal time. -/
def isTime (cs : List Char) : Bool := (afterTime? cs).any isOffset

def isDatetime (cs : List Char) : Bool :=
  afterTime? cs = some [] ||
    match afterDate? cs with
    | some [] => true
    | some (c :: rest) => (c = 'T' || c = 't') && isTime rest
    | none => false

/-! ## Words -/

def isWordChar (c : Char) : Bool :=
  c.isAlphanum || c = '_' || c = '+' || c = '-' || c = '.' || c = ':'

def ofWord? (cs : List Char) : Option Toml :=
  if cs = "true".toList then some (boolean true)
  else if cs = "false".toList then some (boolean false)
  else if isDatetime cs then some (datetime cs)
  else match integer? cs with
    | some n => some (integer n)
    | none => (real? cs).map float

/-- A word, and the time that may follow a date. -/
def word? (cs : List Char) : Option (Toml × List Char) := do
  let word := cs.takeWhile isWordChar
  let rest := cs.dropWhile isWordChar
  let time := match rest with
    | ' ' :: rest => rest.takeWhile isWordChar
    | _ => []
  if afterDate? word = some [] ∧ isTime time then
    return (datetime (word ++ ' ' :: time), rest.drop (time.length + 1))
  else return (← ofWord? word, rest)

end CounterStream.Toml
