import CounterStream.Json.Basic
import CounterStream.Text.Basic

/-!
# Reading JSON

A JSON text is read as bytes, each given as the character of its number, since every mark of the
grammar is a single byte; only what stands in a string is decoded. Every reader takes the text and
gives what it read and the text that is left. The reader of values takes a bound on the steps; twice
the length of the text is always enough.
-/

namespace CounterStream.Json

def isBlank (c : Char) : Bool := c = ' ' || c = '\n' || c = '\t' || c = '\r'

def skipBlanks (cs : List Char) : List Char := cs.dropWhile isBlank

/-! ## Numbers -/

def digits? (cs : List Char) : Option (List Char × List Char) :=
  match cs.takeWhile Char.isDigit with
  | [] => none
  | digits => some (digits, cs.dropWhile Char.isDigit)

/-- The digits before the point: a leading zero stands alone. -/
def wholePart? : List Char → Option (List Char × List Char)
  | '0' :: cs =>
    match cs with
    | c :: _ => if c.isDigit then none else some (['0'], cs)
    | [] => some (['0'], cs)
  | cs => digits? cs

def fractionPart? : List Char → Option (List Char × List Char)
  | '.' :: cs => (digits? cs).map fun (digits, rest) => ('.' :: digits, rest)
  | cs => some ([], cs)

def exponentPart? : List Char → Option (List Char × List Char)
  | [] => some ([], [])
  | c :: cs =>
    if c = 'e' ∨ c = 'E' then
      match cs with
      | '+' :: cs => (digits? cs).map fun (digits, rest) => (c :: '+' :: digits, rest)
      | '-' :: cs => (digits? cs).map fun (digits, rest) => (c :: '-' :: digits, rest)
      | cs => (digits? cs).map fun (digits, rest) => (c :: digits, rest)
    else some ([], c :: cs)

def unsigned? (cs : List Char) : Option (List Char × List Char) := do
  let (whole, rest) ← wholePart? cs
  let (fraction, rest) ← fractionPart? rest
  let (exponent, rest) ← exponentPart? rest
  return (whole ++ fraction ++ exponent, rest)

def number? : List Char → Option (List Char × List Char)
  | '-' :: cs => (unsigned? cs).map fun (literal, rest) => ('-' :: literal, rest)
  | cs => unsigned? cs

/-! ## Strings -/

/-- The number of four hexadecimal digits. -/
def unit? (a b c d : Char) : Option Nat := do
  let a ← Text.hexDigit? a
  let b ← Text.hexDigit? b
  let c ← Text.hexDigit? c
  let d ← Text.hexDigit? d
  return ((a * 16 + b) * 16 + c) * 16 + d

def escaped? : Char → Option Char
  | '"' => some '"'
  | '\\' => some '\\'
  | '/' => some '/'
  | 'b' => some '\x08'
  | 'f' => some '\x0c'
  | 'n' => some '\n'
  | 'r' => some '\r'
  | 't' => some '\t'
  | _ => none

def isHighHalf (n : Nat) : Bool := 0xd800 ≤ n && n < 0xdc00

def isLowHalf (n : Nat) : Bool := 0xdc00 ≤ n && n < 0xe000

/-- The units of a string up to its closing quote: a byte, or a unit of 16 bits named by its
number. -/
def units? : List Char → Option (List (UInt8 ⊕ Nat) × List Char)
  | [] => none
  | '"' :: rest => some ([], rest)
  | '\\' :: 'u' :: a :: b :: c :: d :: rest => do
    let n ← unit? a b c d
    let (units, rest) ← units? rest
    return (.inr n :: units, rest)
  | '\\' :: c :: rest => do
    let c ← escaped? c
    let (units, rest) ← units? rest
    return (.inl c.toUInt8 :: units, rest)
  | c :: rest =>
    if c.toNat < 32 ∨ c = '\\' then none
    else (units? rest).map fun (units, rest) => (.inl c.toUInt8 :: units, rest)

/-- The bytes of units: the halves of a character must stand together. -/
def bytesOfUnits : List (UInt8 ⊕ Nat) → Option (List UInt8)
  | [] => some []
  | .inl byte :: units => (bytesOfUnits units).map (byte :: ·)
  | .inr high :: .inr low :: units =>
    if isHighHalf high then
      if isLowHalf low then
        let c := Char.ofNat (0x10000 + (high - 0xd800) * 0x400 + (low - 0xdc00))
        (bytesOfUnits units).map (String.utf8EncodeChar c ++ ·)
      else none
    else if isLowHalf high then none
    else (bytesOfUnits (.inr low :: units)).map (String.utf8EncodeChar (Char.ofNat high) ++ ·)
  | .inr n :: units =>
    if isHighHalf n || isLowHalf n then none
    else (bytesOfUnits units).map (String.utf8EncodeChar (Char.ofNat n) ++ ·)

def textOfUnits (units : List (UInt8 ⊕ Nat)) : Option String := do
  String.fromUTF8? ⟨(← bytesOfUnits units).toArray⟩

/-- A string whose opening quote is read. -/
def string? (cs : List Char) : Option (Option String × List Char) :=
  (units? cs).map fun (units, rest) => (textOfUnits units, rest)

/-! ## Values -/

mutual

def value? : Nat → List Char → Option (Json × List Char)
  | 0, _ => none
  | fuel + 1, cs =>
    match skipBlanks cs with
    | 'n' :: 'u' :: 'l' :: 'l' :: rest => some (null, rest)
    | 't' :: 'r' :: 'u' :: 'e' :: rest => some (bool true, rest)
    | 'f' :: 'a' :: 'l' :: 's' :: 'e' :: rest => some (bool false, rest)
    | '"' :: rest => (string? rest).map fun (text, rest) => (string text, rest)
    | '[' :: rest =>
      match skipBlanks rest with
      | ']' :: rest => some (array [], rest)
      | rest => (items? fuel rest).map fun (items, rest) => (array items, rest)
    | '\x7b' :: rest =>
      match skipBlanks rest with
      | '\x7d' :: rest => some (object [], rest)
      | rest => (members? fuel rest).map fun (members, rest) => (object members, rest)
    | rest => (number? rest).map fun (literal, rest) => (number literal, rest)

/-- The items of an array from one on, and its end. -/
def items? : Nat → List Char → Option (List Json × List Char)
  | 0, _ => none
  | fuel + 1, cs => do
    let (item, rest) ← value? fuel cs
    match skipBlanks rest with
    | ']' :: rest => return ([item], rest)
    | ',' :: rest =>
      let (items, rest) ← items? fuel rest
      return (item :: items, rest)
    | _ => none

/-- The members of an object from one on, and its end. -/
def members? : Nat → List Char → Option (List (Option String × Json) × List Char)
  | 0, _ => none
  | fuel + 1, cs =>
    match skipBlanks cs with
    | '"' :: rest => do
      let (name, rest) ← string? rest
      match skipBlanks rest with
      | ':' :: rest =>
        let (value, rest) ← value? fuel rest
        match skipBlanks rest with
        | '\x7d' :: rest => return ([(name, value)], rest)
        | ',' :: rest =>
          let (members, rest) ← members? fuel rest
          return ((name, value) :: members, rest)
        | _ => none
      | _ => none
    | _ => none

end

def ofBytes? (bytes : List UInt8) : Option Json := do
  let cs := bytes.map fun b => Char.ofNat b.toNat
  let (value, rest) ← value? (2 * cs.length + 2) cs
  if skipBlanks rest = [] then some value else none

def ofText? (s : String) : Option Json := ofBytes? s.toUTF8.toList

end CounterStream.Json
