import CounterStream.Decimal.Layout
import CounterStream.Json.Number

/-!
# JSON values

A number keeps the text it is written as, since a whole number and a real one are told apart by it.
A string is `none` when its bytes are no UTF-8 or an escape in it names half of a character only:
the grammar has such strings, but they stand for no text.
-/

namespace CounterStream

inductive Json
  | null
  | bool (value : Bool)
  | number (literal : List Char)
  | string (text : Option String)
  | array (items : List Json)
  | object (members : List (Option String × Json))

namespace Json

/-! ## Making values -/

def text (s : String) : Json := string (some s)

def natural (n : Nat) : Json := number (Nat.toDigits 10 n)

def whole (n : Int) : Json := number (toString n).toList

def record (members : List (String × Json)) : Json :=
  object (members.map fun (name, value) => (some name, value))

/-- A real number that is not finite has no JSON text. -/
def real {F : Format} (L : Layout) (x : Binary F) : Json :=
  if x.isFinite then number (L.write x).toList else null

/-- Positional from a millionth to just below ten million million. -/
def single (x : Single) : Json := real (Layout.bounded (-6) 12) x

/-- Positional from a hundred-thousandth to just below ten thousand million million. -/
def double (x : Double) : Json := real (Layout.bounded (-5) 15) x

/-! ## Numbers -/

def integer? : Json → Option Int
  | number literal => Literal.integer? literal
  | _ => none

def natural? (limit : Nat) (j : Json) : Option Nat :=
  j.integer?.bind fun n => if 0 ≤ n ∧ n < limit then some n.toNat else none

def int64? (j : Json) : Option Int64 :=
  j.integer?.bind CounterStream.int64?

def double? : Json → Option Double
  | number literal => Literal.double? literal
  | _ => none

/-- A whole number is rounded once, a real number by way of a double. -/
def single? (j : Json) : Option Single :=
  match j.integer? with
  | some n => some (Binary.ofInt n)
  | none => j.double?.map Binary.convert

/-! ## Soundness -/

mutual

def depth : Json → Nat
  | array items => depthItems items + 1
  | object members => depthMembers members + 1
  | _ => 0

def depthItems : List Json → Nat
  | [] => 0
  | item :: items => max (depth item) (depthItems items)

def depthMembers : List (Option String × Json) → Nat
  | [] => 0
  | (_, value) :: members => max (depth value) (depthMembers members)

end

mutual

/-- Every string stands for a text and every number for a double. -/
def isExact : Json → Bool
  | number literal => (double? (number literal)).isSome
  | string text => text.isSome
  | array items => areExact items
  | object members => membersAreExact members
  | _ => true

def areExact : List Json → Bool
  | [] => true
  | item :: items => isExact item && areExact items

def membersAreExact : List (Option String × Json) → Bool
  | [] => true
  | (name, value) :: members => name.isSome && isExact value && membersAreExact members

end

end Json

end CounterStream
