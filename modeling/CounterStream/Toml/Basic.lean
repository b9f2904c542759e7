import CounterStream.Binary.Arithmetic

/-!
# TOML values

A table carries how it came to be, since that decides whether the document may still add to it.
-/

namespace CounterStream

/-- How a table came to be: by a header, as a step to a longer header, as a step of a dotted key, or
between braces. -/
inductive TableOrigin
  | header
  | implied
  | dotted
  | inline
deriving DecidableEq

inductive Toml
  | string (text : String)
  | integer (value : Int)
  | float (value : Double)
  | boolean (value : Bool)
  | datetime (literal : List Char)
  | array (items : List Toml)
  | table (origin : TableOrigin) (entries : List (String × Toml))
  | tables (items : List (List (String × Toml)))

namespace Toml

abbrev Entries := List (String × Toml)

def int64? : Toml → Option Int64
  | integer n => some (Int64.ofInt n)
  | _ => none

def uint64? : Toml → Option UInt64
  | integer n => if 0 ≤ n then some (UInt64.ofNat n.toNat) else none
  | _ => none

/-- A whole number is rounded once, a real number is rounded from its double. -/
def single? : Toml → Option Single
  | integer n => some (Binary.ofInt n)
  | float x => some x.convert
  | _ => none

end Toml

end CounterStream
