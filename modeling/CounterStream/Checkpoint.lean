import CounterStream.Engine
import CounterStream.Json.Printer
import CounterStream.Json.Reader
import CounterStream.Distribution.Record

/-!
# Checkpoints

An engine is stored as 24 bytes, the words of its counter and then of its key with the low byte
first, or as a JSON record of the two. What is stored tells which it is by its length.
-/

namespace CounterStream

/-- The only way that bytes fail to be an engine: there are too many or too few. -/
structure LengthError where
  length : Nat
deriving DecidableEq

def LengthError.message (e : LengthError) : String :=
  "Invalid state: expected 24 bytes, got " ++ toString e.length ++ " (SizeMismatch)"

namespace Engine

/-! ## Bytes -/

def toBytes (e : Engine) : List UInt8 :=
  (e.counter.words ++ [e.key.low, e.key.high]).flatMap Word.bytes

def ofBytes (bytes : List UInt8) : Except LengthError Engine :=
  if bytes.length = 24 then
    match Word.listOfBytes bytes with
    | [w0, w1, w2, w3, low, high] => .ok ⟨⟨w0, w1, w2, w3⟩, ⟨low, high⟩⟩
    | _ => .error ⟨bytes.length⟩
  else .error ⟨bytes.length⟩

/-! ## JSON -/

def toJson (e : Engine) : Json :=
  Json.record [
    ("counter", .array (e.counter.words.map fun w => Json.natural w.toNat)),
    ("key", .array [Json.natural e.key.low.toNat, Json.natural e.key.high.toNat])]

def word? (j : Json) : Option UInt32 := (j.natural? UInt32.size).map UInt32.ofNat

def counter? : Json → Option Counter
  | .array [a, b, c, d] => do return ⟨← word? a, ← word? b, ← word? c, ← word? d⟩
  | _ => none

def key? : Json → Option Key
  | .array [a, b] => do return ⟨← word? a, ← word? b⟩
  | _ => none

/-- The record, whose other members are passed over, or the list of its two values. -/
def ofJson? : Json → Option Engine
  | .object members =>
    if members.all (·.1.isSome) then do
      return ⟨← counter? (← Json.once? "counter" members), ← key? (← Json.once? "key" members)⟩
    else none
  | .array [counter, key] => do return ⟨← counter? counter, ← key? key⟩
  | _ => none

end Engine

/-! ## Stored engines -/

namespace Checkpoint

inductive Encoding
  | binary
  | json
deriving DecidableEq

def write (encoding : Encoding) (e : Engine) : List UInt8 :=
  match encoding with
  | .binary => e.toBytes
  | .json => (e.toJson.prettyText ++ "\n").toUTF8.toList

/-- Exactly 24 bytes are an engine as bytes, and all else has to be JSON. -/
def read? (bytes : List UInt8) : Option (Engine × Encoding) :=
  if bytes.length = 24 then (Engine.ofBytes bytes).toOption.map (·, .binary)
  else do
    let value ← Json.ofBytes? bytes
    return (← Engine.ofJson? value, .json)

end Checkpoint

end CounterStream
