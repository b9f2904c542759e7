import CounterStream.Distribution.Basic
import CounterStream.Json.Basic
import CounterStream.Sampling.Fill

/-!
# Samples

The samples of a distribution, and their texts.
-/

namespace CounterStream

/-- A half-precision number is written as the single-precision number it equals. -/
def Half.text (x : Half) : String := (x.convert : Single).text

namespace SampleType

def text : (t : SampleType) → t.Value → String
  | half, x => Half.text x
  | single, x => Binary.text (F := Format.single) x
  | double, x => Binary.text (F := Format.double) x
  | integer, x => toString (Int64.toInt x)

/-- A half-precision number has no JSON form of its own; its bits stand for it. -/
def json : (t : SampleType) → t.Value → Json
  | half, x => Json.natural (Binary.bits (F := Format.half) x)
  | single, x => Json.single x
  | double, x => Json.double x
  | integer, x => Json.whole (Int64.toInt x)

end SampleType

structure Samples where
  type : SampleType
  values : List type.Value

namespace Samples

def length (s : Samples) : Nat := s.values.length

def texts (s : Samples) : List String := s.values.map s.type.text

def toJson (s : Samples) : Json := .array (s.values.map s.type.json)

end Samples

namespace Distribution

/-- So many samples by a fill that moves the engine in place. The parameters are checked first, then
the sharding. There is room for samples of any count. -/
def draw (d : Distribution) (sharding : Sharding) (count : Nat) :
    EStateM ParameterError Engine Samples := do
  let sampler ← MonadExcept.ofExcept d.build
  MonadExcept.ofExcept sharding.check
  let values ← modifyGet (sampler.fill sharding · (List.replicate count default))
  return ⟨d.sampleType, values⟩

def generate (d : Distribution) (sharding : Sharding) (e : Engine) (count : Nat) :
    Except ParameterError (Samples × Engine) :=
  match (d.draw sharding count).run e with
  | .ok samples e => .ok (samples, e)
  | .error cause _ => .error cause

end Distribution

end CounterStream
