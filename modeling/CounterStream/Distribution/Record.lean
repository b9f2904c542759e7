import CounterStream.Distribution.Name
import CounterStream.Json.Basic

/-!
# Distributions as records

In a document a distribution is a record with its name under `type` and its parameters under names
of their own, or the list of the name and the parameters. Reading checks no parameter.
-/

namespace CounterStream

namespace Distribution

def parameterNames : String → List String
  | "uniform-range" | "uniform-int" => ["low", "high"]
  | "normal" => ["mean", "std_dev"]
  | "exponential" => ["lambda"]
  | _ => []

/-- The distribution of a full name and of parameters in their order, each given as a value of `α`.
-/
def ofValues? {α : Type} (real? : α → Option Single) (integer? : α → Option Int64)
    (name : String) (values : List α) : Option Distribution :=
  match name, values with
  | "uniform-f32", [] => some uniformSingle
  | "uniform-f64", [] => some uniformDouble
  | "uniform-f16", [] => some uniformHalf
  | "normal-f32", [] => some normalSingle
  | "normal-f64", [] => some normalDouble
  | "uniform-range", [low, high] => do return uniformRange (← real? low) (← real? high)
  | "uniform-int", [low, high] => do return uniformInteger (← integer? low) (← integer? high)
  | "normal", [mean, deviation] => do return normal (← real? mean) (← real? deviation)
  | "exponential", [rate] => do return exponential (← real? rate)
  | _, _ => none

end Distribution

namespace Json

/-- The value of a member that is there exactly once. -/
def once? (name : String) (members : List (Option String × Json)) : Option Json :=
  match members.filter (·.1 = some name) with
  | [(_, value)] => some value
  | _ => none

end Json

namespace Distribution

def parameterValues : Distribution → List Json
  | uniformRange low high => [Json.single low, Json.single high]
  | uniformInteger low high => [Json.whole low.toInt, Json.whole high.toInt]
  | normal mean deviation => [Json.single mean, Json.single deviation]
  | exponential rate => [Json.single rate]
  | _ => []

def toJson (d : Distribution) : Json :=
  Json.record (("type", Json.text d.name) :: (parameterNames d.name).zip d.parameterValues)

/-- Members that the distribution does not have are passed over, but they may hold no value nested
deeper than 127 and no string or number without a meaning. -/
def ofJson? (j : Json) : Option Distribution :=
  if j.isExact && j.depth < 128 then
    match j with
    | .object members => do
      match ← Json.once? "type" members with
      | .string (some name) =>
        ofValues? Json.single? Json.int64? name
          (← (parameterNames name).mapM (Json.once? · members))
      | _ => none
    | .array (.string (some name) :: values) => ofValues? Json.single? Json.int64? name values
    | _ => none
  else none

end Distribution

end CounterStream
