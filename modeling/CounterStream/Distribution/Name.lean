import CounterStream.Decimal.Reader
import CounterStream.Distribution.Basic
import CounterStream.Text.Basic

/-!
# Names of distributions

A distribution is written as its name, or as its name, a colon, and its parameters with commas
between them. Reading ignores case and the blanks around the whole and around each parameter, knows
a few shorter names, and accepts only parameters that pass `Distribution.check`.
-/

namespace CounterStream.Distribution

def name : Distribution → String
  | uniformSingle => "uniform-f32"
  | uniformDouble => "uniform-f64"
  | uniformHalf => "uniform-f16"
  | uniformRange _ _ => "uniform-range"
  | uniformInteger _ _ => "uniform-int"
  | normalSingle => "normal-f32"
  | normalDouble => "normal-f64"
  | normal _ _ => "normal"
  | exponential _ => "exponential"

def parameters : Distribution → List String
  | uniformRange low high => [low.text, high.text]
  | uniformInteger low high => [toString low.toInt, toString high.toInt]
  | normal mean deviation => [mean.text, deviation.text]
  | exponential rate => [rate.text]
  | _ => []

def text (d : Distribution) : String :=
  match d.parameters with
  | [] => d.name
  | ps => d.name ++ ":" ++ ",".intercalate ps

/-! ## Reading -/

/-- The name, and the parameters if there is a colon. -/
def splitName (cs : List Char) : List Char × List (List Char) :=
  match cs.dropWhile (· ≠ ':') with
  | [] => (cs, [])
  | _ :: rest => (cs.takeWhile (· ≠ ':'), (Text.split ',' rest).map Text.trim)

def real (cs : List Char) : Except ParameterError Single :=
  match Binary.read? Format.single cs with
  | some x => .ok x
  | none => .error (.parameter (String.ofList cs))

def integer (cs : List Char) : Except ParameterError Int64 :=
  match readInt64? cs with
  | some n => .ok n
  | none => .error (.parameter (String.ofList cs))

/-- The distribution of a name and its parameters, not yet checked. -/
def ofParts (whole name : String) (params : List (List Char)) :
    Except ParameterError Distribution :=
  match name, params with
  | "uniform-f32", [] | "uniform", [] | "float", [] => .ok uniformSingle
  | "uniform-f64", [] | "double", [] => .ok uniformDouble
  | "uniform-f16", [] | "half", [] => .ok uniformHalf
  | "normal-f32", [] | "normal", [] => .ok normalSingle
  | "normal-f64", [] => .ok normalDouble
  | "uniform-range", [low, high] => do return uniformRange (← real low) (← real high)
  | "uniform-int", [low, high] => do return uniformInteger (← integer low) (← integer high)
  | "normal", [mean, deviation] => do return normal (← real mean) (← real deviation)
  | "exponential", [rate] => do return exponential (← real rate)
  | _, _ => .error (.distribution whole)

def read (s : String) : Except ParameterError Distribution := do
  let cs := Text.lower (Text.trim s.toList)
  let (name, params) := splitName cs
  let d ← ofParts (String.ofList cs) (String.ofList name) params
  d.check
  return d

end CounterStream.Distribution
