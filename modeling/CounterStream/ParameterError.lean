import CounterStream.Decimal.Layout

/-!
# Refused parameters
-/

namespace CounterStream

inductive ParameterError
  | normal (mean deviation : Single)
  | exponential (rate : Single)
  | range (low high : Single)
  | wideRange (low high : Single)
  | integerRange (low high : Int64)
  | emptyShards
  | substreams (count : Nat) (first : UInt64)
  | parameter (text : String)
  | distribution (name : String)
deriving DecidableEq

namespace ParameterError

def detail : ParameterError → String
  | normal mean deviation =>
    "normal requires finite mean and std_dev > 0, got mean=" ++ mean.text ++
      " std_dev=" ++ deviation.text
  | exponential rate => "exponential requires lambda > 0, got " ++ rate.text
  | range low high =>
    "uniform range requires finite low < high, got [" ++ low.text ++ ", " ++ high.text ++ ")"
  | wideRange low high =>
    "uniform range [" ++ low.text ++ ", " ++ high.text ++ ") is wider than f32::MAX"
  | integerRange low high =>
    "integer range [" ++ toString low.toInt ++ ", " ++ toString high.toInt ++
      ") must contain between 1 and 2^32 values"
  | emptyShards => "blocks_per_shard must be at least 1"
  | substreams count first =>
    toString count ++ " streams starting at offset " ++ toString first.toNat ++
      " overflow the 64-bit offset space"
  | parameter text => "invalid distribution parameter '" ++ text ++ "'"
  | distribution name =>
    "Unknown distribution '" ++ name ++ "'. Valid options: uniform-f32, uniform-f64, " ++
      "uniform-f16, normal-f32, normal-f64, uniform-range:LOW,HIGH, " ++
      "uniform-int:LOW,HIGH, normal:MEAN,STD, exponential:LAMBDA"

def message (e : ParameterError) : String := "Invalid parameter: " ++ e.detail

end ParameterError

end CounterStream
