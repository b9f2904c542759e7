import CounterStream.Distribution.Record
import CounterStream.Sampling.Fill
import CounterStream.Toml.Printer
import CounterStream.Toml.Reader

/-!
# Configurations

A configuration says where a stream starts, what is sampled from it and how fills are cut up. It is
a TOML document in which every part may be missing.
-/

namespace CounterStream

structure Config where
  seed : Option Int64 := none
  offset : UInt64 := 0
  distribution : Distribution := .uniformSingle
  sharding : Sharding := {}
deriving DecidableEq

inductive ConfigError
  | unreadable
  | unwritable
  | parameter (cause : ParameterError)
deriving DecidableEq

/-- What a reader or a printer of TOML has to say against a document is left out. -/
def ConfigError.message : ConfigError → String
  | unreadable | unwritable => "Configuration error"
  | parameter cause => "Configuration error: " ++ cause.message

/-! ## Parts of a document -/

/-- The record of a distribution, or the list of its name and parameters. -/
def Distribution.ofToml? : Toml → Option Distribution
  | .table _ entries => do
    match ← Toml.find? "type" entries with
    | .string name =>
      ofValues? Toml.single? Toml.int64? name
        (← (parameterNames name).mapM (Toml.find? · entries))
    | _ => none
  | .array (.string name :: values) => ofValues? Toml.single? Toml.int64? name values
  | _ => none

def Distribution.toToml (d : Distribution) : Toml.Entries :=
  let real (x : Single) : Toml := .float x.convert
  let integer (n : Int64) : Toml := .integer n.toInt
  let values := match d with
    | uniformRange low high => [real low, real high]
    | uniformInteger low high => [integer low, integer high]
    | normal mean deviation => [real mean, real deviation]
    | exponential rate => [real rate]
    | _ => []
  ("type", .string d.name) :: (parameterNames d.name).zip values

def Toml.uint64Or? (default : UInt64) : Option Toml → Option UInt64
  | none => some default
  | some value => value.uint64?

/-- A table or a list of the two numbers, either of which may be missing. A date has no such
entries, so both are missing from it. -/
def Sharding.ofToml? (value : Toml) : Option Sharding :=
  let ofParts (threshold blocks : Option Toml) : Option Sharding := do
    return {
      threshold := ← Toml.uint64Or? ({} : Sharding).threshold threshold
      blocks := ← Toml.uint64Or? ({} : Sharding).blocks blocks }
  match value with
  | .table _ entries =>
    ofParts (Toml.find? "parallel_threshold" entries) (Toml.find? "blocks_per_shard" entries)
  | .array items => ofParts items[0]? items[1]?
  | .datetime _ => some {}
  | _ => none

namespace Config

/-- The distribution is checked before the sharding. -/
def check (c : Config) : Except ConfigError Unit := do
  c.distribution.check.mapError .parameter
  c.sharding.check.mapError .parameter

/-- What a document says; keys that mean nothing here are passed over. -/
def ofEntries? (entries : Toml.Entries) : Option Config := do
  let seed ← match Toml.find? "seed" entries with
    | none => some none
    | some value => value.int64?.map some
  let offset ← Toml.uint64Or? 0 (Toml.find? "offset" entries)
  let distribution ← match Toml.find? "distribution" entries with
    | none => some .uniformSingle
    | some value => Distribution.ofToml? value
  let sharding ← match Toml.find? "fill" entries with
    | none => some {}
    | some value => Sharding.ofToml? value
  return { seed, offset, distribution, sharding }

def ofText (s : String) : Except ConfigError Config :=
  match (Toml.document? s).bind ofEntries? with
  | none => .error .unreadable
  | some c => do
    c.check
    return c

def toText (c : Config) : Except ConfigError String :=
  let seed := match c.seed with
    | none => []
    | some seed => [("seed", .integer seed.toInt)]
  let fill := [
    ("parallel_threshold", .integer c.sharding.threshold.toNat),
    ("blocks_per_shard", .integer c.sharding.blocks.toNat)]
  let document := Toml.write? (seed ++ [("offset", .integer c.offset.toNat)])
    [("distribution", c.distribution.toToml), ("fill", fill)]
  match document with
  | none => .error .unwritable
  | some s => .ok s

/-- The engine at the start of the configured stream, when there is a seed. -/
def engine? (c : Config) : Option Engine := c.seed.map (Engine.new · c.offset)

end Config

end CounterStream
