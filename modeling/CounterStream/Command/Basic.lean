import CounterStream.Command.Directory
import CounterStream.Command.Report
import CounterStream.Config

/-!
# Commands

A command takes a configuration, its arguments and a way to read files, and gives an effect: what it
prints and the file it saves. `Effect.apply` carries an effect out on a directory.
-/

namespace CounterStream

/-- Where a stream starts; what is not chosen comes from the configuration. -/
structure StreamChoice where
  seed : Option Int64 := none
  offset : Option UInt64 := none
  skip : UInt64 := 0

inductive Command
  | generate (stream : StreamChoice) (count : Nat) (distribution : Option String)
    (format : OutputFormat)
  | inspect (stream : StreamChoice) (steps : Nat)
  | checkpoint (stream : StreamChoice) (output : String) (encoding : Checkpoint.Encoding)
  | resume (file : String) (count : Nat) (distribution : Option String) (format : OutputFormat)
    (save : Option String)

inductive CommandError
  | file (cause : FileError)
  | parameter (cause : ParameterError)
  | config (cause : ConfigError)
  | checkpoint (path : String)
deriving DecidableEq

/-- What a reader of JSON has to say against a stored engine is left out. -/
def CommandError.message : CommandError → String
  | file cause => cause.message
  | parameter cause => cause.message
  | config cause => cause.message
  | checkpoint path => "Invalid checkpoint " ++ path

abbrev FileReader := String → Except FileError (List UInt8)

def Config.load (read : FileReader) (path : String) : Except CommandError Config := do
  let bytes ← (read path).mapError .file
  let text ← (decodeText bytes).mapError .file
  (Config.ofText text).mapError .config

/-- The seed and the engine of a choice. A stream that no seed is given for has the drawn one. -/
def StreamChoice.start (stream : StreamChoice) (config : Config) (drawn : Int64) :
    Int64 × Engine :=
  let seed := stream.seed.getD (config.seed.getD drawn)
  let offset := stream.offset.getD config.offset
  (seed, (Engine.new seed offset).skip stream.skip)

/-- A distribution by name, or the configured one. -/
def Config.choose (config : Config) (name : Option String) : Except CommandError Distribution :=
  match name with
  | some name => (Distribution.read name).mapError .parameter
  | none => .ok config.distribution

def Checkpoint.load (read : FileReader) (path : String) :
    Except CommandError (Engine × Checkpoint.Encoding) := do
  let bytes ← (read path).mapError .file
  match Checkpoint.read? bytes with
  | some stored => return stored
  | none => throw (.checkpoint path)

/-- What a command prints, the file it then saves, and what it prints when that is saved. -/
structure Effect where
  output : String := ""
  save : Option (String × List UInt8) := none
  notice : String := ""

namespace Command

/-- The effect of a command. `quiet` keeps the notice of a checkpoint back. -/
def effect (config : Config) (drawn : Int64) (quiet : Bool) (read : FileReader) :
    Command → Except CommandError Effect
  | generate stream count name format => do
    let distribution ← config.choose name
    let (_, e) := stream.start config drawn
    let (output, _) ←
      (Report.samples format distribution config.sharding e count).mapError .parameter
    return { output }
  | inspect stream steps =>
    let (seed, e) := stream.start config drawn
    let (blocks, final) := e.take steps
    let output := "Seed: " ++ toString seed.toInt ++ "\n" ++ Report.position e ++
      Report.numbered blocks ++ (if steps = 0 then "" else Report.position final)
    .ok { output }
  | checkpoint stream path encoding =>
    let (_, e) := stream.start config drawn
    let notice := if quiet then "" else "✓ Checkpoint written to " ++ path ++ "\n"
    .ok { save := some (path, Checkpoint.write encoding e), notice }
  | resume path count name format save => do
    let distribution ← config.choose name
    let (e, encoding) ← Checkpoint.load read path
    let (output, final) ←
      (Report.samples format distribution config.sharding e count).mapError .parameter
    return { output, save := save.map fun target => (target, Checkpoint.write encoding final) }

end Command

/-! ## Commands in a directory -/

/-- What was printed, the directory afterwards, and the failure, if any. -/
structure Outcome where
  output : String
  directory : Directory
  failure : Option CommandError

/-- A file that cannot be saved leaves the directory as it was; what is printed stays printed. -/
def Effect.apply (effect : Effect) (d : Directory) : Outcome :=
  match effect.save with
  | none => ⟨effect.output ++ effect.notice, d, none⟩
  | some (path, bytes) =>
    match d.write path bytes with
    | .ok d => ⟨effect.output ++ effect.notice, d, none⟩
    | .error e => ⟨effect.output, d, some (.file e)⟩

/-- A command without an effect fails and prints nothing. -/
def Command.run (config : Config) (drawn : Int64) (quiet : Bool) (d : Directory)
    (command : Command) : Outcome :=
  match command.effect config drawn quiet d.read with
  | .ok effect => effect.apply d
  | .error e => ⟨"", d, some e⟩

end CounterStream
