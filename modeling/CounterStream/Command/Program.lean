import CounterStream.Command.Arguments

/-!
# The program

One run of the program: an argument list and a directory give an exit code, what is printed, a
message of failure, and the directory afterwards.
-/

namespace CounterStream

/-- The configuration that is read when none is named. -/
def defaultConfigFile : String := "philox.toml"

/-- The result of a run. The code is 1 when a command failed and 2 when the arguments are no
command. -/
structure Exit where
  code : UInt8
  output : String
  error : Option String
  directory : Directory

namespace Program

def versionText (command : Option String) : String :=
  let name := match command with
    | none => "philox"
    | some name => "philox-" ++ name
  name ++ " 0.1.0\n"

/-- The named configuration, or that of the default file where it is present. -/
def config (read : FileReader) (present : Bool) (name : Option String) :
    Except CommandError Config :=
  match name with
  | some name => Config.load read name
  | none => if present then Config.load read defaultConfigFile else .ok {}

/-- Whether the default file is there, readable or not. -/
def present (read : FileReader) : Bool :=
  match read defaultConfigFile with
  | .error .missing => false
  | _ => true

def run (d : Directory) (drawn : Int64) (args : List String) : Exit :=
  match Request.ofArguments args with
  | .usage => ⟨2, "", some "invalid arguments", d⟩
  | .version command => ⟨0, versionText command, none, d⟩
  | .run name quiet command =>
    match config d.read (present d.read) name with
    | .error e => ⟨1, "", some e.message, d⟩
    | .ok config =>
      let outcome := command.run config drawn quiet d
      let code := if outcome.failure.isSome then 1 else 0
      ⟨code, outcome.output, outcome.failure.map CommandError.message, outcome.directory⟩

end Program

end CounterStream
