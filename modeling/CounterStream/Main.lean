import CounterStream.Command.Program

/-! The command line. -/

open CounterStream

def fileError : IO.Error → FileError
  | .noFileOrDirectory .. => .missing
  | .invalidArgument .. => .nameTooLong
  | .inappropriateType _ _ details =>
    if details.toLower = "not a directory" then .notDirectory else .isDirectory
  | e => .system (toString e)

def readFile (path : String) : IO (Except FileError (List UInt8)) := do
  try
    let bytes ← IO.FS.readBinFile path
    return .ok bytes.toList
  catch e => return .error (fileError e)

def saveFile (path : String) (bytes : List UInt8) : IO (Except FileError Unit) := do
  try
    IO.FS.writeBinFile path ⟨bytes.toArray⟩
    return .ok ()
  catch e => return .error (fileError e)

def reject (message : String) (code : UInt32) : IO UInt32 := do
  IO.eprintln ("Error: " ++ message)
  return code

def finish (effect : Effect) : IO UInt32 := do
  IO.print effect.output
  match effect.save with
  | none => return 0
  | some (path, bytes) =>
    match ← saveFile path bytes with
    | .ok () =>
      IO.print effect.notice
      return 0
    | .error e => reject e.message 1

def main (args : List String) : IO UInt32 := do
  match Request.ofArguments args with
  | .usage => reject "invalid arguments" 2
  | .version command =>
    IO.print (Program.versionText command)
    return 0
  | .run name quiet command =>
    let configBytes ← readFile (name.getD defaultConfigFile)
    let read : FileReader := fun _ => configBytes
    match Program.config read (Program.present read) name with
    | .error e => reject e.message 1
    | .ok config =>
      let stored ← match command with
        | .resume path .. => readFile path
        | _ => pure (.error .missing)
      let drawn ← IO.rand 0 (UInt64.size - 1)
      match command.effect config (UInt64.ofNat drawn).toInt64 quiet fun _ => stored with
      | .error e => reject e.message 1
      | .ok effect => finish effect
