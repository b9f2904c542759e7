import CounterStream.Command.Basic

/-!
# Command lines

An argument list is read into events, from left to right: options with their values, flags, and
words that are neither. The first fault ends the reading, and so does a request for the version,
whichever comes first.
-/

namespace CounterStream

/-- A named argument. A flag takes no value; the value of an option has to be acceptable. -/
structure OptionSpec where
  long : String
  short : Option Char := none
  isFlag : Bool := false
  accepts : String → Bool := fun _ => true
  /-- Whether a value of its own may begin with a minus sign. -/
  signed : Bool := false

namespace OptionSpec

def flag (long : String) (short : Option Char := none) : OptionSpec :=
  { long, short, isFlag := true }

def path (long : String) (short : Option Char := none) : OptionSpec :=
  { long, short, accepts := fun s => s ≠ "" }

def natural (long : String) (short : Option Char := none) : OptionSpec :=
  { long, short, accepts := fun s => (readUInt64? s.toList).isSome }

end OptionSpec

namespace Arguments

/-! ## Reading -/

inductive Event
  | flag (name : String)
  | value (spec : OptionSpec) (text : String)
  | word (text : String)
  | fault

/-- Two minus signs, or one and more after it. -/
def looksLikeOption (arg : String) : Bool :=
  match arg.toList with
  | '-' :: _ :: _ => true
  | _ => false

/-- The value of an option from the argument after it. -/
def separate (spec : OptionSpec) (arg : String) : Event :=
  if looksLikeOption arg && !(spec.signed && spec.accepts arg) then .fault else .value spec arg

/-- Short options in one argument, and the option that waits for a value. The rest of the argument
is the value of the first option that takes one. -/
def cluster (specs : List OptionSpec) : List Char → List Event × Option OptionSpec
  | [] => ([], none)
  | c :: cs =>
    match specs.find? (·.short = some c) with
    | none => ([.fault], none)
    | some spec =>
      if spec.isFlag then
        let (events, waiting) := cluster specs cs
        (.flag spec.long :: events, waiting)
      else match cs with
        | [] => ([], some spec)
        | '=' :: cs => ([.value spec (String.ofList cs)], none)
        | cs => ([.value spec (String.ofList cs)], none)

/-- A long option, perhaps with its value after an equals sign. -/
def long (specs : List OptionSpec) (cs : List Char) : List Event × Option OptionSpec :=
  let name := String.ofList (cs.takeWhile (· ≠ '='))
  match specs.find? (·.long = name), cs.dropWhile (· ≠ '=') with
  | none, _ => ([.fault], none)
  | some spec, [] => if spec.isFlag then ([.flag spec.long], none) else ([], some spec)
  | some spec, _ :: value =>
    if spec.isFlag then ([.fault], none) else ([.value spec (String.ofList value)], none)

/-- The events of the arguments. When `untilWord` holds, the reading stops before the first word and
the arguments from it on are left. -/
def scan (specs : List OptionSpec) (untilWord : Bool) :
    Option OptionSpec → List String → List Event × List String
  | some _, [] => ([.fault], [])
  | none, [] => ([], [])
  | some spec, arg :: args =>
    let (events, rest) := scan specs untilWord none args
    (separate spec arg :: events, rest)
  | none, arg :: args =>
    match arg.toList with
    | ['-', '-'] => if untilWord then ([.fault], []) else (args.map .word, [])
    | '-' :: '-' :: cs =>
      let (first, waiting) := long specs cs
      let (events, rest) := scan specs untilWord waiting args
      (first ++ events, rest)
    | '-' :: c :: cs =>
      let (first, waiting) := cluster specs (c :: cs)
      let (events, rest) := scan specs untilWord waiting args
      (first ++ events, rest)
    | _ =>
      if untilWord then ([], arg :: args)
      else
        let (events, rest) := scan specs untilWord none args
        (.word arg :: events, rest)

/-! ## Settings -/

structure Settings where
  flags : List String := []
  values : List (String × String) := []
  words : List String := []

namespace Settings

def value? (s : Settings) (name : String) : Option String :=
  (s.values.find? (·.1 = name)).map (·.2)

def natural (s : Settings) (name : String) (default : UInt64) : UInt64 :=
  ((s.value? name).bind fun text => readUInt64? text.toList).getD default

end Settings

inductive Refusal
  | usage
  | version

/-- The settings after the events. Nothing may be given twice, there are at most `limit` words, and
none of them is empty. -/
def collect (limit : Nat) : Settings → List Event → Except Refusal Settings
  | s, [] => .ok s
  | _, .fault :: _ => .error .usage
  | s, .flag name :: events =>
    if name = "version" then .error .version
    else if name ∈ s.flags then .error .usage
    else collect limit { s with flags := name :: s.flags } events
  | s, .value spec text :: events =>
    if (s.value? spec.long).isSome || !spec.accepts text then .error .usage
    else collect limit { s with values := (spec.long, text) :: s.values } events
  | s, .word text :: events =>
    if limit ≤ s.words.length ∨ text = "" then .error .usage
    else collect limit { s with words := s.words ++ [text] } events

/-! ## The commands -/

/-- Options that stand before or after the command. -/
def globals : List OptionSpec := [
  .flag "verbose" (some 'v'), .flag "quiet" (some 'q'), .path "config" (some 'c'),
  .flag "version" (some 'V')]

def streamOptions : List OptionSpec := [
  { long := "seed", accepts := fun s => (readInt64? s.toList).isSome, signed := true },
  .natural "offset", .natural "skip"]

def sampleOptions : List OptionSpec := [
  .natural "count" (some 'n'), { long := "distribution", short := some 'd' },
  { long := "format"
    short := some 'f'
    accepts := fun s => (OutputFormat.read s).toOption.isSome }]

/-- The options of a command, and how many words it takes. There is no command for completions and
no help here, so asking for either is refused. -/
def commandOptions? : String → Option (List OptionSpec × Nat)
  | "generate" => some (streamOptions ++ sampleOptions, 0)
  | "inspect" => some (streamOptions ++ [.natural "steps"], 0)
  | "checkpoint" => some (streamOptions ++ [.path "output" (some 'o'), .flag "binary"], 0)
  | "resume" => some (sampleOptions ++ [.path "save"], 1)
  | _ => none

def stream (s : Settings) : StreamChoice where
  seed := (s.value? "seed").bind fun text => readInt64? text.toList
  offset := (s.value? "offset").bind fun text => readUInt64? text.toList
  skip := s.natural "skip" 0

def format (s : Settings) : OutputFormat :=
  ((s.value? "format").bind fun text => (OutputFormat.read text).toOption).getD .text

/-- The command of a name and its settings; what it cannot do without may be missing. -/
def command? (name : String) (s : Settings) : Option Command :=
  let count := (s.natural "count" 16).toNat
  match name with
  | "generate" => some (.generate (stream s) count (s.value? "distribution") (format s))
  | "inspect" => some (.inspect (stream s) (s.natural "steps" 0).toNat)
  | "checkpoint" => do
    let encoding := if "binary" ∈ s.flags then Checkpoint.Encoding.binary else .json
    return .checkpoint (stream s) (← s.value? "output") encoding
  | "resume" => do
    let file ← s.words.head?
    return .resume file count (s.value? "distribution") (format s) (s.value? "save")
  | _ => none

end Arguments

inductive Request
  | usage
  | version (command : Option String)
  | run (config : Option String) (quiet : Bool) (command : Command)

namespace Request

/-- The options of a command are read after those that stand before it; the version asked for is the
program's before the command and the command's after it. -/
def ofArguments (args : List String) : Request :=
  let (events, rest) := Arguments.scan Arguments.globals true none args
  match Arguments.collect 0 {} events with
  | .error .usage => usage
  | .error .version => version none
  | .ok before =>
    match rest with
    | [] => usage
    | name :: args =>
      match Arguments.commandOptions? name with
      | none => usage
      | some (options, words) =>
        let (events, _) := Arguments.scan (Arguments.globals ++ options) false none args
        match Arguments.collect words {} events with
        | .error .usage => usage
        | .error .version => version (some name)
        | .ok settings =>
          match Arguments.command? name settings with
          | none => usage
          | some command =>
            let config := (settings.value? "config").or (before.value? "config")
            run config ("quiet" ∈ settings.flags || "quiet" ∈ before.flags) command

end Request

end CounterStream
