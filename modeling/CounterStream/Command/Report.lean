import CounterStream.Distribution.Samples
import CounterStream.Checkpoint

/-!
# Reports

What the commands print: samples in one of three formats, and positions.
-/

namespace CounterStream

inductive OutputFormat
  | text
  | json
  | hex
deriving DecidableEq

structure UnknownFormat where
  name : String

def UnknownFormat.message (e : UnknownFormat) : String :=
  "Unknown format '" ++ e.name ++ "'. Valid options: text, json, hex"

def OutputFormat.read (s : String) : Except UnknownFormat OutputFormat :=
  match String.ofList (Text.lower s.toList) with
  | "text" | "txt" => .ok .text
  | "json" => .ok .json
  | "hex" | "raw" => .ok .hex
  | _ => .error ⟨s⟩

namespace Report

def lines (texts : List String) : String := String.join (texts.map (· ++ "\n"))

/-- The words of a block, eight digits each. -/
def words (b : Block) : String := " ".intercalate (b.words.map fun w => Word.hex 8 w.toNat)

/-- The samples, with their distribution and the engines before and after them. -/
def document (d : Distribution) (start final : Engine) (samples : Samples) : Json :=
  Json.record [
    ("distribution", Json.text d.text),
    ("start", start.toJson),
    ("end", final.toJson),
    ("samples", samples.toJson)]

/-- So many samples in a format, and the engine after them. In hexadecimal whole blocks are written
and counted, whatever the distribution. -/
def samples (format : OutputFormat) (d : Distribution) (sharding : Sharding) (e : Engine)
    (count : Nat) : Except ParameterError (String × Engine) :=
  match format with
  | .hex =>
    let (blocks, final) := e.take count
    .ok (lines (blocks.map words), final)
  | .text => do
    let (samples, final) ← d.generate sharding e count
    return (lines samples.texts, final)
  | .json => do
    let (samples, final) ← d.generate sharding e count
    return ((document d e final samples).prettyText ++ "\n", final)

def word (w : UInt32) : String := "0x" ++ Word.hex 8 w.toNat

/-- The key, the counter word by word with the low one first, and the counter as one number. -/
def position (e : Engine) : String :=
  lines [
    "Key: [" ++ ", ".intercalate [word e.key.low, word e.key.high] ++ "]",
    "Counter: [" ++ ", ".intercalate (e.counter.words.map word) ++ "]",
    "Position: 0x" ++ Word.hex 32 e.position]

def numbered (blocks : List Block) : String :=
  lines (blocks.mapIdx fun i b => "  [" ++ toString i ++ "] " ++ words b)

end Report

end CounterStream
