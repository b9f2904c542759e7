import CounterStream.ParameterError
import CounterStream.Sampling.Words
import CounterStream.Sampling.Sampler

/-!
# Distributions

The distributions that can be named, the conditions on their parameters, and the sampler of each.
-/

namespace CounterStream

inductive SampleType
  | half
  | single
  | double
  | integer
deriving DecidableEq

namespace SampleType

abbrev Value : SampleType → Type
  | half => Half
  | single => Single
  | double => Double
  | integer => Int64

instance {F : Format} : Inhabited (Binary F) := ⟨Binary.zero false⟩

instance : (t : SampleType) → Inhabited t.Value
  | half => inferInstanceAs (Inhabited Half)
  | single => inferInstanceAs (Inhabited Single)
  | double => inferInstanceAs (Inhabited Double)
  | integer => inferInstanceAs (Inhabited Int64)

end SampleType

inductive Distribution
  | uniformSingle
  | uniformDouble
  | uniformHalf
  | uniformRange (low high : Single)
  | uniformInteger (low high : Int64)
  | normalSingle
  | normalDouble
  | normal (mean deviation : Single)
  | exponential (rate : Single)
deriving DecidableEq

instance : Inhabited Distribution := ⟨.uniformSingle⟩

namespace Distribution

def check : Distribution → Except ParameterError Unit
  | uniformRange low high =>
    if !low.isFinite || !high.isFinite || high.le low then .error (.range low high)
    else if !(high - low).isFinite then .error (.wideRange low high)
    else .ok ()
  | uniformInteger low high =>
    let count := high.toInt - low.toInt
    if 1 ≤ count ∧ count ≤ UInt32.size then .ok () else .error (.integerRange low high)
  | normal mean deviation =>
    if !mean.isFinite || !deviation.isFinite || deviation.le (Binary.zero false) then
      .error (.normal mean deviation)
    else .ok ()
  | exponential rate =>
    if !rate.isFinite || rate.le (Binary.zero false) then .error (.exponential rate) else .ok ()
  | _ => .ok ()

/-! ## One sample from one word -/

/-- A point of the range; one that rounds up to the end is taken back below it. -/
def inRange (low high : Single) (w : UInt32) : Single :=
  (low + Uniform.single w * (high - low)).min high.below

/-- The word modulo the number of integers in the range. -/
def inIntegers (low high : Int64) (w : UInt32) : Int64 :=
  low + Int64.ofNat (w.toNat % (high.toInt - low.toInt).toNat)

/-- A waiting time: the logarithm of a uniform number, negated, over the rate. -/
def waiting (rate : Single) (w : UInt32) : Single :=
  ((Uniform.single w).max Normal.least).log.neg / rate

/-! ## Samplers -/

def sampleType : Distribution → SampleType
  | uniformHalf => .half
  | uniformDouble | normalDouble => .double
  | uniformInteger _ _ => .integer
  | _ => .single

/-- A sampler that takes one sample from each word. -/
def eachWord {α : Type} (f : UInt32 → α) : Sampler α where
  size := 4
  group b := b.words.map f

def normalGroup (b : Block) : List Single :=
  let (z0, z1) := Normal.pairOfWords b.w0 b.w1
  let (z2, z3) := Normal.pairOfWords b.w2 b.w3
  [z0, z1, z2, z3]

def normalDoubleGroup (b : Block) : List Double :=
  let (z0, z1) := Normal.pairOfBlock b
  [z0, z1]

def sampler : (d : Distribution) → Sampler d.sampleType.Value
  | uniformSingle => eachWord Uniform.single
  | uniformDouble => { size := 2, group b := [Uniform.double b.w0 b.w1, Uniform.double b.w2 b.w3] }
  | uniformHalf => eachWord fun w => Uniform.half w.toUInt16
  | uniformRange low high => eachWord (inRange low high)
  | uniformInteger low high => eachWord (inIntegers low high)
  | normalSingle => { size := 4, group := normalGroup }
  | normalDouble => { size := 2, group := normalDoubleGroup }
  | normal mean deviation =>
    { size := 4
      group := normalGroup
      finish := fun (z : Single) => (mean + z * deviation : Single) }
  | exponential rate => eachWord (waiting rate)

def groupSize (d : Distribution) : Nat := d.sampler.size

/-- A double takes two words of a block, any other sample one. -/
def samplesPerBlock : Distribution → Nat
  | uniformDouble | normalDouble => 2
  | _ => 4

/-- The sampler, if the parameters are good. -/
def build (d : Distribution) : Except ParameterError (Sampler d.sampleType.Value) := do
  d.check
  return d.sampler

end Distribution

end CounterStream
