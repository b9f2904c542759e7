import CounterStream.Proofs.Draw
import CounterStream.Proofs.WordStream

/-!
# A fill reads the words of a stream

A fill takes whole blocks and a word stream takes words, yet both read the same words in the same
order. So each sample is told by the words that the stream delivers, numbered from its start.
-/

namespace CounterStream

namespace WordStream

/-! ## Words delivered one at a time -/

def afterWords (s : WordStream) : Nat → WordStream
  | 0 => s
  | n + 1 => s.next.2.afterWords n

/-- Word `n` of those that the stream delivers from here on. -/
def delivered (s : WordStream) (n : Nat) : UInt32 := (s.afterWords n).next.1

theorem StandsAt.afterWords {s : WordStream} {k : Key} {w : Nat} (h : s.StandsAt k w) (n : Nat) :
    (s.afterWords n).StandsAt k (w + n) := by
  induction n generalizing s w with
  | zero => exact h
  | succ n ih =>
    rw [WordStream.afterWords, Nat.add_comm n, ← Nat.add_assoc]
    exact ih h.next.2

theorem delivered_ofEngine (e : Engine) (m r : Nat) (hr : r < 4) :
    (ofEngine e).delivered (4 * m + r) = (e.forward m).peek.word r := by
  have hword := ((ofEngine_standsAt e).afterWords (4 * m + r)).next.1
  rw [delivered, hword, wordAt, Engine.peek_forward]
  congr 3
  · omega
  · omega

theorem engine_afterWords (e : Engine) (m : Nat) :
    ((ofEngine e).afterWords (4 * m)).engine = e.forward m := by
  have hstands := (ofEngine_standsAt e).afterWords (4 * m)
  apply Engine.eq_of_position
  · rw [hstands.position, Engine.forward_position]
    congr 1
    omega
  · exact hstands.key

end WordStream

namespace Distribution

/-! ## Samples from words -/

/-- The first or the second of a pair, in turn. -/
def component {α : Type} (i : Nat) (pair : α × α) : α := if i % 2 = 0 then pair.1 else pair.2

/-- Component `i` of the normal pairs that two words each give. -/
def normalOfWords (w : Nat → UInt32) (i : Nat) : Single :=
  component i (Normal.pairOfWords (w (2 * (i / 2))) (w (2 * (i / 2) + 1)))

/-- Sample `i`, from numbered words. -/
def ofWords : (d : Distribution) → (w : Nat → UInt32) → (i : Nat) → d.sampleType.Value
  | uniformSingle, w, i => Uniform.single (w i)
  | uniformDouble, w, i => Uniform.double (w (2 * i)) (w (2 * i + 1))
  | uniformHalf, w, i => Uniform.half (w i).toUInt16
  | uniformRange low high, w, i => inRange low high (w i)
  | uniformInteger low high, w, i =>
    (low + Int64.ofNat ((w i).toNat % (high.toInt - low.toInt).toNat) : Int64)
  | normalSingle, w, i => normalOfWords w i
  | normalDouble, w, i =>
    let j := i / 2
    component i (Normal.pairOfBlock ⟨w (4 * j), w (4 * j + 1), w (4 * j + 2), w (4 * j + 3)⟩)
  | normal mean deviation, w, i => (mean + normalOfWords w i * deviation : Single)
  | exponential rate, w, i => waiting rate (w i)

theorem finished_eachWord {α : Type} (f : UInt32 → α) (b : Block) (r : Nat) (hr : r < 4) :
    ((eachWord f).finished b)[r]? = some (f (b.word r)) := by
  match r, hr with
  | 0, _ | 1, _ | 2, _ | 3, _ => rfl

theorem component_add {α : Type} (m r : Nat) (pair : α × α) :
    component (2 * m + r) pair = component r pair := by
  rw [component, component, Nat.mul_add_mod]

theorem component_getElem? {α : Type} (pair : α × α) (r : Nat) (hr : r < 2) :
    [pair.1, pair.2][r]? = some (component r pair) := by
  match r, hr with
  | 0, _ | 1, _ => rfl

theorem pairs_getElem? {α : Type} (f : UInt32 → UInt32 → α) (b : Block) (r : Nat) (hr : r < 2) :
    [f b.w0 b.w1, f b.w2 b.w3][r]? = some (f (b.word (2 * r)) (b.word (2 * r + 1))) := by
  match r, hr with
  | 0, _ | 1, _ => rfl

theorem normalGroup_getElem? (b : Block) (w : Nat → UInt32) (m r : Nat) (hr : r < 4)
    (hw : ∀ j < 4, w (4 * m + j) = b.word j) :
    (normalGroup b)[r]? = some (normalOfWords w (4 * m + r)) := by
  have hpair (r : Nat) (hr : r < 4) : normalOfWords w (4 * m + r) =
      component r (Normal.pairOfWords (b.word (2 * (r / 2))) (b.word (2 * (r / 2) + 1))) := by
    rw [normalOfWords, show 2 * ((4 * m + r) / 2) = 4 * m + 2 * (r / 2) by omega, Nat.add_assoc,
      hw _ (by omega), hw _ (by omega), show 4 * m + r = 2 * (2 * m) + r by omega, component_add]
  rw [hpair r hr]
  match r, hr with
  | 0, _ | 1, _ | 2, _ | 3, _ => rfl

theorem finished_getElem?_ofWords (d : Distribution) (b : Block) (w : Nat → UInt32) (m r : Nat)
    (hr : r < d.groupSize) (hw : ∀ j < 4, w (4 * m + j) = b.word j) :
    (d.sampler.finished b)[r]? = some (d.ofWords w (d.groupSize * m + r)) := by
  cases d with
  -- One word makes one sample.
  | uniformSingle =>
    exact (finished_eachWord _ b r hr).trans (congrArg (some <| Uniform.single ·) (hw r hr).symm)
  | uniformHalf =>
    exact (finished_eachWord _ b r hr).trans
      (congrArg (some <| Uniform.half <| UInt32.toUInt16 ·) (hw r hr).symm)
  | uniformRange low high =>
    exact (finished_eachWord _ b r hr).trans (congrArg (some <| inRange low high ·) (hw r hr).symm)
  | uniformInteger low high =>
    exact (finished_eachWord _ b r hr).trans
      (congrArg (some <| inIntegers low high ·) (hw r hr).symm)
  | exponential rate =>
    exact (finished_eachWord _ b r hr).trans (congrArg (some <| waiting rate ·) (hw r hr).symm)
  -- Two words make one sample, four words or two a pair.
  | uniformDouble =>
    replace hr : r < 2 := hr
    have hhigh := hw (2 * r) (by omega)
    have hlow := hw (2 * r + 1) (by omega)
    have hgroup : (uniformDouble.sampler.finished b) =
        [Uniform.double b.w0 b.w1, Uniform.double b.w2 b.w3] := List.map_id _
    have hwords : ofWords uniformDouble w (2 * m + r) =
        Uniform.double (b.word (2 * r)) (b.word (2 * r + 1)) := by
      rw [ofWords, show 2 * (2 * m + r) = 4 * m + 2 * r by omega, hhigh, Nat.add_assoc, hlow]
    rw [hgroup]
    exact (pairs_getElem? Uniform.double b r hr).trans (congrArg some hwords.symm)
  | normalDouble =>
    have hgroup : (normalDouble.sampler.finished b) =
        [(Normal.pairOfBlock b).1, (Normal.pairOfBlock b).2] := List.map_id _
    have hblock : (⟨w (4 * m), w (4 * m + 1), w (4 * m + 2), w (4 * m + 3)⟩ : Block) = b := by
      rw [← Nat.add_zero (4 * m), hw 0 (by decide), Nat.add_zero, hw 1 (by decide),
        hw 2 (by decide), hw 3 (by decide)]
      rfl
    have hwords : ofWords normalDouble w (2 * m + r) = component r (Normal.pairOfBlock b) := by
      replace hr : r < 2 := hr
      rw [ofWords, show (2 * m + r) / 2 = m by omega]
      simp only [hblock]
      exact component_add m r _
    rw [hgroup]
    exact (component_getElem? _ r hr).trans (congrArg some hwords.symm)
  | normalSingle =>
    have hgroup : (normalSingle.sampler.finished b) = normalGroup b := List.map_id _
    rw [hgroup]
    exact normalGroup_getElem? b w m r hr hw
  | normal mean deviation =>
    have hgroup := normalGroup_getElem? b w m r hr hw
    have hfinished : ((normal mean deviation).sampler.finished b)[r]? =
        (normalGroup b)[r]?.map fun z => mean + z * deviation := List.getElem?_map
    rw [hfinished, hgroup]
    rfl

theorem sampleAt_eq_ofWords (d : Distribution) (e : Engine) (i : Nat) :
    d.sampler.sampleAt e i = d.ofWords (WordStream.ofEngine e).delivered i := by
  have hsize : 0 < d.groupSize := d.sampler.size_pos
  have hsample := d.finished_getElem?_ofWords _ _ (i / d.groupSize) _ (Nat.mod_lt i hsize)
    (WordStream.delivered_ofEngine e (i / d.groupSize))
  rw [Nat.div_add_mod] at hsample
  exact Option.some_inj.mp ((d.sampler.finished_getElem? e i).symm.trans hsample)

/-- Sample `i` of a fill is made of the words that the stream of the same engine delivers, whatever
the sharding, and the stream of as many words as the blocks hold ends where the fill ends. -/
theorem fill_follows_stream (d : Distribution) (sharding : Sharding) (e : Engine)
    (buffer : List d.sampleType.Value) (hblocks : sharding.blocks ≠ 0)
    (hlen : buffer.length < 2 ^ 64) :
    let stream := WordStream.ofEngine e
    ∃ filled final,
      d.sampler.fillWith sharding e buffer = .ok (filled, final) ∧
      filled.length = buffer.length ∧
      (∀ i < buffer.length, filled[i]? = some (d.ofWords stream.delivered i)) ∧
      (stream.afterWords (4 * (buffer.length ⌈/⌉ d.samplesPerBlock))).engine.state =
        final.state := by
  intro stream
  have hsize : 0 < d.groupSize := d.sampler.size_pos
  refine ⟨_, _, d.sampler.fillWith_eq sharding e buffer hblocks hlen, ?_, ?_, ?_⟩
  · rw [List.length_map, List.length_range]
  · intro i hi
    rw [List.getElem?_map, List.getElem?_range hi, Option.map_some, sampleAt_eq_ofWords]
  · rw [WordStream.engine_afterWords, ← groupSize_eq_samplesPerBlock,
      ← blocksFor_eq_ceilDiv _ _ hsize]
    rfl

theorem fill_follows_stream_past_the_end :
    let e : Engine := ⟨Counter.ofNat (2 ^ 128 - 1), Key.zero⟩
    let stream := WordStream.ofEngine e
    (1 : UInt64) ≠ 0 ∧ (List.replicate 5 (0 : Int64)).length < 2 ^ 64 ∧
    ∃ (filled : List Int64) (final : Engine),
      (uniformInteger (-3) 4).sampler.fillWith ⟨0, 1⟩ e (List.replicate 5 (0 : Int64)) =
        .ok (filled, final) ∧
      filled[4]? = some (-3 + Int64.ofNat ((stream.delivered 4).toNat % 7)) ∧
      (stream.afterWords 8).engine.state = final.state := by
  intro e stream
  have hblocks : (1 : UInt64) ≠ 0 := by decide
  have hlen : (List.replicate 5 (0 : Int64)).length < 2 ^ 64 := by decide
  obtain ⟨filled, final, hfill, -, hsamples, hstate⟩ :=
    fill_follows_stream (uniformInteger (-3) 4) ⟨0, 1⟩ e (List.replicate 5 (0 : Int64)) hblocks hlen
  exact ⟨hblocks, hlen, filled, final, hfill, hsamples 4 (by decide), hstate⟩

end Distribution

end CounterStream
