import Mathlib.Data.List.Basic
import CounterStream.Command.Report
import CounterStream.Proofs.Draw

/-!
# Reports line by line

A report in text or in hexadecimal is a line for each sample or each block. The lines are numbered
like the samples, so a report can be cut wherever a block ends.
-/

namespace CounterStream

theorem Distribution.generate_eq (d : Distribution) (sharding : Sharding) (e : Engine)
    (count : Nat) (hcheck : d.check = .ok ()) (hblocks : sharding.blocks ≠ 0)
    (hcount : count < 2 ^ 64) :
    d.generate sharding e count =
      .ok (⟨d.sampleType, (List.range count).map (d.sampler.sampleAt e)⟩,
        e.forward (blocksFor d.groupSize count)) := by
  rw [generate, draw_of_ok hcheck hblocks e hcount]

theorem blocksFor_zero (size : Nat) (hsize : 0 < size) : blocksFor size 0 = 0 :=
  Nat.div_eq_of_lt (by omega)

theorem blocksFor_mul (size m : Nat) (hsize : 0 < size) (h : size ∣ m) :
    blocksFor size m * size = m := by
  obtain ⟨k, rfl⟩ := h
  rw [blocksFor, Nat.mul_add_div hsize, Nat.div_eq_of_lt (by omega), Nat.add_zero, Nat.mul_comm]

theorem blocksFor_add (size m n : Nat) (hsize : 0 < size) (h : size ∣ m ∨ n = 0) :
    blocksFor size (m + n) = blocksFor size m + blocksFor size n := by
  rcases h with ⟨k, rfl⟩ | rfl
  · have hk : blocksFor size (size * k) = k := by
      rw [blocksFor, Nat.mul_add_div hsize, Nat.div_eq_of_lt (by omega), Nat.add_zero]
    rw [hk, blocksFor, blocksFor, Nat.add_assoc, Nat.mul_add_div hsize]
  · rw [blocksFor_zero size hsize, Nat.add_zero, Nat.add_zero]

theorem cuts_cons {size n : Nat} {rest : List Nat} (h : ∀ m ∈ (n :: rest).dropLast, size ∣ m) :
    (size ∣ n ∨ rest.sum = 0) ∧ ∀ m ∈ rest.dropLast, size ∣ m := by
  cases rest with
  | nil => exact ⟨Or.inr rfl, by simp⟩
  | cons m rest =>
    exact ⟨Or.inl (h n List.mem_cons_self), fun k hk => h k (List.mem_cons_of_mem n hk)⟩

/-- The lines, or the samples of a document, that one block gives. -/
def OutputFormat.perBlock (format : OutputFormat) (d : Distribution) : Nat :=
  match format with
  | .hex => 1
  | .text | .json => d.groupSize

theorem OutputFormat.perBlock_pos (format : OutputFormat) (d : Distribution) :
    0 < format.perBlock d := by
  cases format with
  | hex => exact Nat.one_pos
  | text => exact d.sampler.size_pos
  | json => exact d.sampler.size_pos

namespace Report

theorem lines_append (a b : List String) : lines (a ++ b) = lines a ++ lines b := by
  rw [lines, List.map_append, String.join_append]
  rfl

/-- Line `i` of the report on all that the stream from `e` on gives. -/
def line (format : OutputFormat) (d : Distribution) (e : Engine) (i : Nat) : String :=
  match format with
  | .hex => words (e.forward i).peek
  | .text | .json => d.sampleType.text (d.sampler.sampleAt e i)

theorem line_forward (format : OutputFormat) (d : Distribution) (e : Engine) (k i : Nat) :
    line format d (e.forward k) i = line format d e (k * format.perBlock d + i) := by
  cases format with
  | hex =>
    show words _ = words _
    rw [Engine.forward_forward, OutputFormat.perBlock, Nat.mul_one]
  | text => exact congrArg d.sampleType.text (d.sampler.sampleAt_forward e k i)
  | json => exact congrArg d.sampleType.text (d.sampler.sampleAt_forward e k i)

theorem lines_add (format : OutputFormat) (d : Distribution) (e : Engine) (m n : Nat)
    (h : format.perBlock d ∣ m ∨ n = 0) :
    lines ((List.range (m + n)).map (line format d e)) =
      lines ((List.range m).map (line format d e)) ++
        lines ((List.range n).map
          (line format d (e.forward (blocksFor (format.perBlock d) m)))) := by
  rw [List.range_add, List.map_append, lines_append, List.map_map]
  refine congrArg (lines _ ++ lines ·) (List.map_congr_left fun i hi => ?_)
  rcases h with hdvd | rfl
  · rw [line_forward, blocksFor_mul _ m (format.perBlock_pos d) hdvd]
    rfl
  · simp at hi

variable {d : Distribution} {sharding : Sharding}

theorem samples_eq_lines (format : OutputFormat) (hformat : format ≠ .json)
    (hcheck : d.check = .ok ()) (hblocks : sharding.blocks ≠ 0) (e : Engine) (count : Nat)
    (hcount : format = .text → count < 2 ^ 64) :
    samples format d sharding e count =
      .ok (lines ((List.range count).map (line format d e)),
        e.forward (blocksFor (format.perBlock d) count)) := by
  cases format with
  | hex =>
    have hone : blocksFor 1 count = count := Nat.div_one count
    rw [samples, Engine.take_eq, OutputFormat.perBlock, hone]
    show Except.ok (lines (List.map words (List.map _ _)), _) = _
    rw [List.map_map]
    rfl
  | text =>
    rw [samples, d.generate_eq sharding e count hcheck hblocks (hcount rfl)]
    show Except.ok (lines (List.map _ (List.map _ _)), _) = _
    rw [List.map_map]
    rfl
  | json => exact absurd rfl hformat

theorem samples_eq_document (hcheck : d.check = .ok ()) (hblocks : sharding.blocks ≠ 0)
    (e : Engine) (count : Nat) (hcount : count < 2 ^ 64) :
    samples .json d sharding e count =
      .ok ((document d e (e.forward (blocksFor d.groupSize count))
          ⟨d.sampleType, (List.range count).map (d.sampler.sampleAt e)⟩).prettyText ++ "\n",
        e.forward (blocksFor d.groupSize count)) := by
  rw [samples, d.generate_eq sharding e count hcheck hblocks hcount]
  rfl

end Report

end CounterStream
