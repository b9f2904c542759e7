import Mathlib.Tactic.Ring
import CounterStream.Sampling.Sampler
import CounterStream.Proofs.Engine

/-!
# Groups and single samples

A slice no longer than a group is overwritten with the front of the group, whatever it held. So the
samples that an engine gives can be numbered: sample `i` stands at place `i % size` of the group of
the block `i / size` further along.
-/

namespace CounterStream.Sampler

variable {α : Type}

/-! ## Groups -/

/-- The group of a block as it is left in a slice of its length. -/
def finished (s : Sampler α) (b : Block) : List α := (s.group b).map s.finish

@[simp]
theorem finished_length (s : Sampler α) (b : Block) : (s.finished b).length = s.size := by
  rw [finished, List.length_map, s.length_group]

theorem transform_length (s : Sampler α) (b : Block) (slice : List α) :
    (s.transform b slice).length = slice.length := by
  simp only [transform, overwrite, List.length_map, List.length_append, List.length_take,
    List.length_drop]
  omega

theorem transform_getElem?_of_lt (s : Sampler α) (b : Block) (slice : List α) (i : Nat)
    (hi : i < s.size) (hslice : i < slice.length) :
    (s.transform b slice)[i]? = (s.finished b)[i]? := by
  have hlength := s.length_group b
  rw [transform, overwrite, finished, List.getElem?_map, List.getElem?_map,
    List.getElem?_append_left (by rw [List.length_take]; omega), List.getElem?_take_of_lt hslice]

/-- Past the group the old elements stay where they were, but they are finished as well. -/
theorem transform_getElem?_of_le (s : Sampler α) (b : Block) (slice : List α) (i : Nat)
    (hi : s.size ≤ i) : (s.transform b slice)[i]? = slice[i]?.map s.finish := by
  have hlength := s.length_group b
  rw [transform, overwrite, List.getElem?_map,
    List.getElem?_append_right (by rw [List.length_take]; omega), List.length_take,
    List.getElem?_drop]
  by_cases hslice : slice.length ≤ i
  · rw [List.getElem?_eq_none (by omega), List.getElem?_eq_none hslice]
  · rw [show (s.group b).length + (i - min slice.length (s.group b).length) = i by omega]

theorem transform_of_le (s : Sampler α) (b : Block) (slice : List α) (h : slice.length ≤ s.size) :
    s.transform b slice = (s.finished b).take slice.length := by
  rw [transform, overwrite, s.length_group, List.drop_eq_nil_of_le h, List.append_nil,
    List.map_take, finished]

theorem transform_of_eq (s : Sampler α) (b : Block) (slice : List α) (h : slice.length = s.size) :
    s.transform b slice = s.finished b := by
  rw [s.transform_of_le b slice (by omega), h, List.take_of_length_le (by simp)]

/-! ## Samples by number -/

/-- Sample `i` of all the samples that the blocks from `e` on give. -/
def sampleAt (s : Sampler α) (e : Engine) (i : Nat) : α :=
  (s.finished (e.forward (i / s.size)).peek).get
    ⟨i % s.size, by rw [finished_length]; exact Nat.mod_lt _ s.size_pos⟩

theorem finished_getElem? (s : Sampler α) (e : Engine) (i : Nat) :
    (s.finished (e.forward (i / s.size)).peek)[i % s.size]? = some (s.sampleAt e i) :=
  List.getElem?_eq_getElem _

theorem finished_peek_getElem? (s : Sampler α) (e : Engine) (i : Nat) (h : i < s.size) :
    (s.finished e.peek)[i]? = some (s.sampleAt e i) := by
  have hi := s.finished_getElem? e i
  rwa [Nat.div_eq_of_lt h, Nat.mod_eq_of_lt h, Engine.forward_zero] at hi

theorem sampleAt_forward (s : Sampler α) (e : Engine) (n i : Nat) :
    s.sampleAt (e.forward n) i = s.sampleAt e (n * s.size + i) := by
  rw [← Option.some_inj, ← finished_getElem?, ← finished_getElem?, Engine.forward_forward,
    Nat.mul_add_mod', Nat.add_comm (n * s.size), Nat.add_mul_div_right _ _ s.size_pos,
    Nat.add_comm n]

end CounterStream.Sampler
