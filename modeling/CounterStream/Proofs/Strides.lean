import CounterStream.Proofs.Report

/-!
# Single samples skip through a fill

A single sample is the first one of a whole block, and the rest of the block is dropped. So samples
that are taken one at a time are those at the first places of the groups of a fill.
-/

namespace CounterStream

namespace Sampler

variable {α : Type} [Inhabited α]

theorem sample_eq (s : Sampler α) (e : Engine) : s.sample e = (s.sampleAt e 0, e.forward 1) := by
  have hsize := s.size_pos
  have hfirst := s.finished_peek_getElem? e 0 hsize
  rw [← List.head?_eq_getElem?] at hfirst
  unfold sample
  rw [Engine.next_eq]
  -- a slice of one element has room for the front of a group only
  simp only [Prod.mk.injEq, and_true]
  rw [s.transform_of_le _ _ (by simp only [List.length_singleton]; omega), List.length_singleton,
    List.headD_eq_head?_getD, List.head?_take, if_neg Nat.one_ne_zero, hfirst, Option.getD_some]

theorem samples_eq (s : Sampler α) (e : Engine) (n : Nat) :
    s.samples e n = ((List.range n).map fun i => s.sampleAt e (i * s.size), e.forward n) := by
  induction n generalizing e with
  | zero => simp [samples]
  | succ n ih =>
    have hnext (i : Nat) :
        s.sampleAt (e.forward 1) (i * s.size) = s.sampleAt e ((i + 1) * s.size) := by
      rw [s.sampleAt_forward, Nat.one_mul, Nat.succ_mul, Nat.add_comm]
    unfold samples
    simp only [sample_eq, ih, hnext, Engine.forward_forward, Nat.add_comm 1 n]
    rw [List.range_succ_eq_map, List.map_cons, List.map_map, Nat.zero_mul]
    rfl

end Sampler

namespace Distribution

/-- So many single samples are those at the first places of the groups of a fill of as many groups,
whatever the sharding and the buffer, and both leave the engine so many blocks further. -/
theorem samples_stride_through_fill (d : Distribution) (e : Engine) (n : Nat) :
    ∃ (xs : List d.sampleType.Value) (final : Engine),
      d.sampler.samples e n = (xs, final) ∧ xs.length = n ∧
      final.position = (e.position + n) % 2 ^ 128 ∧ final.key = e.key ∧
      ∀ (sharding : Sharding) (buffer : List d.sampleType.Value),
        sharding.check = .ok () → buffer.length = n * d.groupSize → buffer.length < 2 ^ 64 →
        ∃ filled, d.sampler.fillWith sharding e buffer = .ok (filled, final) ∧
          filled.length = n * d.groupSize ∧ ∀ i < n, filled[i * d.groupSize]? = xs[i]? := by
  have hsize : 0 < d.groupSize := d.sampler.size_pos
  refine ⟨_, _, d.sampler.samples_eq e n, by simp, e.forward_position n, e.forward_key n, ?_⟩
  intro sharding buffer hcheck hlength hlen
  have hblocks := Sharding.blocks_ne_zero_of_check hcheck
  have hfill := d.sampler.fillWith_eq sharding e buffer hblocks hlen
  have hgroups : blocksFor d.sampler.size (n * d.groupSize) = n :=
    Nat.eq_of_mul_eq_mul_right hsize (blocksFor_mul _ _ hsize (Nat.dvd_mul_left _ n))
  rw [hlength, hgroups] at hfill
  refine ⟨_, hfill, by simp, ?_⟩
  intro i hi
  have hplace : i * d.groupSize < n * d.groupSize := Nat.mul_lt_mul_of_pos_right hi hsize
  rw [List.getElem?_map, List.getElem?_map, List.getElem?_range hplace, List.getElem?_range hi]
  rfl

theorem samples_stride_through_fill_past_the_end :
    let e : Engine := ⟨Counter.ofNat (2 ^ 128 - 1), Key.zero⟩
    let sharding : Sharding := ⟨0, 1⟩
    let buffer : List Double := List.replicate 6 Binary.nan
    sharding.check = .ok () ∧ buffer.length = 3 * uniformDouble.groupSize ∧
    buffer.length < 2 ^ 64 ∧
    ∃ (xs filled : List Double) (final : Engine),
      uniformDouble.sampler.samples e 3 = (xs, final) ∧ final.position = 2 ∧
      uniformDouble.sampler.fillWith sharding e buffer = .ok (filled, final) ∧
      filled.length = 6 ∧ filled[4]? = xs[2]? := by
  intro e sharding buffer
  have hcheck : sharding.check = .ok () := by decide
  have hlength : buffer.length = 3 * uniformDouble.groupSize := rfl
  have hlen : buffer.length < 2 ^ 64 := by decide
  obtain ⟨xs, final, hsamples, -, hposition, -, hfills⟩ :=
    samples_stride_through_fill uniformDouble e 3
  obtain ⟨filled, hfill, hfilled, hsame⟩ := hfills sharding buffer hcheck hlength hlen
  exact ⟨hcheck, hlength, hlen, xs, filled, final, hsamples, hposition.trans (by decide), hfill,
    hfilled, hsame 2 (by decide)⟩

end Distribution

end CounterStream
