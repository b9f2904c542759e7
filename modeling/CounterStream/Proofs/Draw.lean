import Mathlib.Algebra.Order.Floor.Div
import CounterStream.Distribution.Samples
import CounterStream.Proofs.Fill

/-!
# Draws are whole or refused

A draw checks the parameters, then the sharding, and moves the engine only when both are good. It
has three outcomes, and each is one lemma.
-/

namespace CounterStream

theorem Sharding.check_of_eq_zero {s : Sharding} (h : s.blocks = 0) :
    s.check = .error .emptyShards := if_pos h

theorem Sharding.check_of_ne_zero {s : Sharding} (h : s.blocks ≠ 0) : s.check = .ok () := if_neg h

theorem Sharding.blocks_ne_zero_of_check {s : Sharding} (h : s.check = .ok ()) :
    s.blocks ≠ 0 := by
  intro hzero
  rw [check_of_eq_zero hzero] at h
  cases h

theorem blocksFor_eq_ceilDiv (size n : Nat) (hsize : 0 < size) : blocksFor size n = n ⌈/⌉ size := by
  rw [blocksFor, Nat.ceilDiv_eq_add_pred_div, Nat.add_sub_assoc hsize]

namespace Distribution

theorem groupSize_eq_samplesPerBlock (d : Distribution) : d.groupSize = d.samplesPerBlock := by
  cases d <;> rfl

variable {d : Distribution} {sharding : Sharding}

theorem build_of_error {cause : ParameterError} (hcheck : d.check = .error cause) :
    d.build = .error cause := by
  rw [build, hcheck]
  rfl

theorem build_of_ok (hcheck : d.check = .ok ()) : d.build = .ok d.sampler := by
  rw [build, hcheck]
  rfl

/-! ## Outcomes -/

theorem draw_of_error {cause : ParameterError} (hcheck : d.check = .error cause) (e : Engine)
    (count : Nat) : (d.draw sharding count).run e = .error cause e := by
  rw [draw, build_of_error hcheck]
  rfl

theorem draw_of_emptyShards (hcheck : d.check = .ok ()) (hblocks : sharding.blocks = 0)
    (e : Engine) (count : Nat) : (d.draw sharding count).run e = .error .emptyShards e := by
  rw [draw, build_of_ok hcheck, Sharding.check_of_eq_zero hblocks]
  rfl

theorem draw_of_ok (hcheck : d.check = .ok ()) (hblocks : sharding.blocks ≠ 0) (e : Engine)
    {count : Nat} (hcount : count < 2 ^ 64) :
    (d.draw sharding count).run e =
      .ok ⟨d.sampleType, (List.range count).map (d.sampler.sampleAt e)⟩
        (e.forward (blocksFor d.groupSize count)) := by
  have hfill := d.sampler.fill_eq sharding e (List.replicate count default) hblocks
    (by rwa [List.length_replicate])
  rw [List.length_replicate] at hfill
  have hrun : (d.draw sharding count).run e =
      .ok ⟨d.sampleType, (d.sampler.fill sharding e (List.replicate count default)).1⟩
        (d.sampler.fill sharding e (List.replicate count default)).2 := by
    rw [draw, build_of_ok hcheck, Sharding.check_of_ne_zero hblocks]
    rfl
  rw [hrun, hfill]
  rfl

/-- A draw is refused exactly when the parameters are bad or shards are empty. The parameters'
own refusal comes first, and a refusal leaves the engine where it was. Otherwise the draw gives so
many samples and moves the engine past their blocks, the last one perhaps used in part. The count is
any number of 64 bits. A machine has no room for the largest counts, but memory is not modelled, so
that is no refusal here. -/
theorem draw_all_or_nothing (d : Distribution) (sharding : Sharding) (e : Engine) (count : UInt64) :
    ((∃ cause after, (d.draw sharding count.toNat).run e = .error cause after) ↔
      (∃ cause, d.check = .error cause) ∨ sharding.blocks = 0) ∧
    (∀ cause after, (d.draw sharding count.toNat).run e = .error cause after →
      after = e ∧ (d.check = .error cause ∨ sharding.check = .error cause)) ∧
    (∀ cause, d.check = .error cause →
      (d.draw sharding count.toNat).run e = .error cause e) ∧
    ∀ samples after, (d.draw sharding count.toNat).run e = .ok samples after →
      samples.type = d.sampleType ∧ samples.length = count.toNat ∧ after.key = e.key ∧
      after.position = (e.position + count.toNat ⌈/⌉ d.samplesPerBlock) % 2 ^ 128 := by
  cases hcheck : d.check with
  | error cause =>
    rw [draw_of_error hcheck]
    refine ⟨⟨fun _ => Or.inl ⟨cause, rfl⟩, fun _ => ⟨cause, e, rfl⟩⟩, ?_, ?_, ?_⟩
    · rintro _ _ ⟨⟩
      exact ⟨rfl, Or.inl rfl⟩
    · rintro _ ⟨⟩
      rfl
    · rintro _ _ ⟨⟩
  | ok =>
    by_cases hblocks : sharding.blocks = 0
    · rw [draw_of_emptyShards hcheck hblocks]
      refine ⟨⟨fun _ => Or.inr hblocks, fun _ => ⟨.emptyShards, e, rfl⟩⟩, ?_, ?_, ?_⟩
      · rintro _ _ ⟨⟩
        exact ⟨rfl, Or.inr (Sharding.check_of_eq_zero hblocks)⟩
      · rintro _ ⟨⟩
      · rintro _ _ ⟨⟩
    · rw [draw_of_ok hcheck hblocks e count.toNat_lt]
      refine ⟨⟨?_, ?_⟩, ?_, ?_, ?_⟩
      · rintro ⟨_, _, ⟨⟩⟩
      · rintro (⟨_, ⟨⟩⟩ | hempty)
        exact absurd hempty hblocks
      · rintro _ _ ⟨⟩
      · rintro _ ⟨⟩
      · rintro _ _ ⟨⟩
        refine ⟨rfl, ?_, rfl, ?_⟩
        · simp [Samples.length]
        · have hsize : 0 < d.groupSize := d.sampler.size_pos
          rw [Engine.forward_position, blocksFor_eq_ceilDiv _ _ hsize,
            groupSize_eq_samplesPerBlock]

theorem draw_all_or_nothing_past_the_end :
    let e : Engine := ⟨Counter.ofNat (2 ^ 128 - 1), Key.zero⟩
    let none := exponential (Binary.zero true)
    none.check = .error (.exponential (Binary.zero true)) ∧
    (none.draw ⟨0, 0⟩ 5).run e = .error (.exponential (Binary.zero true)) e ∧
    (∃ cause after, (normalDouble.draw ⟨0, 0⟩ 5).run e = .error cause after ∧ after = e) ∧
    ∃ samples after, (normalDouble.draw ⟨0, 1⟩ 5).run e = .ok samples after ∧
      samples.length = 5 ∧ after.position = 2 := by
  intro e none
  have hcheck : none.check = .error (.exponential (Binary.zero true)) := by decide
  obtain ⟨-, -, hcause, -⟩ := draw_all_or_nothing none ⟨0, 0⟩ e 5
  obtain ⟨hempty, hkept, -, -⟩ := draw_all_or_nothing normalDouble ⟨0, 0⟩ e 5
  obtain ⟨hrefused, -, -, hdrawn⟩ := draw_all_or_nothing normalDouble ⟨0, 1⟩ e 5
  refine ⟨hcheck, hcause _ hcheck, ?_, ?_⟩
  · obtain ⟨cause, after, hrun⟩ := hempty.mpr (Or.inr rfl)
    exact ⟨cause, after, hrun, (hkept cause after hrun).1⟩
  · cases hrun : (normalDouble.draw ⟨0, 1⟩ 5).run e with
    | error cause after =>
      obtain ⟨cause, hbad⟩ | hbad := hrefused.mp ⟨cause, after, hrun⟩
      · cases hbad
      · cases hbad
    | ok samples after =>
      obtain ⟨-, hlength, -, hposition⟩ := hdrawn samples after hrun
      refine ⟨samples, after, rfl, hlength, ?_⟩
      rw [hposition]
      decide

end Distribution

end CounterStream
