import CounterStream.Sharing
import CounterStream.Proofs.Mixing

/-!
# Substreams never meet

An offset is the upper half of a position, so successive offsets start 2^64 blocks apart. A run of
that many blocks ends where the next one starts, and blocks of one key at different positions
differ.
-/

namespace CounterStream

namespace Engine

/-! ## Starts of streams -/

theorem position_new (seed : Int64) (offset : UInt64) :
    (new seed offset).position = offset.toNat * 2 ^ 64 := by
  have hlow := Word.low_add_high offset
  simp only [position, new, Counter.ofOffset, Block.toNat, UInt32.toNat_zero, UInt32.size]
  omega

theorem key_new (seed : Int64) (offset : UInt64) : (new seed offset).key = Key.ofSeed seed := rfl

theorem forward_new (seed : Int64) {offset next : UInt64} (h : next.toNat = offset.toNat + 1) :
    (new seed offset).forward (2 ^ 64) = new seed next := by
  have hlt := next.toNat_lt
  apply eq_of_position
  · rw [forward_position, position_new, position_new]
    omega
  · rfl

theorem foldl_skip (e : Engine) (steps : List UInt64) :
    steps.foldl skip e = e.forward (steps.map UInt64.toNat).sum := by
  induction steps generalizing e with
  | nil => simp
  | cons n rest ih =>
    rw [List.foldl_cons, ih, skip_eq, forward_forward, List.map_cons, List.sum_cons]

theorem disjoint_take {d e : Engine} (hkey : d.key = e.key) {m n : Nat}
    (hbefore : d.position + m ≤ e.position) (hend : e.position + n ≤ 2 ^ 128) :
    (d.take m).1.Disjoint (e.take n).1 := by
  intro b hd he
  rw [take_eq, List.mem_map] at hd he
  obtain ⟨i, hi, rfl⟩ := hd
  obtain ⟨j, hj, hij⟩ := he
  rw [List.mem_range] at hi hj
  rw [peek_forward, peek_forward, ← hkey, Key.block_inj, Counter.ofNat_eq_iff,
    Counter.toNat_ofNat] at hij
  omega

end Engine

/-! ## Lists of streams -/

theorem substreams_eq (seed : Int64) (first : UInt64) (count : Nat) :
    substreams seed first count =
      if first.toNat + (count - 1) < 2 ^ 64 then
        .ok ((List.range count).map fun i => Engine.new seed (first + UInt64.ofNat i))
      else .error (.substreams count first) := rfl

theorem toNat_offset (first : UInt64) (i : Nat) (h : first.toNat + i < 2 ^ 64) :
    (first + UInt64.ofNat i).toNat = first.toNat + i := by
  rw [UInt64.toNat_add, UInt64.toNat_ofNat', Nat.add_mod_mod, Nat.mod_eq_of_lt h]

/-- Streams are refused exactly when the last of them would pass the largest offset. Otherwise there
is one for each offset from the first on; skips of 2^64 blocks in all lead from each to the next;
and the first 2^64 blocks of any two have none in common. -/
theorem substreams_are_disjoint (seed : Int64) (first : UInt64) (count : Nat) :
    ((∃ refusal, substreams seed first count = .error refusal) ↔
      1 ≤ count ∧ 2 ^ 64 - 1 < first.toNat + count - 1) ∧
    ∀ streams, substreams seed first count = .ok streams →
      streams.length = count ∧
      (∀ i (hi : i < streams.length), ∃ offset : UInt64,
        offset.toNat = first.toNat + i ∧ streams[i] = Engine.new seed offset) ∧
      (∀ i (hi : i + 1 < streams.length) (steps : List UInt64),
        (steps.map UInt64.toNat).sum = 2 ^ 64 →
          steps.foldl Engine.skip streams[i] = streams[i + 1]) ∧
      ∀ i j (hi : i < streams.length) (hj : j < streams.length), i ≠ j →
        (streams[i].take (2 ^ 64)).1.Disjoint (streams[j].take (2 ^ 64)).1 := by
  have hfirst := first.toNat_lt
  rw [substreams_eq]
  constructor
  · split_ifs with hroom
    · simp only [exists_false, false_iff]
      omega
    · simp only [Except.error.injEq, exists_eq', true_iff]
      omega
  intro streams hstreams
  split_ifs at hstreams with hroom
  obtain rfl := Except.ok.inj hstreams
  have hoffset (i : Nat) (hi : i < count) :
      (first + UInt64.ofNat i).toNat = first.toNat + i := toNat_offset first i (by omega)
  -- Whatever the order of the two streams, the one of the lower offset ends first.
  have hdisjoint (i j : Nat) (hij : i < j) (hj : j < count) :
      ((Engine.new seed (first + UInt64.ofNat i)).take (2 ^ 64)).1.Disjoint
        ((Engine.new seed (first + UInt64.ofNat j)).take (2 ^ 64)).1 := by
    have hlt := (first + UInt64.ofNat j).toNat_lt
    have hbefore : (Engine.new seed (first + UInt64.ofNat i)).position + 2 ^ 64 ≤
        (Engine.new seed (first + UInt64.ofNat j)).position := by
      rw [Engine.position_new, Engine.position_new, hoffset i (by omega), hoffset j hj]
      omega
    have hend : (Engine.new seed (first + UInt64.ofNat j)).position + 2 ^ 64 ≤ 2 ^ 128 := by
      rw [Engine.position_new]
      omega
    exact Engine.disjoint_take (Engine.key_new seed _) hbefore hend
  simp only [List.length_map, List.length_range, List.getElem_map, List.getElem_range]
  refine ⟨trivial, ?_, ?_, ?_⟩
  · intro i hi
    exact ⟨_, hoffset i hi, rfl⟩
  · intro i hi steps hsteps
    rw [Engine.foldl_skip, hsteps]
    apply Engine.forward_new
    rw [hoffset i (by omega), hoffset (i + 1) hi, Nat.add_assoc]
  · intro i j hi hj hne
    rcases Nat.lt_or_gt_of_ne hne with hij | hji
    · exact hdisjoint i j hij hj
    · exact List.disjoint_symm (hdisjoint j i hji hi)

theorem substreams_are_disjoint_at_the_last_offset :
    (∃ refusal, substreams (-1) 0xFFFFFFFFFFFFFFFE 3 = .error refusal) ∧
    ∃ d e, substreams (-1) 0xFFFFFFFFFFFFFFFE 2 = .ok [d, e] ∧
      e = Engine.new (-1) 0xFFFFFFFFFFFFFFFF ∧
      ([0xFFFFFFFFFFFFFFFF, 0, 1].map UInt64.toNat).sum = 2 ^ 64 ∧
      [0xFFFFFFFFFFFFFFFF, 0, 1].foldl Engine.skip d = e ∧
      (d.take (2 ^ 64)).1.Disjoint (e.take (2 ^ 64)).1 := by
  obtain ⟨hrefused, -⟩ := substreams_are_disjoint (-1) 0xFFFFFFFFFFFFFFFE 3
  obtain ⟨-, hsplit⟩ := substreams_are_disjoint (-1) 0xFFFFFFFFFFFFFFFE 2
  obtain ⟨-, -, hskip, hdisjoint⟩ := hsplit _ rfl
  have hsum : ([0xFFFFFFFFFFFFFFFF, 0, 1].map UInt64.toNat).sum = 2 ^ 64 := by decide
  exact ⟨hrefused.mpr ⟨by decide, by decide⟩, _, _, rfl, rfl, hsum,
    hskip 0 (by decide) _ hsum, hdisjoint 0 1 (by decide) (by decide) (by decide)⟩

end CounterStream
