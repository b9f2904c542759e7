import CounterStream.Proofs.Report
import CounterStream.Proofs.Reservation

/-!
# Private fills make up one fill

Clients reserve words for their buffers one after another, and each fills its buffer from its
private engine. A fill ends where the next reservation starts, so buffers that hold whole blocks,
put together, are one fill of the stream.
-/

namespace CounterStream

/-! ## Fills one after another -/

namespace Sampler

variable {α : Type}

/-- The samples of fills that follow each other, each from the first block that is not used yet. -/
def inTurn (s : Sampler α) (e : Engine) : List Nat → List (List α)
  | [] => []
  | n :: rest =>
    (List.range n).map (s.sampleAt e) :: s.inTurn (e.forward (blocksFor s.size n)) rest

theorem inTurn_length (s : Sampler α) (e : Engine) (sizes : List Nat) :
    (s.inTurn e sizes).length = sizes.length := by
  induction sizes generalizing e with
  | nil => rfl
  | cons n rest ih => rw [inTurn, List.length_cons, ih, List.length_cons]

theorem inTurn_getElem? (s : Sampler α) (e : Engine) (sizes : List Nat) (i : Nat) :
    (s.inTurn e sizes)[i]? = sizes[i]?.map fun n =>
      (List.range n).map
        (s.sampleAt (e.forward ((sizes.take i).map (blocksFor s.size)).sum)) := by
  induction sizes generalizing e i with
  | nil => rfl
  | cons n rest ih =>
    rw [inTurn]
    cases i with
    | zero => simp
    | succ i =>
      rw [List.getElem?_cons_succ, List.getElem?_cons_succ, ih, List.take_succ_cons, List.map_cons,
        List.sum_cons, Engine.forward_forward]

theorem sampleAt_after (s : Sampler α) (e : Engine) (n i : Nat) (h : s.size ∣ n) :
    s.sampleAt (e.forward (blocksFor s.size n)) i = s.sampleAt e (n + i) := by
  rw [sampleAt_forward, blocksFor_mul _ n s.size_pos h]

theorem flatten_inTurn (s : Sampler α) (e : Engine) (sizes : List Nat)
    (h : ∀ n ∈ sizes.dropLast, s.size ∣ n) :
    (s.inTurn e sizes).flatten = (List.range sizes.sum).map (s.sampleAt e) := by
  induction sizes generalizing e with
  | nil => rfl
  | cons n rest ih =>
    obtain ⟨hcut, hrest⟩ := cuts_cons h
    rw [inTurn, List.flatten_cons, ih _ hrest, List.sum_cons, List.range_add, List.map_append,
      List.map_map]
    refine congrArg (_ ++ ·) (List.map_congr_left fun i hi => ?_)
    rcases hcut with hdvd | hnone
    · exact s.sampleAt_after e n i hdvd
    · simp [hnone] at hi

end Sampler

theorem sum_blocksFor (size : Nat) (sizes : List Nat) (hsize : 0 < size)
    (h : ∀ n ∈ sizes.dropLast, size ∣ n) :
    (sizes.map (blocksFor size)).sum = blocksFor size sizes.sum := by
  induction sizes with
  | nil => exact (blocksFor_zero size hsize).symm
  | cons n rest ih =>
    obtain ⟨hcut, hrest⟩ := cuts_cons h
    rw [List.map_cons, List.sum_cons, List.sum_cons, ih hrest, blocksFor_add size n _ hsize hcut]

namespace Reservation

variable {α : Type}

/-! ## Reserved pieces -/

/-- A buffer that is filled from a reservation of its own. -/
structure Piece (α : Type) where
  buffer : List α
  sharding : Sharding
  length_lt : buffer.length < 2 ^ 64
  blocks_ne_zero : sharding.blocks ≠ 0

/-- The piece filled from the private engine, and that engine after it. -/
def Piece.fill (p : Piece α) (s : Sampler α) (own : Engine) :
    Except ParameterError (List α × Engine) := s.fillWith p.sharding own p.buffer

def sizes (pieces : List (Piece α)) : List Nat := pieces.map (·.buffer.length)

/-- A word is reserved for each place of each buffer, in the order of the pieces, and at last the
shared engine is looked at. -/
def requests (pieces : List (Piece α)) : Schedule Unit :=
  (sizes pieces).map (fun n => ((), Call.words (UInt64.ofNat n))) ++ [((), .snapshot)]

/-- The private engines in their order, and the shared engine at the end. -/
def answers (start : Engine) (pieces : List (Piece α)) : List Engine :=
  (log start (requests pieces)).map Entry.answer

theorem log_length {ι : Type} (shared : Engine) (schedule : Schedule ι) :
    (log shared schedule).length = schedule.length := by
  induction schedule generalizing shared with
  | nil => rfl
  | cons r rest ih => rw [log_cons, List.length_cons, ih, List.length_cons]

theorem reserved_words (n : Nat) (h : n < 2 ^ 64) :
    (Call.words (UInt64.ofNat n)).reserved = blocksFor 4 n := by
  rw [Call.reserved, UInt64.toNat_ofNat_of_lt' h, blocksFor_eq_ceilDiv 4 n (by decide)]

theorem size_lt (pieces : List (Piece α)) : ∀ n ∈ sizes pieces, n < 2 ^ 64 := by
  intro n hn
  obtain ⟨p, -, rfl⟩ := List.mem_map.mp hn
  exact p.length_lt

theorem answers_getElem? (start : Engine) (pieces : List (Piece α)) (i : Nat)
    (h : i ≤ pieces.length) :
    (answers start pieces)[i]? =
      some (start.forward (((sizes pieces).take i).map (blocksFor 4)).sum) := by
  have hlength : (sizes pieces).length = pieces.length := List.length_map _
  have htotal : total ((requests pieces).take i) =
      (((sizes pieces).take i).map (blocksFor 4)).sum := by
    rw [requests, List.take_append_of_le_length (by simpa [hlength] using h), ← List.map_take,
      total, List.map_map]
    exact congrArg List.sum (List.map_congr_left fun n hn =>
      reserved_words n (size_lt pieces n (List.mem_of_mem_take hn)))
  have hrequest : i < (requests pieces).length := by
    simp only [requests, List.length_append, List.length_map, hlength, List.length_singleton]
    omega
  rw [answers, List.getElem?_map, log_getElem?, htotal, List.getElem?_eq_getElem hrequest]
  rfl

theorem answers_length (start : Engine) (pieces : List (Piece α)) :
    (answers start pieces).length = pieces.length + 1 := by
  rw [answers, List.length_map, log_length]
  simp [requests, sizes]

theorem fill_piece (s : Sampler α) (p : Piece α) (own : Engine) :
    p.fill s own = .ok ((List.range p.buffer.length).map (s.sampleAt own),
      own.forward (blocksFor s.size p.buffer.length)) :=
  s.fillWith_eq p.sharding own p.buffer p.blocks_ne_zero p.length_lt

/-- Each piece is filled up to the engine of the next reservation, the last one up to the shared
engine. If all pieces but the last are whole blocks, they make up the fill of one buffer from the
start, which ends with the shared engine. -/
theorem private_fills_are_one_fill (d : Distribution) (hsize : d.groupSize = 4) (start : Engine)
    (pieces : List (Piece d.sampleType.Value)) :
    ∃ filled : List (List d.sampleType.Value),
      filled.length = pieces.length ∧
      (answers start pieces).length = pieces.length + 1 ∧
      (∀ i (h : i < pieces.length), ∃ own next values,
        (answers start pieces)[i]? = some own ∧
        (answers start pieces)[i + 1]? = some next ∧
        filled[i]? = some values ∧
        pieces[i].fill d.sampler own = .ok (values, next)) ∧
      ((∀ p ∈ pieces.dropLast, 4 ∣ p.buffer.length) →
        ∀ (sharding : Sharding) (buffer : List d.sampleType.Value), sharding.blocks ≠ 0 →
          buffer.length < 2 ^ 64 → buffer.length = (sizes pieces).sum →
          ∃ snapshot, (answers start pieces)[pieces.length]? = some snapshot ∧
            d.sampler.fillWith sharding start buffer = .ok (filled.flatten, snapshot)) := by
  have hlength : (sizes pieces).length = pieces.length := List.length_map _
  have hgroup : d.sampler.size = 4 := hsize
  have hanswers := answers_getElem? start pieces
  refine ⟨d.sampler.inTurn start (sizes pieces), ?_, ?_, ?_, ?_⟩
  · rw [Sampler.inTurn_length, hlength]
  · exact answers_length start pieces
  · -- The next reservation starts as many blocks further as the fill of this piece takes.
    intro i h
    have hsizes : (sizes pieces)[i]? = some pieces[i].buffer.length := by
      simp [sizes, List.getElem?_eq_getElem h]
    have hnext : (((sizes pieces).take (i + 1)).map (blocksFor 4)).sum =
        (((sizes pieces).take i).map (blocksFor 4)).sum +
          blocksFor 4 pieces[i].buffer.length := by
      rw [List.take_add_one, hsizes]
      simp
    let own := start.forward (((sizes pieces).take i).map (blocksFor 4)).sum
    refine ⟨own, _, (List.range pieces[i].buffer.length).map (d.sampler.sampleAt own),
      hanswers i h.le, hanswers (i + 1) h, ?_, ?_⟩
    · rw [Sampler.inTurn_getElem?, hsizes, Option.map_some, hgroup]
    · rw [fill_piece, hgroup, Engine.forward_forward, hnext]
  · intro halign sharding buffer hblocks hbuffer hsum
    have hcuts : ∀ n ∈ (sizes pieces).dropLast, 4 ∣ n := by
      intro n hn
      rw [sizes, ← List.map_dropLast] at hn
      obtain ⟨p, hp, rfl⟩ := List.mem_map.mp hn
      exact halign p hp
    refine ⟨_, hanswers pieces.length le_rfl, ?_⟩
    rw [d.sampler.fillWith_eq sharding start buffer hblocks hbuffer,
      d.sampler.flatten_inTurn start _ (by rwa [hgroup]), hsum, List.take_of_length_le hlength.le,
      sum_blocksFor 4 _ (by decide) hcuts, hgroup]

/-- Four places, none and six, each with a sharding of its own, from the last position of all. -/
def threePieces : List (Piece Int64) :=
  [⟨List.replicate 4 0, ⟨0, 1⟩, by decide, by decide⟩,
    ⟨[], Sharding.sequential, by decide, by decide⟩,
    ⟨List.replicate 6 7, {}, by decide, by decide⟩]

theorem private_fills_are_one_fill_past_the_end :
    (Distribution.uniformInteger 0 4294967296).groupSize = 4 ∧
    (∀ p ∈ threePieces.dropLast, 4 ∣ p.buffer.length) ∧
    ∃ (filled : List (List Int64)) (snapshot : Engine),
      (answers ⟨Counter.ofNat (2 ^ 128 - 1), Key.zero⟩ threePieces)[3]? = some snapshot ∧
      (Distribution.uniformInteger 0 4294967296).sampler.fillWith ⟨0, 2⟩
        ⟨Counter.ofNat (2 ^ 128 - 1), Key.zero⟩ (List.replicate 10 (0 : Int64)) =
          .ok (filled.flatten, snapshot) ∧
      snapshot.position = 2 := by
  have hsize : (Distribution.uniformInteger 0 4294967296).groupSize = 4 := rfl
  have halign : ∀ p ∈ threePieces.dropLast, 4 ∣ p.buffer.length := by decide
  obtain ⟨filled, -, -, -, hwhole⟩ := private_fills_are_one_fill _ hsize
    ⟨Counter.ofNat (2 ^ 128 - 1), Key.zero⟩ threePieces
  obtain ⟨snapshot, hsnapshot, hfill⟩ := hwhole halign ⟨0, 2⟩ (List.replicate 10 (0 : Int64))
    (by decide) (by decide) (by decide)
  refine ⟨hsize, halign, filled, snapshot, hsnapshot, hfill, ?_⟩
  have hlast := hsnapshot.symm.trans
    (answers_getElem? ⟨Counter.ofNat (2 ^ 128 - 1), Key.zero⟩ threePieces _ le_rfl)
  rw [Option.some_inj.mp hlast]
  decide

end Reservation

end CounterStream
