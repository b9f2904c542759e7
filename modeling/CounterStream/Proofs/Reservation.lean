import Mathlib
import CounterStream.Sharing
import CounterStream.Proofs.Engine

/-!
# Reservations cut the stream into disjoint runs

Clients call the shared engine one at a time, in any order. The calls together are one walk along
the stream: each reservation is the run of blocks from where the one before it ended, so nothing is
reserved twice and nothing is left out.
-/

namespace CounterStream

namespace Engine

/-! ## Runs of positions -/

/-- The positions of the next `n` blocks. -/
def span (e : Engine) (n : Nat) : Set Nat := (fun i => (e.forward i).position) '' Set.Iio n

theorem mem_span (e : Engine) (n p : Nat) :
    p ∈ e.span n ↔ ∃ i < n, (e.position + i) % 2 ^ 128 = p := by
  simp only [span, Set.mem_image, Set.mem_Iio, forward_position]

theorem span_zero (e : Engine) : e.span 0 = ∅ := by
  simp [span]

theorem span_add (e : Engine) (m n : Nat) :
    e.span (m + n) = e.span m ∪ (e.forward m).span n := by
  ext p
  simp only [Set.mem_union, mem_span, forward_position, Nat.mod_add_mod]
  constructor
  · rintro ⟨i, hi, rfl⟩
    by_cases him : i < m
    · exact Or.inl ⟨i, him, rfl⟩
    · exact Or.inr ⟨i - m, by omega, by congr 1; omega⟩
  · rintro (⟨i, hi, rfl⟩ | ⟨i, hi, rfl⟩)
    · exact ⟨i, by omega, rfl⟩
    · exact ⟨m + i, by omega, by congr 1; omega⟩

theorem span_disjoint (e : Engine) (m n : Nat) (h : m + n ≤ 2 ^ 128) :
    Disjoint (e.span m) ((e.forward m).span n) := by
  rw [Set.disjoint_left]
  intro p hp hq
  rw [mem_span] at hp hq
  obtain ⟨i, hi, rfl⟩ := hp
  obtain ⟨j, hj, hij⟩ := hq
  rw [forward_position] at hij
  omega

theorem take_add (e : Engine) (m n : Nat) :
    (e.take (m + n)).1 = (e.take m).1 ++ ((e.forward m).take n).1 := by
  simp only [take_eq, List.range_add, List.map_append, List.map_map, forward_forward]
  rfl

end Engine

namespace Reservation

/-! ## Calls -/

inductive Call
  | blocks (n : UInt64)
  | words (n : UInt64)
  | snapshot

/-- The blocks that a call reserves. -/
def Call.reserved : Call → Nat
  | .blocks n => n.toNat
  | .words n => n.toNat ⌈/⌉ 4
  | .snapshot => 0

/-- The engine that a call is answered with, and the shared one after it. -/
def serve (shared : Engine) : Call → Engine × Engine
  | .blocks n => shared.reserve n
  | .words n => shared.reserveWords n
  | .snapshot => (Engine.ofState shared.state, shared)

theorem toNat_blocksOfWords (n : UInt64) : (blocksOfWords n).toNat = n.toNat ⌈/⌉ 4 := by
  have hn := n.toNat_lt
  rw [blocksOfWords, UInt64.toNat_ofNat_of_lt' (by rw [UInt64.size]; omega),
    Nat.ceilDiv_eq_add_pred_div]
  rfl

/-- One call: the answer is the shared engine as it was, which moves past what is reserved. -/
theorem serve_eq (shared : Engine) (c : Call) :
    serve shared c = (shared, shared.forward c.reserved) := by
  cases c with
  | blocks n => rw [serve, Engine.reserve, Engine.skip_eq, Call.reserved]
  | words n =>
    rw [serve, Engine.reserveWords, Engine.reserve, Engine.skip_eq, toNat_blocksOfWords,
      Call.reserved]
  | snapshot => rw [serve, Engine.ofState_state, Call.reserved, Engine.forward_zero]

/-! ## Schedules -/

variable {ι : Type}

/-- The calls of all clients in the order in which they hold the lock. -/
abbrev Schedule (ι : Type) := List (ι × Call)

structure Entry (ι : Type) where
  client : ι
  call : Call
  answer : Engine

def log (shared : Engine) : Schedule ι → List (Entry ι)
  | [] => []
  | (client, call) :: rest =>
    ⟨client, call, (serve shared call).1⟩ :: log (serve shared call).2 rest

def total (schedule : Schedule ι) : Nat := (schedule.map (·.2.reserved)).sum

/-- The positions that a reservation owns. -/
def Entry.span (entry : Entry ι) : Set Nat := entry.answer.span entry.call.reserved

/-- The blocks that a client generates from its private engine inside the reservation. -/
def Entry.blocks (entry : Entry ι) : List Block := (entry.answer.take entry.call.reserved).1

theorem log_cons (shared : Engine) (r : ι × Call) (rest : Schedule ι) :
    log shared (r :: rest) = ⟨r.1, r.2, shared⟩ :: log (shared.forward r.2.reserved) rest := by
  rw [log, serve_eq]

theorem total_cons (r : ι × Call) (rest : Schedule ι) :
    total (r :: rest) = r.2.reserved + total rest := rfl

theorem log_getElem? (shared : Engine) (schedule : Schedule ι) (i : Nat) :
    (log shared schedule)[i]? =
      schedule[i]?.map fun r => ⟨r.1, r.2, shared.forward (total (schedule.take i))⟩ := by
  induction schedule generalizing shared i with
  | nil => rfl
  | cons r rest ih =>
    rw [log_cons]
    cases i with
    | zero => simp [total]
    | succ i =>
      rw [List.getElem?_cons_succ, List.getElem?_cons_succ, ih, List.take_succ_cons, total_cons,
        Engine.forward_forward]

/-! ## Runs of reservations -/

theorem iUnion_span (shared : Engine) (schedule : Schedule ι) :
    ⋃ entry ∈ log shared schedule, entry.span = shared.span (total schedule) := by
  induction schedule generalizing shared with
  | nil => simp [log, total, Engine.span_zero]
  | cons r rest ih =>
    rw [log_cons, total_cons, Engine.span_add, ← ih]
    simp only [List.mem_cons, Set.iUnion_iUnion_eq_or_left, Entry.span]

theorem pairwise_disjoint (shared : Engine) (schedule : Schedule ι)
    (h : total schedule ≤ 2 ^ 128) :
    (log shared schedule).Pairwise fun a b => Disjoint a.span b.span := by
  induction schedule generalizing shared with
  | nil => exact List.Pairwise.nil
  | cons r rest ih =>
    rw [total_cons] at h
    rw [log_cons, List.pairwise_cons]
    refine ⟨?_, ih _ (by omega)⟩
    intro entry hentry
    -- Whatever comes later lies in the run of all the later calls together.
    have hlater : entry.span ⊆ (shared.forward r.2.reserved).span (total rest) := by
      rw [← iUnion_span]
      exact Set.subset_biUnion_of_mem (u := Entry.span) hentry
    exact (shared.span_disjoint _ _ h).mono_right hlater

theorem flatMap_blocks (shared : Engine) (schedule : Schedule ι) :
    (log shared schedule).flatMap Entry.blocks = (shared.take (total schedule)).1 := by
  induction schedule generalizing shared with
  | nil => rfl
  | cons r rest ih => rw [log_cons, total_cons, Engine.take_add, List.flatMap_cons, ih]; rfl

/-- All that one client generates. -/
def generated [DecidableEq ι] (entries : List (Entry ι)) (client : ι) : List Block :=
  (entries.filter (·.client = client)).flatMap Entry.blocks

theorem sum_generated [DecidableEq ι] (entries : List (Entry ι)) (clients : Finset ι)
    (h : ∀ entry ∈ entries, entry.client ∈ clients) :
    ∑ client ∈ clients, (generated entries client : Multiset Block) =
      (entries.flatMap Entry.blocks : List Block) := by
  induction entries with
  | nil => simp [generated]
  | cons entry rest ih =>
    have hcons (client : ι) : (generated (entry :: rest) client : Multiset Block) =
        (if entry.client = client then (entry.blocks : Multiset Block) else 0) +
          generated rest client := by
      unfold generated
      split_ifs with hc
      · rw [List.filter_cons_of_pos (by simpa using hc), List.flatMap_cons, Multiset.coe_add]
      · rw [List.filter_cons_of_neg (by simpa using hc), zero_add]
    simp only [hcons, Finset.sum_add_distrib, Finset.sum_ite_eq, h entry List.mem_cons_self,
      if_true, ih fun r hr => h r (List.mem_cons_of_mem _ hr), List.flatMap_cons,
      Multiset.coe_add]

/-- In every order of any clients' calls, a reservation and a snapshot are answered with the engine
past all blocks reserved before. As long as the stream is not used up, the reserved runs are
disjoint. They always make up the run of all reserved blocks, and what the clients generate is, in
some order, what one engine gives. -/
theorem reservations_partition_stream [DecidableEq ι] (start : Engine) (schedule : Schedule ι) :
    (∀ i (h : i < schedule.length), ∃ entry, (log start schedule)[i]? = some entry ∧
      entry.client = schedule[i].1 ∧ entry.call = schedule[i].2 ∧
      entry.answer.key = start.key ∧
      entry.answer.position = (start.position + total (schedule.take i)) % 2 ^ 128) ∧
    (total schedule ≤ 2 ^ 128 →
      (log start schedule).Pairwise fun a b => Disjoint a.span b.span) ∧
    ⋃ entry ∈ log start schedule, entry.span = start.span (total schedule) ∧
    ∑ client ∈ (schedule.map Prod.fst).toFinset,
        (generated (log start schedule) client : Multiset Block) =
      (start.take (total schedule)).1 := by
  refine ⟨?_, pairwise_disjoint start schedule, iUnion_span start schedule, ?_⟩
  · intro i h
    refine ⟨⟨schedule[i].1, schedule[i].2, start.forward (total (schedule.take i))⟩, ?_, rfl, rfl,
      rfl, Engine.forward_position _ _⟩
    rw [log_getElem?, List.getElem?_eq_getElem h, Option.map_some]
  · rw [sum_generated, flatMap_blocks]
    intro entry hentry
    obtain ⟨i, hi⟩ := List.mem_iff_getElem?.mp hentry
    rw [log_getElem?, Option.map_eq_some_iff] at hi
    obtain ⟨r, hr, rfl⟩ := hi
    exact List.mem_toFinset.mpr (List.mem_map_of_mem (List.mem_of_getElem? hr))

/-- Three clients of an engine just before the last position. -/
def crowd : Schedule Nat :=
  [(0, .words 0xFFFFFFFFFFFFFFFF), (1, .blocks 0), (2, .snapshot), (1, .words 5), (0, .blocks 3)]

theorem reservations_partition_stream_past_the_end :
    total crowd ≤ 2 ^ 128 ∧
    (log ⟨Counter.ofNat (2 ^ 128 - 1), Key.zero⟩ crowd).Pairwise
      (fun a b => Disjoint a.span b.span) ∧
    ∃ entry, (log ⟨Counter.ofNat (2 ^ 128 - 1), Key.zero⟩ crowd)[4]? = some entry ∧
      entry.client = 0 ∧ entry.answer.position = 2 ^ 62 + 1 := by
  have htotal : total crowd ≤ 2 ^ 128 := by decide
  obtain ⟨hentries, hdisjoint, -, -⟩ :=
    reservations_partition_stream ⟨Counter.ofNat (2 ^ 128 - 1), Key.zero⟩ crowd
  obtain ⟨entry, hentry, hclient, -, -, hposition⟩ := hentries 4 (by decide)
  refine ⟨htotal, hdisjoint htotal, entry, hentry, hclient, ?_⟩
  rw [hposition]
  decide

end Reservation

end CounterStream
