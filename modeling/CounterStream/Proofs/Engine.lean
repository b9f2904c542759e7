import Mathlib.Tactic.Ring
import Mathlib.Logic.Function.Iterate
import CounterStream.Engine
import CounterStream.Proofs.Counter

/-!
# Engines follow a 128-bit position

Every move of an engine is one addition to its position, whether it gives blocks or not. The blocks
it gives are those of the positions it passes.
-/

namespace CounterStream.Engine

theorem eq_of_position {d e : Engine} (hp : d.position = e.position) (hk : d.key = e.key) :
    d = e := by
  cases d
  cases e
  simp only [mk.injEq]
  exact ⟨Block.toNat_injective hp, hk⟩

/-! ## Engines further along -/

/-- The engine `n` blocks further, for a number of any size. -/
def forward (e : Engine) (n : Nat) : Engine :=
  { e with counter := Counter.ofNat (e.position + n) }

@[simp]
theorem forward_key (e : Engine) (n : Nat) : (e.forward n).key = e.key := rfl

@[simp]
theorem forward_position (e : Engine) (n : Nat) :
    (e.forward n).position = (e.position + n) % 2 ^ 128 := Counter.toNat_ofNat _

theorem position_lt (e : Engine) : e.position < 2 ^ 128 := e.counter.toNat_lt

@[simp]
theorem forward_zero (e : Engine) : e.forward 0 = e := by
  apply eq_of_position
  · rw [forward_position, Nat.add_zero, Nat.mod_eq_of_lt e.position_lt]
  · rfl

@[simp]
theorem forward_forward (e : Engine) (m n : Nat) :
    (e.forward m).forward n = e.forward (m + n) := by
  apply eq_of_position
  · simp only [forward_position, Nat.mod_add_mod, Nat.add_assoc]
  · rfl

theorem peek_forward (e : Engine) (n : Nat) :
    (e.forward n).peek = e.key.block (Counter.ofNat (e.position + n)) := rfl

theorem peek_eq (e : Engine) (n : Nat) (h : e.position = n % 2 ^ 128) :
    e.peek = e.key.block (Counter.ofNat n) := by
  have hc : Counter.ofNat n = e.counter := (Counter.ofNat_eq_iff n e.counter).mpr h.symm
  rw [hc, peek]

theorem next_eq (e : Engine) : e.next = (e.peek, e.forward 1) := by
  rw [next, Counter.succ_eq]; rfl

theorem skip_eq (e : Engine) (n : UInt64) : e.skip n = e.forward n.toNat := by
  rw [skip, Counter.add_eq]; rfl

theorem skip_ofNat (e : Engine) (n : Nat) (h : n < 2 ^ 64) :
    e.skip (UInt64.ofNat n) = e.forward n := by
  rw [skip_eq, UInt64.toNat_ofNat_of_lt' h]

theorem take_eq (e : Engine) (n : Nat) :
    e.take n = ((List.range n).map fun i => (e.forward i).peek, e.forward n) := by
  induction n generalizing e with
  | zero => simp [take]
  | succ n ih =>
    simp only [take, next_eq, ih, forward_forward, List.range_succ_eq_map, List.map_cons,
      List.map_map, forward_zero, Nat.add_comm 1]
    rfl

theorem iterate_next (e : Engine) (n : Nat) : (fun e : Engine => e.next.2)^[n] e = e.forward n := by
  induction n generalizing e with
  | zero => simp
  | succ n ih => rw [Function.iterate_succ_apply, ih, next_eq, forward_forward, Nat.add_comm]

@[simp]
theorem ofState_state (e : Engine) : ofState e.state = e := rfl

/-! ## Moves -/

inductive Move
  | next
  | skip (n : UInt64)
  | take (n : Nat)
  | reload

def move (e : Engine) : Move → List Block × Engine
  | .next => ([e.next.1], e.next.2)
  | .skip n => ([], e.skip n)
  | .take n => e.take n
  | .reload => ([], ofState e.state)

def after (e : Engine) : List Move → Engine
  | [] => e
  | m :: rest => (e.move m).2.after rest

/-- The number of blocks a move gives. -/
def Move.given : Move → Nat
  | .next => 1
  | .take n => n
  | .skip _ | .reload => 0

/-- The number of blocks a move goes past. -/
def Move.length : Move → Nat
  | .skip n => n.toNat
  | m => m.given

theorem move_eq (e : Engine) (m : Move) :
    e.move m = ((List.range m.given).map fun i => (e.forward i).peek, e.forward m.length) := by
  cases m with
  | next => simp [move, next_eq, Move.given, Move.length]
  | skip n => simp [move, skip_eq, Move.given, Move.length]
  | take n => exact take_eq e n
  | reload => simp [move, Move.given, Move.length]

theorem after_eq (e : Engine) (moves : List Move) :
    e.after moves = e.forward (moves.map Move.length).sum := by
  induction moves generalizing e with
  | nil => simp [after]
  | cons m rest ih => rw [after, ih, move_eq, forward_forward, List.map_cons, List.sum_cons]

/-- After any moves the engine stands at its first position plus all blocks given and skipped,
under its first key; the next move gives the blocks of the positions from there on; and a skip is
so many single blocks. -/
theorem after_refines_counter (e : Engine) (moves : List Move) (m : Move) :
    let passed := (moves.map Move.length).sum
    (e.after moves).position = (e.position + passed) % 2 ^ 128 ∧
    (e.after moves).key = e.key ∧
    ((e.after moves).move m).1 =
      (List.range m.given).map (fun i => e.key.block (Counter.ofNat (e.position + passed + i))) ∧
    ∀ n : UInt64, (e.after moves).skip n = (fun e => e.next.2)^[n.toNat] (e.after moves) := by
  intro passed
  have hafter : e.after moves = e.forward passed := after_eq e moves
  refine ⟨?_, ?_, ?_, ?_⟩
  · rw [hafter, forward_position]
  · rw [hafter, forward_key]
  · rw [hafter, move_eq]
    apply List.map_congr_left
    intro i _
    rw [forward_forward, peek_forward, Nat.add_assoc]
  · intro n
    rw [skip_eq, iterate_next]

end CounterStream.Engine
