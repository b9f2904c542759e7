import Mathlib.Tactic.Ring
import CounterStream.WordStream
import CounterStream.Proofs.Engine

/-!
# A word stream follows the words of its key

The words of successive blocks are numbered in order. A stream stands before one of these words, and
everything it does is told by that number: what it hands out are the words from there on, and it
moves past them. The number here is not wrapped, so that no word has two numbers in one run.
-/

namespace CounterStream.WordStream

/-! ## Numbered words -/

/-- Word `w` of all the words of a key, from position 0 on. -/
def wordAt (k : Key) (w : Nat) : UInt32 := (k.block (Counter.ofNat (w / 4))).word (w % 4)

/-- The number of the next word, below 2^130. -/
def wordNumber (s : WordStream) : Nat := (4 * s.engine.position + 2 ^ 130 - s.buffered) % 2 ^ 130

/-- The stream stands before word `w` of the key: its engine is past the block of that word unless
the word is the first of its block, and then the block that it keeps is that word's. -/
structure StandsAt (s : WordStream) (k : Key) (w : Nat) : Prop where
  key : s.engine.key = k
  position : s.engine.position = (w + 3) / 4 % 2 ^ 128
  taken : s.taken = if w % 4 = 0 then 4 else w % 4
  block : w % 4 ≠ 0 → s.block = k.block (Counter.ofNat (w / 4))

variable {s : WordStream} {k : Key} {w : Nat}

theorem StandsAt.buffered_eq (h : s.StandsAt k w) :
    s.buffered = (4 - w % 4) % 4 := by
  rw [buffered, h.taken]
  split_ifs <;> omega

theorem StandsAt.wordNumber_eq (h : s.StandsAt k w) :
    s.wordNumber = w % 2 ^ 130 := by
  rw [wordNumber, h.buffered_eq, h.position]
  omega

theorem standsAt_of_taken {n : Nat} (hk : s.engine.key = k)
    (hp : s.engine.position = n % 2 ^ 128) (ht : s.taken = 4) : s.StandsAt k (4 * n) where
  key := hk
  position := by
    rw [hp]
    omega
  taken := by rw [if_pos (by omega), ht]
  block h := absurd (by omega) h

theorem ofEngine_standsAt (e : Engine) : (ofEngine e).StandsAt e.key (4 * e.position) :=
  standsAt_of_taken rfl (Nat.mod_eq_of_lt e.position_lt).symm rfl

/-! ## One word -/

theorem StandsAt.next (h : s.StandsAt k w) :
    s.next.1 = wordAt k w ∧ s.next.2.StandsAt k (w + 1) := by
  have htaken := h.taken
  by_cases hw : w % 4 = 0
  · -- Nothing is left of the block: the word is the first of the block at the engine.
    rw [if_pos hw] at htaken
    have hpeek : s.engine.peek = k.block (Counter.ofNat (w / 4)) := by
      rw [s.engine.peek_eq (w / 4) (by rw [h.position]; omega), h.key]
    rw [WordStream.next, if_pos (by omega), Engine.next_eq]
    refine ⟨?_, ?_, ?_, ?_, ?_⟩
    · show s.engine.peek.word 0 = _
      rw [hpeek, wordAt, hw]
    · exact h.key
    · show (s.engine.forward 1).position = _
      rw [Engine.forward_position, h.position]
      omega
    · show 1 = _
      rw [if_neg (by omega)]
      omega
    · intro _
      show s.engine.peek = _
      rw [hpeek, show (w + 1) / 4 = w / 4 by omega]
  · rw [if_neg hw] at htaken
    rw [WordStream.next, if_neg (by omega)]
    refine ⟨?_, ?_, ?_, ?_, ?_⟩
    · rw [h.block hw, htaken, wordAt]
    · exact h.key
    · show s.engine.position = _
      rw [h.position]
      omega
    · show s.taken + 1 = _
      split_ifs <;> omega
    · intro hw'
      show s.block = _
      rw [h.block hw, show (w + 1) / 4 = w / 4 by omega]

/-! ## Several words -/

theorem StandsAt.nextDouble (h : s.StandsAt k w) :
    s.nextDouble.1 = Word.join (wordAt k w) (wordAt k (w + 1)) ∧
      s.nextDouble.2.StandsAt k (w + 2) := by
  obtain ⟨hhigh, hs⟩ := h.next
  obtain ⟨hlow, ht⟩ := hs.next
  refine ⟨?_, ht⟩
  rw [← hhigh, ← hlow]
  rfl

/-- The bytes are those of the words from `w` on, and a word that is only begun is used up. -/
theorem StandsAt.bytes (h : s.StandsAt k w) (n : Nat) :
    (s.bytes n).1 =
        (((List.range' w ((n + 3) / 4)).map (wordAt k)).flatMap Word.bytes).take n ∧
      (s.bytes n).2.StandsAt k (w + (n + 3) / 4) := by
  induction n using Nat.strong_induction_on generalizing s w with
  | _ n ih =>
    rw [WordStream.bytes]
    by_cases hn : n = 0
    · subst hn
      exact ⟨rfl, h⟩
    · obtain ⟨hword, hs⟩ := h.next
      obtain ⟨hrest, ht⟩ := ih (n - 4) (by omega) hs
      have hcount : (n + 3) / 4 = (n - 4 + 3) / 4 + 1 := by omega
      rw [if_neg hn]
      refine ⟨?_, ?_⟩
      · show (Word.bytes s.next.1).take n ++ (s.next.2.bytes (n - 4)).1 = _
        rw [hword, hrest, hcount, List.range'_succ, List.map_cons, List.flatMap_cons,
          List.take_append]
        rfl
      · show (s.next.2.bytes (n - 4)).2.StandsAt k _
        rw [hcount, show w + ((n - 4 + 3) / 4 + 1) = w + 1 + (n - 4 + 3) / 4 by omega]
        exact ht

/-! ## Dropped words -/

theorem StandsAt.skip (h : s.StandsAt k w) (n : UInt64) :
    (s.skip n).StandsAt k (4 * ((w + 3) / 4 + n.toNat)) := by
  apply standsAt_of_taken
  · exact h.key
  · show (s.engine.skip n).position = _
    rw [Engine.skip_eq, Engine.forward_position, h.position, Nat.mod_add_mod]
  · rfl

theorem StandsAt.resume (h : s.StandsAt k w) :
    s.resume.StandsAt k (4 * ((w + 3) / 4)) :=
  standsAt_of_taken h.key h.position rfl

/-! ## Requests

A request made before word `w` hands out `served` words, drops `dropped` words, and leaves the
stream before word `place`.
-/

inductive Request
  | word
  | doubleWord
  | single
  | double
  | bytes (n : Nat)
  | skip (n : UInt64)
  | resume

inductive Answer
  | nothing
  | word (w : UInt32)
  | doubleWord (d : UInt64)
  | single (x : Single)
  | double (x : Double)
  | bytes (bs : List UInt8)

def serve (s : WordStream) : Request → Answer × WordStream
  | .word => (.word s.next.1, s.next.2)
  | .doubleWord => (.doubleWord s.nextDouble.1, s.nextDouble.2)
  | .single => (.single s.single.1, s.single.2)
  | .double => (.double s.double.1, s.double.2)
  | .bytes n => (.bytes (s.bytes n).1, (s.bytes n).2)
  | .skip n => (.nothing, s.skip n)
  | .resume => (.nothing, s.resume)

def after (s : WordStream) (requests : List Request) : WordStream :=
  requests.foldl (fun s r => (s.serve r).2) s

namespace Request

def words : Request → Nat
  | .word | .single => 1
  | .doubleWord | .double => 2
  | .bytes n => (n + 3) / 4
  | .skip _ | .resume => 0

def answer : Request → List UInt32 → Answer
  | .word, [a] => .word a
  | .doubleWord, [a, b] => .doubleWord (Word.join a b)
  | .single, [a] =>
    .single (Binary.ofNat (a >>> 8).toNat * (Binary.ofNat 1 / Binary.ofNat (1 <<< 24)))
  | .double, [a, b] =>
    .double (Binary.ofNat (Word.join a b >>> 11).toNat *
      (Binary.ofNat 1 / Binary.ofNat (1 <<< 53)))
  | .bytes n, words => .bytes ((words.flatMap Word.bytes).take n)
  | _, _ => .nothing

def served (r : Request) (w : Nat) : List Nat := List.range' w r.words

def dropped : Request → Nat → List Nat
  | .skip n, w => List.range' w (4 * ((w + 3) / 4 + n.toNat) - w)
  | .resume, w => List.range' w (4 * ((w + 3) / 4) - w)
  | _, _ => []

def place : Request → Nat → Nat
  | .skip n, w => 4 * ((w + 3) / 4 + n.toNat)
  | .resume, w => 4 * ((w + 3) / 4)
  | r, w => w + r.words

end Request

theorem StandsAt.serve (h : s.StandsAt k w) (r : Request) :
    (s.serve r).1 = r.answer ((r.served w).map (wordAt k)) ∧
      (s.serve r).2.StandsAt k (r.place w) := by
  cases r with
  | word => exact ⟨congrArg Answer.word h.next.1, h.next.2⟩
  | doubleWord => exact ⟨congrArg Answer.doubleWord h.nextDouble.1, h.nextDouble.2⟩
  | single =>
    obtain ⟨hword, hs⟩ := h.next
    refine ⟨?_, hs⟩
    show Answer.single s.single.1 = Request.answer .single [wordAt k w]
    rw [← hword]
    rfl
  | double =>
    obtain ⟨hword, hs⟩ := h.nextDouble
    refine ⟨?_, hs⟩
    show Answer.double s.double.1 = Request.answer .double [wordAt k w, wordAt k (w + 1)]
    rw [Request.answer, ← hword]
    rfl
  | bytes n => exact ⟨congrArg Answer.bytes (h.bytes n).1, (h.bytes n).2⟩
  | skip n => exact ⟨rfl, h.skip n⟩
  | resume => exact ⟨rfl, h.resume⟩

theorem StandsAt.after (h : s.StandsAt k w) (requests : List Request) :
    (s.after requests).StandsAt k (requests.foldl (fun w r => r.place w) w) := by
  induction requests generalizing s w with
  | nil => exact h
  | cons r rest ih => exact ih (h.serve r).2

/-! ## Every word once -/

inductive Origin
  | new (seed : Int64) (offset : UInt64)
  | engine (e : Engine)
  | state (s : Engine.State)
  | bytes (seed : Vector UInt8 16)

def Origin.stream? : Origin → Option WordStream
  | .new seed offset => some (ofEngine (Engine.new seed offset))
  | .engine e => some (ofEngine e)
  | .state s => some (ofEngine (Engine.ofState s))
  | .bytes seed => ofBytes? seed.toList

theorem ofBytes?_of_length (bytes : List UInt8) (h : bytes.length = 16) :
    ∃ e, ofBytes? bytes = some (ofEngine e) := by
  have hlen : (Word.listOfBytes bytes).length = 4 := by
    rw [Word.length_listOfBytes, h]
  unfold ofBytes?
  match Word.listOfBytes bytes, hlen with
  | [_, _, _, _], _ => exact ⟨_, rfl⟩

theorem Origin.exists_engine (o : Origin) : ∃ e, o.stream? = some (ofEngine e) := by
  cases o with
  | new seed offset => exact ⟨_, rfl⟩
  | engine e => exact ⟨_, rfl⟩
  | state s => exact ⟨_, rfl⟩
  | bytes seed => exact ofBytes?_of_length _ seed.length_toList

/-! ## The whole run -/

/-- The number of the next word after a request, told by what the stream shows before it. -/
def Request.target (s : WordStream) : Request → Nat
  | .skip n => 4 * (s.engine.position + n.toNat)
  | .resume => 4 * s.engine.position
  | r => s.wordNumber + r.words

theorem StandsAt.target (h : s.StandsAt k w) (r : Request) :
    (s.serve r).2.wordNumber = r.target s % 2 ^ 130 := by
  rw [(h.serve r).2.wordNumber_eq]
  cases r with
  | skip n =>
    simp only [Request.target, Request.place, h.position]
    omega
  | resume =>
    simp only [Request.target, Request.place, h.position]
    omega
  | _ =>
    simp only [Request.target, Request.place, h.wordNumber_eq]
    omega

end CounterStream.WordStream
