import CounterStream.Proofs.Window

/-!
# An inspection shows the blocks that are generated

Hexadecimal digits are padded to a width, so the digits of a number in the base of words are those
of its words in a row. An inspection reports the engine, writes the lines that generating in
hexadecimal writes, numbered, and reports the engine that is left.
-/

namespace CounterStream

/-! ## Digits of words in a row -/

namespace Word

theorem toList_hex (width n : Nat) : (hex width n).toList =
    List.replicate (width - (Nat.toDigits 16 n).length) '0' ++ Nat.toDigits 16 n := by
  rw [hex, String.toList_ofList]

theorem length_hex {width n : Nat} (hwidth : 0 < width) (h : n < 16 ^ width) :
    (hex width n).toList.length = width := by
  have hle := (Nat.length_toDigits_le_iff (by decide) hwidth).mpr h
  rw [toList_hex, List.length_append, List.length_replicate]
  omega

theorem toList_hex_digit {width d : Nat} (hwidth : 0 < width) (n : Nat) (hd : d < 16) :
    (hex (width + 1) (16 * n + d)).toList = (hex width n).toList ++ [d.digitChar] := by
  have hdigit := Nat.toDigits_of_lt_base hd
  rw [toList_hex, toList_hex]
  rcases Nat.eq_zero_or_pos n with rfl | hn
  · -- A zero before the digit is one of the zeros that fill the places up.
    obtain ⟨w, rfl⟩ := Nat.exists_eq_add_of_lt hwidth
    simp [hdigit, Nat.toDigits_zero, List.replicate_succ']
  · have hdigits := Nat.toDigits_append_toDigits (b := 16) (by decide) hn hd
    rw [← hdigits, hdigit, List.length_append, List.length_singleton, Nat.add_sub_add_right,
      List.append_assoc]

theorem toList_hex_append {m : Nat} (hm : 0 < m) (a : Nat) {k : Nat} (hk : 0 < k) {b : Nat}
    (hb : b < 16 ^ k) :
    (hex (m + k) (a * 16 ^ k + b)).toList = (hex m a).toList ++ (hex k b).toList := by
  induction k, hk using Nat.le_induction generalizing b with
  | base =>
    have hdigit : b < 16 := hb
    rw [Nat.pow_one, Nat.mul_comm, toList_hex_digit hm a hdigit, toList_hex 1,
      Nat.toDigits_of_lt_base hdigit]
    rfl
  | succ k hk ih =>
    have hhigh : b / 16 < 16 ^ k := by
      rw [Nat.div_lt_iff_lt_mul (by decide), ← Nat.pow_succ]
      exact hb
    have hlow : b % 16 < 16 := Nat.mod_lt _ (by decide)
    have hsum : a * 16 ^ (k + 1) + b = 16 * (a * 16 ^ k + b / 16) + b % 16 := by
      rw [Nat.pow_succ, Nat.mul_add, Nat.add_assoc, Nat.div_add_mod]
      ring
    have hsplit : b = 16 * (b / 16) + b % 16 := (Nat.div_add_mod b 16).symm
    rw [hsum, ← Nat.add_assoc, toList_hex_digit (by omega) _ hlow, ih hhigh]
    conv_rhs => rw [hsplit, toList_hex_digit hk _ hlow]
    rw [List.append_assoc]

theorem hex_append {m : Nat} (hm : 0 < m) (a : Nat) {k : Nat} (hk : 0 < k) {b : Nat}
    (hb : b < 16 ^ k) : hex (m + k) (a * 16 ^ k + b) = hex m a ++ hex k b := by
  rw [← String.toList_inj, String.toList_append, toList_hex_append hm a hk hb]

/-- The number of hexadecimal digits, the high one first. -/
def ofHex? (digits : String) : Option Nat :=
  digits.toList.foldlM (fun n c => (Text.hexDigit? c).map (16 * n + ·)) 0

theorem hexDigit?_digitChar : ∀ d < 16, Text.hexDigit? d.digitChar = some d := by decide

theorem ofHex?_hex (width n : Nat) : ofHex? (hex width n) = some n := by
  have hzeros (k : Nat) : (List.replicate k '0').foldlM
      (fun n c => (Text.hexDigit? c).map (16 * n + ·)) 0 = some 0 := by
    induction k with
    | zero => rfl
    | succ k ih => exact ih
  rw [ofHex?, toList_hex, List.foldlM_append, hzeros]
  show (Nat.toDigits 16 n).foldlM _ 0 = some n
  induction n using Nat.strong_induction_on with
  | _ n ih =>
    rw [Nat.toDigits_eq_if (by decide)]
    split_ifs with hlt
    · simp [hexDigit?_digitChar n hlt]
    · have hdigit := hexDigit?_digitChar (n % 16) (Nat.mod_lt n (by decide))
      rw [List.foldlM_append, ih (n / 16) (Nat.div_lt_self (by omega) (by decide))]
      simp [hdigit, Nat.div_add_mod]

end Word

theorem Block.hex_toNat (b : Block) : Word.hex 32 b.toNat =
    String.join (b.words.map fun w => Word.hex 8 w.toNat).reverse := by
  have hsize : UInt32.size = 16 ^ 8 := rfl
  have hword (w : UInt32) : w.toNat < 16 ^ 8 := w.toNat_lt
  have hnumber : b.toNat = ((b.w3.toNat * 16 ^ 8 + b.w2.toNat) * 16 ^ 8 + b.w1.toNat) * 16 ^ 8 +
      b.w0.toNat := by
    rw [toNat, hsize]
    ring
  rw [hnumber, Word.hex_append (m := 24) (by decide) _ (by decide) (hword _),
    Word.hex_append (m := 16) (by decide) _ (by decide) (hword _),
    Word.hex_append (m := 8) (by decide) _ (by decide) (hword _)]
  simp [words, String.append_assoc]

/-! ## Reports of an engine -/

/-- What a report of an engine shows of it, as digits. -/
structure Report.Digits where
  key : List String
  counter : List String
  position : String

namespace Report

def Digits.lines (digits : Digits) : List String :=
  ["Key: [" ++ ", ".intercalate (digits.key.map ("0x" ++ ·)) ++ "]",
    "Counter: [" ++ ", ".intercalate (digits.counter.map ("0x" ++ ·)) ++ "]",
    "Position: 0x" ++ digits.position]

/-- The words of the key and of the counter, the low one first, and the counter as one number. -/
def digits (e : Engine) : Digits where
  key := [e.key.low, e.key.high].map fun w => Word.hex 8 w.toNat
  counter := e.counter.words.map fun w => Word.hex 8 w.toNat
  position := Word.hex 32 e.position

theorem position_eq (e : Engine) : position e = lines (digits e).lines := rfl

def label (i : Nat) (line : String) : String := "  [" ++ toString i ++ "] " ++ line

theorem numbered_eq (blocks : List Block) :
    numbered blocks = lines ((blocks.map words).mapIdx label) := by
  rw [numbered]
  congr 1
  apply List.ext_getElem
  · simp
  · intro i _ _
    simp [label]

theorem length_position_digits (e : Engine) : (digits e).position.length = 32 :=
  Word.length_hex (by decide) e.position_lt

end Report

/-! ## Both commands -/

theorem Command.run_inspect (config : Config) (stream : StreamChoice) (steps : Nat)
    (drawn : Int64) (quiet : Bool) (d : Directory) :
    let seed := (stream.start config drawn).1
    let start := (stream.start config drawn).2
    (Command.inspect stream steps).run config drawn quiet d =
      ⟨Report.lines (["Seed: " ++ toString seed.toInt] ++ (Report.digits start).lines ++
        ((start.take steps).1.map Report.words).mapIdx Report.label ++
        if steps = 0 then [] else (Report.digits (start.take steps).2).lines), d, none⟩ := by
  intro seed start
  have hend : (if steps = 0 then "" else Report.position (start.take steps).2) =
      Report.lines (if steps = 0 then [] else (Report.digits (start.take steps).2).lines) := by
    split_ifs
    · rfl
    · exact Report.position_eq _
  have hseed : Report.lines ["Seed: " ++ toString seed.toInt] =
      "Seed: " ++ toString seed.toInt ++ "\n" := by
    simp [Report.lines]
  rw [Report.lines_append, Report.lines_append, Report.lines_append, hseed, ← Report.position_eq,
    ← Report.numbered_eq, ← hend]
  show Outcome.mk (_ ++ "") d none = _
  rw [String.append_empty]
  rfl

theorem Command.run_generate_hex (config : Config) {choice : Option String} {dist : Distribution}
    (hchoice : config.choose choice = .ok dist) (stream : StreamChoice) (count : Nat)
    (drawn : Int64) (quiet : Bool) (d : Directory) :
    (Command.generate stream count choice .hex).run config drawn quiet d =
      ⟨Report.lines (((stream.start config drawn).2.take count).1.map Report.words), d, none⟩ :=
  run_generate hchoice stream rfl quiet d

/-- An inspection of so many steps prints the seed, a report of the engine it starts with, the lines
that generating as many blocks prints, numbered, and, unless there are none, a report of the engine
after them. The digits of a position are those of the counter's words, the high one first; the key
stays; and the second position is as many blocks further as there are steps, around 2^128. -/
theorem inspection_shows_generated_blocks (config : Config) (choice : Option String)
    (dist : Distribution) (hchoice : config.choose choice = .ok dist) (stream : StreamChoice)
    (steps : Nat) (drawn : Int64) (quiet : Bool) (d : Directory) :
    let seed := (stream.start config drawn).1
    let start := (stream.start config drawn).2
    let first := Report.digits start
    let last := Report.digits (start.take steps).2
    (∃ generated,
      (Command.generate stream steps choice .hex).run config drawn quiet d = ⟨generated, d, none⟩ ∧
      Report.linesOf generated = (start.take steps).1.map Report.words ∧
      (Report.linesOf generated).length = steps ∧
      (Command.inspect stream steps).run config drawn quiet d =
        ⟨Report.lines (["Seed: " ++ toString seed.toInt] ++ first.lines ++
          (Report.linesOf generated).mapIdx Report.label ++
          if steps = 0 then [] else last.lines), d, none⟩) ∧
    (∀ digits ∈ [first, last], digits.position = String.join digits.counter.reverse ∧
      digits.position.length = 32) ∧
    last.key = first.key ∧
    ∃ m n, Word.ofHex? first.position = some m ∧ Word.ofHex? last.position = some n ∧
      m = start.position ∧ (n + 2 ^ 128 - m) % 2 ^ 128 = steps % 2 ^ 128 := by
  intro seed start first last
  have hlines : Report.linesOf (Report.lines ((start.take steps).1.map Report.words)) =
      (start.take steps).1.map Report.words :=
    linesOf_lines _ (List.forall_mem_map.mpr fun b _ => Report.newline_not_mem_words b)
  have hfinal : (start.take steps).2 = start.forward steps := by rw [Engine.take_eq]
  refine ⟨⟨_, Command.run_generate_hex config hchoice stream steps drawn quiet d, hlines, ?_, ?_⟩,
    ?_, ?_, start.position, (start.forward steps).position, ?_, ?_, rfl, ?_⟩
  · rw [hlines, Engine.take_eq, List.length_map, List.length_map, List.length_range]
  · rw [hlines]
    exact Command.run_inspect config stream steps drawn quiet d
  · intro digits hdigits
    obtain ⟨e, rfl⟩ : ∃ e, digits = Report.digits e := by
      rcases List.mem_pair.mp hdigits with rfl | rfl
      · exact ⟨_, rfl⟩
      · exact ⟨_, rfl⟩
    exact ⟨e.counter.hex_toNat, Report.length_position_digits e⟩
  · show (Report.digits (start.take steps).2).key = _
    rw [hfinal]
    rfl
  · exact Word.ofHex?_hex 32 _
  · show Word.ofHex? (Report.digits (start.take steps).2).position = _
    rw [hfinal]
    exact Word.ofHex?_hex 32 _
  · have hlt := start.position_lt
    rw [Engine.forward_position]
    omega

theorem inspection_shows_generated_blocks_past_the_end :
    let config : Config := {}
    let stream : StreamChoice :=
      { seed := some (-1), offset := some 0xFFFFFFFFFFFFFFFF, skip := 0xFFFFFFFFFFFFFFFF }
    let start := (stream.start config 0).2
    let last := Report.digits (start.take 3).2
    config.choose none = .ok .uniformSingle ∧
    (Report.digits start).position = "ffffffffffffffffffffffffffffffff" ∧
    last.counter = ["00000002", "00000000", "00000000", "00000000"] ∧
    last.position = "00000000000000000000000000000002" ∧
    last.key = ["ffffffff", "ffffffff"] ∧
    ∃ generated,
      (Command.generate stream 3 none .hex).run config 0 true Directory.empty =
        ⟨generated, Directory.empty, none⟩ ∧
      (Report.linesOf generated).length = 3 ∧
      (Command.inspect stream 3).run config 0 true Directory.empty =
        ⟨Report.lines (["Seed: -1"] ++ (Report.digits start).lines ++
          (Report.linesOf generated).mapIdx Report.label ++ last.lines),
          Directory.empty, none⟩ := by
  intro config stream start last
  obtain ⟨⟨generated, hgenerate, -, hlength, hinspect⟩, hdigits, hkey, -⟩ :=
    inspection_shows_generated_blocks config none .uniformSingle rfl stream 3 0 true Directory.empty
  have hcounter : last.counter = ["00000002", "00000000", "00000000", "00000000"] := by
    decide +kernel
  refine ⟨rfl, by decide +kernel, hcounter, ?_, hkey.trans (by decide +kernel), generated,
    hgenerate, hlength, hinspect⟩
  rw [(hdigits last (by simp [last, start])).1, hcounter]
  rfl

end CounterStream
