import CounterStream.Proofs.Resume

/-!
# Skips and counts cut a report by lines

A report on a later part of a stream is a run of lines of the report on the whole. No line holds a
line break of its own, so lines can be counted in what is printed.
-/

namespace CounterStream

/-! ## Lines of a printed text -/

/-- The lines of a text that ends each with a line break. -/
def Report.linesOf (output : String) : List String :=
  (Text.split '\n' output.toList).dropLast.map String.ofList

theorem split_lines (texts : List String) (h : ∀ t ∈ texts, '\n' ∉ t.toList) :
    Text.split '\n' (Report.lines texts).toList = texts.map String.toList ++ [[]] := by
  induction texts with
  | nil => rfl
  | cons t rest ih =>
    have hlines : (Report.lines (t :: rest)).toList =
        t.toList ++ '\n' :: (Report.lines rest).toList := by
      rw [← List.singleton_append (l := rest), Report.lines_append]
      simp [Report.lines]
    rw [hlines, Text.split_append '\n' _ _ (h t List.mem_cons_self),
      ih fun r hr => h r (List.mem_cons_of_mem t hr)]
    rfl

theorem linesOf_lines (texts : List String) (h : ∀ t ∈ texts, '\n' ∉ t.toList) :
    Report.linesOf (Report.lines texts) = texts := by
  rw [Report.linesOf, split_lines texts h, List.dropLast_concat, List.map_map]
  exact (List.map_congr_left fun t _ => String.ofList_toList).trans (List.map_id _)

/-! ## No line break in a line -/

theorem digitChar_of_mem_toDigits (b : Nat) (hb : 1 < b) (n : Nat) :
    ∀ c ∈ Nat.toDigits b n, ∃ m < b, c = m.digitChar := by
  induction n using Nat.strong_induction_on with
  | _ n ih =>
    intro c hc
    rw [Nat.toDigits_eq_if hb] at hc
    split_ifs at hc with hlt
    · exact ⟨n, hlt, List.mem_singleton.mp hc⟩
    · rcases List.mem_append.mp hc with hc | hc
      · exact ih (n / b) (Nat.div_lt_self (by omega) hb) c hc
      · exact ⟨n % b, Nat.mod_lt n (by omega), List.mem_singleton.mp hc⟩

theorem newline_not_mem_hex (width n : Nat) : '\n' ∉ (Word.hex width n).toList := by
  have hdigit : ∀ m < 16, '\n' ≠ m.digitChar := by decide
  rw [Word.hex, String.toList_ofList, List.mem_append]
  rintro (h | h)
  · exact absurd (List.eq_of_mem_replicate h) (by decide)
  · obtain ⟨m, hm, heq⟩ := digitChar_of_mem_toDigits 16 (by decide) n _ h
    exact hdigit m hm heq

theorem not_isNumberChar_newline : ¬ IsNumberChar '\n' := by
  simp [IsNumberChar]

theorem Binary.newline_not_mem_text {F : Format} (x : Binary F) : '\n' ∉ x.text.toList := by
  rcases Nat.lt_trichotomy x.ordinal F.infinity with hlt | heq | hgt
  · exact fun h => not_isNumberChar_newline
      (x.isNumberChar_of_mem_text ((isFinite_iff x).mpr hlt) _ h)
  · have hinfinite : x.isInfinite := by rw [isInfinite, heq, beq_self_eq_true]
    have hnumber : x.isNaN = false := by simp [isNaN, heq]
    rw [text, Layout.write, hnumber, hinfinite, if_neg (by decide), if_pos rfl,
      String.toList_ofList]
    cases x.negative <;> decide
  · have hnan : x.isNaN := by rw [isNaN, decide_eq_true_eq]; exact hgt
    rw [text, Layout.write, if_pos hnan]
    decide

theorem SampleType.newline_not_mem_text (t : SampleType) (v : t.Value) :
    '\n' ∉ (t.text v).toList := by
  cases t with
  | half => exact Binary.newline_not_mem_text _
  | single => exact Binary.newline_not_mem_text (F := Format.single) v
  | double => exact Binary.newline_not_mem_text (F := Format.double) v
  | integer =>
    exact fun h => not_isNumberChar_newline (isNumberChar_of_mem_toString (Int64.toInt v) _ h)

theorem Report.newline_not_mem_words (b : Block) : '\n' ∉ (Report.words b).toList := by
  have hspace : '\n' ∉ " ".toList := by decide
  simp only [Report.words, Block.words, List.map_cons, List.map_nil, String.intercalate_cons_cons,
    String.intercalate_singleton, String.toList_append, List.mem_append, newline_not_mem_hex,
    hspace, or_self, not_false_eq_true]

theorem Report.newline_not_mem_line (format : OutputFormat) (d : Distribution) (e : Engine)
    (i : Nat) : '\n' ∉ (Report.line format d e i).toList := by
  cases format with
  | hex => exact newline_not_mem_words _
  | text | json => exact d.sampleType.newline_not_mem_text _

/-! ## Windows -/

theorem Report.line_window (format : OutputFormat) (d : Distribution) (e : Engine)
    (k count whole : Nat) (h : k * format.perBlock d + count ≤ whole) :
    (((List.range whole).map (line format d e)).drop (k * format.perBlock d)).take count =
      (List.range count).map (line format d (e.forward k)) := by
  obtain ⟨rest, rfl⟩ := Nat.exists_eq_add_of_le h
  rw [Nat.add_assoc, List.range_add, List.map_append, List.drop_left' (by simp), List.range_add,
    List.map_append, List.map_append, List.take_left' (by simp), List.map_map]
  exact List.map_congr_left fun i _ => (line_forward format d e k i).symm

theorem StreamChoice.start_skip (stream : StreamChoice) (config : Config) (drawn : Int64)
    (k : UInt64) (h : stream.skip.toNat + k.toNat < 2 ^ 64) :
    ({ stream with skip := stream.skip + k }.start config drawn).2 =
      (stream.start config drawn).2.forward k.toNat := by
  have hsum : (stream.skip + k).toNat = stream.skip.toNat + k.toNat := by
    rw [UInt64.toNat_add, Nat.mod_eq_of_lt h]
  simp only [start, Engine.skip_eq, hsum, Engine.forward_forward]

/-- A run with a longer skip and any count prints those lines of a run with the shorter skip that
start where the blocks between them end, so a smaller count alone prints the first lines. -/
theorem generate_prints_window (config : Config) (hconfig : config.check = .ok ())
    (choice : Option String) (dist : Distribution) (hchoice : config.choose choice = .ok dist)
    (format : OutputFormat) (hformat : format ≠ .json) (stream : StreamChoice) (k : UInt64)
    (hskip : stream.skip.toNat + k.toNat < 2 ^ 64) (count whole : Nat) (hwhole : whole < 2 ^ 64)
    (hcount : k.toNat * (if format = .hex then 1 else dist.samplesPerBlock) + count ≤ whole)
    (drawn : Int64) (quiet : Bool) (d : Directory) :
    let group := if format = .hex then 1 else dist.samplesPerBlock
    ∃ output part,
      (Command.generate stream whole choice format).run config drawn quiet d =
        ⟨output, d, none⟩ ∧
      (Command.generate { stream with skip := stream.skip + k } count choice format).run config
        drawn quiet d = ⟨part, d, none⟩ ∧
      (Report.linesOf output).length = whole ∧
      part = Report.lines (((Report.linesOf output).drop (k.toNat * group)).take count) ∧
      (k = 0 → ∃ rest, output = part ++ rest) := by
  intro group
  have hgroup : group = format.perBlock dist := by
    cases format with
    | hex => rfl
    | text => exact dist.groupSize_eq_samplesPerBlock.symm
    | json => exact absurd rfl hformat
  have hcheck := Config.check_of_choose hconfig hchoice
  have hblocks := (Config.check_parts hconfig).2
  have hlength : k.toNat * format.perBlock dist + count ≤ whole := hgroup ▸ hcount
  let start := (stream.start config drawn).2
  have hwindow := Report.line_window format dist start k.toNat count whole hlength
  have hwholeSamples := Report.samples_eq_lines format hformat hcheck hblocks start whole
    fun _ => hwhole
  have hpartSamples := Report.samples_eq_lines format hformat hcheck hblocks
    (start.forward k.toNat) count fun _ => by omega
  rw [← StreamChoice.start_skip stream config drawn k hskip] at hpartSamples
  have hlines : Report.linesOf (Report.lines ((List.range whole).map
      (Report.line format dist start))) = (List.range whole).map (Report.line format dist start) :=
    linesOf_lines _ (List.forall_mem_map.mpr fun i _ =>
      Report.newline_not_mem_line format dist start i)
  refine ⟨_, _, Command.run_generate hchoice stream hwholeSamples quiet d,
    Command.run_generate hchoice _ hpartSamples quiet d, ?_, ?_, ?_⟩
  · rw [hlines, List.length_map, List.length_range]
  · rw [hlines, hgroup, hwindow, StreamChoice.start_skip stream config drawn k hskip]
  · rintro rfl
    -- without a skip the window starts at the first line
    have hprefix := List.take_append_drop count
      ((List.range whole).map (Report.line format dist start))
    rw [UInt64.toNat_zero, Nat.zero_mul, List.drop_zero, ← UInt64.toNat_zero] at hwindow
    rw [hwindow, ← StreamChoice.start_skip stream config drawn 0 hskip] at hprefix
    exact ⟨_, by rw [← Report.lines_append, hprefix]⟩

theorem generate_prints_window_past_the_end :
    let config : Config := {}
    let stream : StreamChoice :=
      { seed := some (-1), offset := some 0xFFFFFFFFFFFFFFFF, skip := 0xFFFFFFFFFFFFFFFE }
    config.check = .ok () ∧ config.choose none = .ok .uniformSingle ∧
    OutputFormat.text ≠ .json ∧ stream.skip.toNat + (1 : UInt64).toNat < 2 ^ 64 ∧
    ∃ output part,
      (Command.generate stream 11 none .text).run config 0 true Directory.empty =
        ⟨output, Directory.empty, none⟩ ∧
      (Command.generate { stream with skip := 0xFFFFFFFFFFFFFFFF } 6 none .text).run config 0 true
        Directory.empty = ⟨part, Directory.empty, none⟩ ∧
      part = Report.lines (((Report.linesOf output).drop 4).take 6) := by
  intro config stream
  have hskip : stream.skip.toNat + (1 : UInt64).toNat < 2 ^ 64 := by decide
  obtain ⟨output, part, houtput, hpart, -, hlines, -⟩ := generate_prints_window config rfl none
    .uniformSingle rfl .text (by decide) stream 1 hskip 6 11 (by decide) (by decide) 0 true
    Directory.empty
  exact ⟨rfl, rfl, by decide, hskip, output, part, houtput, hpart, hlines⟩

end CounterStream
