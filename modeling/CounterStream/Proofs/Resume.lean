import CounterStream.Command.Basic
import CounterStream.Proofs.CheckpointFile
import CounterStream.Proofs.Config
import CounterStream.Proofs.Report

/-!
# A resumed run is one run

A checkpoint is resumed any number of times, each time from the file that the last one left. Every
resumption finds the engine the one before it ended with and prints the lines from there on, so
together they print what one run prints.
-/

namespace CounterStream

/-! ## Commands one after another -/

/-- A run of the program, with the seed it draws in case that it needs one. -/
structure Process where
  command : Command
  drawn : Int64
  quiet : Bool

/-- What processes print in all and the directory they leave, up to the first failure. -/
def Process.runAll (config : Config) : Directory → List Process → Outcome
  | d, [] => ⟨"", d, none⟩
  | d, p :: rest =>
    let first := p.command.run config p.drawn p.quiet d
    match first.failure with
    | some e => ⟨first.output, first.directory, some e⟩
    | none =>
      let later := runAll config first.directory rest
      ⟨first.output ++ later.output, later.directory, later.failure⟩

/-! ## Accepted configurations -/

theorem Config.check_of_choose {config : Config} (h : config.check = .ok ())
    {choice : Option String} {dist : Distribution} (hchoice : config.choose choice = .ok dist) :
    dist.check = .ok () := by
  cases choice with
  | none =>
    cases hchoice
    exact (check_parts h).1
  | some name =>
    cases hread : Distribution.read name with
    | error e =>
      rw [choose, hread] at hchoice
      cases hchoice
    | ok read =>
      rw [choose, hread] at hchoice
      cases hchoice
      exact Distribution.check_of_read name dist hread

namespace Command

variable {config : Config} {choice : Option String} {dist : Distribution} {format : OutputFormat}

/-! ## One command -/

theorem run_checkpoint (config : Config) {d : Directory} {path name : String}
    (hpath : d.resolve true path = .ok name) (stream : StreamChoice)
    (encoding : Checkpoint.Encoding) (drawn : Int64) (quiet : Bool) :
    ∃ notice saved,
      (checkpoint stream path encoding).run config drawn quiet d = ⟨notice, saved, none⟩ ∧
      saved.Holds path (Checkpoint.write encoding (stream.start config drawn).2) := by
  refine ⟨"" ++ if quiet then "" else "✓ Checkpoint written to " ++ path ++ "\n", _, ?_,
    Directory.holds_put hpath _⟩
  simp only [run, effect, Effect.apply, Directory.write_eq hpath]

theorem effect_resume (hchoice : config.choose choice = .ok dist) {read : FileReader}
    {path : String} {e final : Engine} {encoding : Checkpoint.Encoding}
    (hload : Checkpoint.load read path = .ok (e, encoding)) {count : Nat} {output : String}
    (hsamples : Report.samples format dist config.sharding e count = .ok (output, final))
    (save : Option String) (drawn : Int64) (quiet : Bool) :
    (resume path count choice format save).effect config drawn quiet read =
      .ok { output, save := save.map fun target => (target, Checkpoint.write encoding final) } := by
  rw [effect, hchoice, hload]
  show ((Report.samples format dist config.sharding e count).mapError _).bind _ = _
  rw [hsamples]
  rfl

theorem run_resume {d : Directory} {path : String}
    (hchoice : config.choose choice = .ok dist) {encoding : Checkpoint.Encoding} {e final : Engine}
    (hholds : d.Holds path (Checkpoint.write encoding e)) {count : Nat} {output : String}
    (hsamples : Report.samples format dist config.sharding e count = .ok (output, final))
    (drawn : Int64) (quiet : Bool) :
    ∃ saved,
      (resume path count choice format (some path)).run config drawn quiet d =
        ⟨output, saved, none⟩ ∧
      saved.Holds path (Checkpoint.write encoding final) := by
  have hload := Checkpoint.load_of_read? hholds.read (Checkpoint.read?_write encoding e)
  obtain ⟨name, hpath, -⟩ := hholds
  refine ⟨_, ?_, Directory.holds_put hpath _⟩
  rw [run, effect_resume hchoice hload hsamples]
  simp [Effect.apply, Directory.write_eq hpath]

theorem run_generate (hchoice : config.choose choice = .ok dist) (stream : StreamChoice)
    {count : Nat} {output : String} {final : Engine} {drawn : Int64}
    (hsamples : Report.samples format dist config.sharding (stream.start config drawn).2 count =
      .ok (output, final)) (quiet : Bool) (d : Directory) :
    (generate stream count choice format).run config drawn quiet d = ⟨output, d, none⟩ := by
  have heffect : (generate stream count choice format).effect config drawn quiet d.read =
      .ok { output } := by
    rw [effect, hchoice]
    show ((Report.samples format dist config.sharding (stream.start config drawn).2
      count).mapError _).bind _ = _
    rw [hsamples]
    rfl
  rw [run, heffect]
  simp [Effect.apply]

end Command

/-! ## Resumptions in a row -/

section

variable {config : Config} {choice : Option String} {dist : Distribution} {format : OutputFormat}
  {path : String}

theorem Process.runAll_cons {config : Config} {d later : Directory} {p : Process} {output : String}
    (h : p.command.run config p.drawn p.quiet d = ⟨output, later, none⟩) (rest : List Process) :
    runAll config d (p :: rest) =
      ⟨output ++ (runAll config later rest).output, (runAll config later rest).directory,
        (runAll config later rest).failure⟩ := by
  rw [runAll, h]

/-- Resumptions that stop where a block ends, all but the last of them, print one report, and the
file they leave holds the engine after it. -/
theorem runAll_resume (hconfig : config.check = .ok ()) (hchoice : config.choose choice = .ok dist)
    (hformat : format ≠ .json) (encoding : Checkpoint.Encoding) (counts : List Nat)
    (hcounts : ∀ n ∈ counts.dropLast, format.perBlock dist ∣ n)
    (htotal : format = .text → counts.sum < 2 ^ 64) (processes : List Process)
    (hprocesses : processes.map Process.command =
      counts.map fun n => .resume path n choice format (some path))
    (e : Engine) (d : Directory) (hholds : d.Holds path (Checkpoint.write encoding e)) :
    ∃ saved,
      Process.runAll config d processes =
        ⟨Report.lines ((List.range counts.sum).map (Report.line format dist e)), saved, none⟩ ∧
      saved.Holds path (Checkpoint.write encoding
        (e.forward (blocksFor (format.perBlock dist) counts.sum))) := by
  have hcheck := Config.check_of_choose hconfig hchoice
  have hblocks := (Config.check_parts hconfig).2
  have hpos := format.perBlock_pos dist
  induction counts generalizing processes e d with
  | nil =>
    obtain rfl : processes = [] := List.map_eq_nil_iff.mp hprocesses
    refine ⟨d, rfl, ?_⟩
    rw [List.sum_nil, blocksFor, Nat.div_eq_of_lt (by omega), Engine.forward_zero]
    exact hholds
  | cons n rest ih =>
    obtain ⟨p, later, rfl, hp, hlater⟩ := List.map_eq_cons_iff.mp hprocesses
    replace hp : p.command = .resume path n choice format (some path) := hp
    obtain ⟨hcut, hrest⟩ := cuts_cons hcounts
    rw [List.sum_cons] at htotal ⊢
    obtain ⟨d', hrun, hholds'⟩ := Command.run_resume hchoice hholds
      (Report.samples_eq_lines format hformat hcheck hblocks e n
        fun h => Nat.lt_of_le_of_lt (Nat.le_add_right n _) (htotal h)) p.drawn p.quiet
    obtain ⟨saved, hall, hsaved⟩ := ih hrest
      (fun h => Nat.lt_of_le_of_lt (Nat.le_add_left _ n) (htotal h)) later hlater _ d' hholds'
    refine ⟨saved, ?_, ?_⟩
    · rw [Process.runAll_cons (hp ▸ hrun), hall, Report.lines_add format dist e n _ hcut]
    · rwa [Engine.forward_forward, ← blocksFor_add _ n _ hpos hcut] at hsaved

end

/-- Counts for which resumptions print what one run prints: all but the last stop where a block
ends, and a document comes from one resumption. -/
def Seamless (format : OutputFormat) (dist : Distribution) (counts : List Nat) : Prop :=
  match format with
  | .hex => True
  | .text => (∀ n ∈ counts.dropLast, dist.groupSize ∣ n) ∧ counts.sum < 2 ^ 64
  | .json => ∃ n < 2 ^ 64, counts = [n]

/-- A checkpoint and resumptions that each save to its file print what one run prints from the same
start, and the file then holds the engine at the end of that run, stored as it was at first. No
process fails. -/
theorem resumptions_are_one_run (config : Config) (hconfig : config.check = .ok ())
    (choice : Option String) (dist : Distribution) (hchoice : config.choose choice = .ok dist)
    (format : OutputFormat) (counts : List Nat) (hcounts : Seamless format dist counts)
    (stream : StreamChoice) (drawn : Int64) (quiet : Bool) (encoding : Checkpoint.Encoding)
    (d : Directory) (path name : String) (hpath : d.resolve true path = .ok name)
    (processes : List Process)
    (hprocesses : processes.map Process.command =
      counts.map fun n => .resume path n choice format (some path)) :
    let start := (stream.start config drawn).2
    ∃ notice stored output saved final,
      (Command.checkpoint stream path encoding).run config drawn quiet d =
        ⟨notice, stored, none⟩ ∧
      Process.runAll config stored processes = ⟨output, saved, none⟩ ∧
      (Command.generate stream counts.sum choice format).run config drawn quiet d =
        ⟨output, d, none⟩ ∧
      Report.samples format dist config.sharding start counts.sum = .ok (output, final) ∧
      saved.read path = .ok (Checkpoint.write encoding final) ∧
      final.position =
        (start.position + blocksFor (format.perBlock dist) counts.sum) % 2 ^ 128 ∧
      final.key = start.key ∧
      (format = .json → ∃ samples : Samples, samples.length = counts.sum ∧
        output = (Report.document dist start final samples).prettyText ++ "\n") := by
  intro start
  have hcheck := Config.check_of_choose hconfig hchoice
  have hblocks := (Config.check_parts hconfig).2
  obtain ⟨notice, stored, hstored, hholds⟩ :=
    Command.run_checkpoint config hpath stream encoding drawn quiet
  by_cases hformat : format = .json
  · subst hformat
    obtain ⟨n, hn, rfl⟩ := hcounts
    obtain ⟨p, later, rfl, hp, hlater⟩ := List.map_eq_cons_iff.mp hprocesses
    obtain rfl : later = [] := List.map_eq_nil_iff.mp hlater
    rw [List.sum_singleton]
    have hsamples := Report.samples_eq_document hcheck hblocks start n hn
    obtain ⟨saved, hrun, hsaved⟩ :=
      Command.run_resume hchoice hholds hsamples p.drawn p.quiet
    replace hp : p.command = .resume path n choice .json (some path) := hp
    rw [← hp] at hrun
    refine ⟨notice, stored, _, saved, _, hstored, ?_,
      Command.run_generate hchoice stream hsamples quiet d, hsamples, hsaved.read,
      Engine.forward_position _ _, rfl, fun _ => ⟨_, ?_, rfl⟩⟩
    · rw [Process.runAll_cons hrun, Process.runAll, String.append_empty]
    · simp [Samples.length]
  · have hcuts : ∀ n ∈ counts.dropLast, format.perBlock dist ∣ n := by
      cases format with
      | hex => exact fun n _ => Nat.one_dvd n
      | text => exact hcounts.1
      | json => exact absurd rfl hformat
    have htotal : format = .text → counts.sum < 2 ^ 64 := by
      rintro rfl
      exact hcounts.2
    have hsamples := Report.samples_eq_lines format hformat hcheck hblocks start _ htotal
    obtain ⟨saved, hall, hsaved⟩ := runAll_resume hconfig hchoice hformat encoding counts
      hcuts htotal processes hprocesses start stored hholds
    exact ⟨notice, stored, _, saved, _, hstored, hall,
      Command.run_generate hchoice stream hsamples quiet d, hsamples, hsaved.read,
      Engine.forward_position _ _, rfl, fun h => absurd h hformat⟩

theorem resumptions_are_one_run_past_the_end :
    let config : Config := {}
    let stream : StreamChoice :=
      { seed := some (-1), offset := some 0xFFFFFFFFFFFFFFFF, skip := 0xFFFFFFFFFFFFFFFF }
    let resume (n : Nat) : Command := .resume "./stream.bin" n none .text (some "./stream.bin")
    config.check = .ok () ∧ config.choose none = .ok .uniformSingle ∧
    Seamless .text .uniformSingle [4, 3] ∧
    Directory.empty.resolve true "./stream.bin" = .ok "stream.bin" ∧
    ∃ notice stored output saved final,
      (Command.checkpoint stream "./stream.bin" .binary).run config 0 true Directory.empty =
        ⟨notice, stored, none⟩ ∧
      Process.runAll config stored [⟨resume 4, 1, true⟩, ⟨resume 3, 2, false⟩] =
        ⟨output, saved, none⟩ ∧
      (Command.generate stream 7 none .text).run config 0 true Directory.empty =
        ⟨output, Directory.empty, none⟩ ∧
      saved.read "./stream.bin" = .ok (Checkpoint.write .binary final) ∧ final.position = 1 := by
  intro config stream resume
  have hconfig : config.check = .ok () := rfl
  have hcounts : Seamless .text .uniformSingle [4, 3] := ⟨by decide, by decide⟩
  have hpath : Directory.empty.resolve true "./stream.bin" = .ok "stream.bin" := by rfl
  obtain ⟨notice, stored, output, saved, final, hstored, hall, hgenerate, -, hsaved, hposition,
    -⟩ := resumptions_are_one_run config hconfig none .uniformSingle rfl .text [4, 3] hcounts stream
      0 true .binary Directory.empty "./stream.bin" "stream.bin" hpath
      [⟨resume 4, 1, true⟩, ⟨resume 3, 2, false⟩] rfl
  exact ⟨hconfig, rfl, hcounts, hpath, notice, stored, output, saved, final, hstored, hall,
    hgenerate, hsaved, hposition.trans (by decide +kernel)⟩

end CounterStream
