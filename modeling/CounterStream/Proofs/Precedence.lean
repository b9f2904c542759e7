import CounterStream.Proofs.Resume

/-!
# Explicit arguments decide the outcome

A configuration fills in what the arguments leave open and says how fills are cut up. The first is
nothing when the arguments say it all, and the second never shows, so commands with explicit
arguments have the same outcome under any two accepted configurations.
-/

namespace CounterStream

/-! ## Arguments that leave nothing open -/

def StreamChoice.IsExplicit (stream : StreamChoice) : Prop :=
  stream.seed.isSome ∧ stream.offset.isSome

/-- Nothing that the command uses is left to the configuration. A resumed stream starts where its
file says. -/
def Command.IsExplicit : Command → Prop
  | .generate stream _ name _ => stream.IsExplicit ∧ name.isSome
  | .inspect stream _ => stream.IsExplicit
  | .checkpoint stream _ _ => stream.IsExplicit
  | .resume _ _ name _ _ => name.isSome

/-- The samples or blocks that the command asks for. -/
def Command.count : Command → Nat
  | .generate _ count _ _ => count
  | .inspect _ steps => steps
  | .checkpoint _ _ _ => 0
  | .resume _ count _ _ _ => count

theorem StreamChoice.start_congr {stream : StreamChoice} (h : stream.IsExplicit)
    (c₁ c₂ : Config) (drawn₁ drawn₂ : Int64) :
    stream.start c₁ drawn₁ = stream.start c₂ drawn₂ := by
  obtain ⟨seed, offset, skip⟩ := stream
  obtain ⟨hseed, hoffset⟩ := h
  obtain ⟨seed, rfl⟩ := Option.isSome_iff_exists.mp hseed
  obtain ⟨offset, rfl⟩ := Option.isSome_iff_exists.mp hoffset
  rfl

theorem Config.choose_congr {name : Option String} (h : name.isSome) (c₁ c₂ : Config) :
    c₁.choose name = c₂.choose name := by
  obtain ⟨name, rfl⟩ := Option.isSome_iff_exists.mp h
  rfl

/-! ## How a fill is cut up does not show -/

theorem Distribution.generate_congr {d : Distribution} (hcheck : d.check = .ok ())
    {s₁ s₂ : Sharding} (h₁ : s₁.blocks ≠ 0) (h₂ : s₂.blocks ≠ 0) (e : Engine) {count : Nat}
    (hcount : count < 2 ^ 64) : d.generate s₁ e count = d.generate s₂ e count := by
  rw [d.generate_eq s₁ e count hcheck h₁ hcount, d.generate_eq s₂ e count hcheck h₂ hcount]

theorem Report.samples_congr (format : OutputFormat) {d : Distribution} (hcheck : d.check = .ok ())
    {s₁ s₂ : Sharding} (h₁ : s₁.blocks ≠ 0) (h₂ : s₂.blocks ≠ 0) (e : Engine) {count : Nat}
    (hcount : count < 2 ^ 64) : samples format d s₁ e count = samples format d s₂ e count := by
  have hsame := Distribution.generate_congr hcheck h₁ h₂ e hcount
  cases format with
  | hex => rfl
  | text => rw [samples, samples, hsame]
  | json => rw [samples, samples, hsame]

/-! ## Two runs of one command -/

theorem Config.bind_choose_congr {α : Type} {c₁ c₂ : Config} (h₁ : c₁.check = .ok ())
    {name : Option String} (hname : name.isSome) {f₁ f₂ : Distribution → Except CommandError α}
    (hf : ∀ d : Distribution, d.check = .ok () → f₁ d = f₂ d) :
    (c₁.choose name >>= f₁) = (c₂.choose name >>= f₂) := by
  rw [choose_congr hname c₂ c₁]
  cases hchoice : c₁.choose name with
  | error e => rfl
  | ok d => exact hf d (check_of_choose h₁ hchoice)

section

variable {c₁ c₂ : Config} (h₁ : c₁.check = .ok ()) (h₂ : c₂.check = .ok ())

include h₁ h₂

theorem Command.effect_congr {command : Command} (hexplicit : command.IsExplicit)
    (hcount : command.count < 2 ^ 64) (drawn₁ drawn₂ : Int64) (quiet : Bool) (read : FileReader) :
    command.effect c₁ drawn₁ quiet read = command.effect c₂ drawn₂ quiet read := by
  have hsamples (format : OutputFormat) {d : Distribution} (hcheck : d.check = .ok ())
      (e : Engine) : Report.samples format d c₁.sharding e command.count =
        Report.samples format d c₂.sharding e command.count :=
    Report.samples_congr format hcheck (Config.check_parts h₁).2 (Config.check_parts h₂).2 e hcount
  cases command with
  | generate stream count name format =>
    obtain ⟨hstream, hname⟩ := hexplicit
    rw [effect, effect, StreamChoice.start_congr hstream c₁ c₂ drawn₁ drawn₂]
    refine Config.bind_choose_congr h₁ hname fun d hcheck => ?_
    have hsame := hsamples format hcheck (stream.start c₂ drawn₂).2
    rw [Command.count] at hsame
    dsimp only
    rw [hsame]
  | inspect stream steps => rw [effect, effect, StreamChoice.start_congr hexplicit c₁ c₂]
  | checkpoint stream path encoding =>
    rw [effect, effect, StreamChoice.start_congr hexplicit c₁ c₂ drawn₁ drawn₂]
  | resume path count name format save =>
    rw [effect, effect]
    refine Config.bind_choose_congr h₁ hexplicit fun d hcheck => ?_
    cases Checkpoint.load read path with
    | error e => rfl
    | ok stored =>
      have hsame := hsamples format hcheck stored.1
      rw [Command.count] at hsame
      dsimp only [bind, Except.bind]
      rw [hsame]

theorem Command.run_congr {command : Command} (hexplicit : command.IsExplicit)
    (hcount : command.count < 2 ^ 64) (drawn₁ drawn₂ : Int64) (quiet : Bool) (d : Directory) :
    command.run c₁ drawn₁ quiet d = command.run c₂ drawn₂ quiet d := by
  rw [run, run, effect_congr h₁ h₂ hexplicit hcount drawn₁ drawn₂]

/-- The processes are given the same explicit arguments. The seeds that they draw may differ. -/
structure Process.Alike (p q : Process) : Prop where
  command_eq : p.command = q.command
  quiet_eq : p.quiet = q.quiet
  explicit : p.command.IsExplicit
  count_lt : p.command.count < 2 ^ 64

theorem Process.runAll_congr {ps qs : List Process} (h : List.Forall₂ Process.Alike ps qs)
    (d : Directory) : runAll c₁ d ps = runAll c₂ d qs := by
  -- each process finds the files that its counterpart finds
  induction h generalizing d with
  | nil => rfl
  | @cons p q ps qs hpq _ ih =>
    have hrun := Command.run_congr h₁ h₂ hpq.explicit hpq.count_lt p.drawn q.drawn p.quiet d
    rw [hpq.command_eq, hpq.quiet_eq] at hrun
    rw [runAll, runAll, hpq.command_eq, hpq.quiet_eq, hrun]
    dsimp only
    cases (q.command.run c₂ q.drawn q.quiet d).failure with
    | some e => rfl
    | none => dsimp only; rw [ih]

end

/-- Under any two accepted configurations, whatever seeds are drawn, a command with explicit
arguments prints the same, leaves the same files and fails alike. So do such commands one after
another, each with the files that the last one left. -/
theorem explicit_arguments_decide (c₁ c₂ : Config) (h₁ : c₁.check = .ok ())
    (h₂ : c₂.check = .ok ()) (drawn₁ drawn₂ : Int64) (quiet : Bool) (d : Directory) :
    (∀ (seed : Int64) (offset skip : UInt64) (count : UInt64) (name : String)
      (format : OutputFormat),
      let command := Command.generate ⟨some seed, some offset, skip⟩ count.toNat (some name) format
      command.run c₁ drawn₁ quiet d = command.run c₂ drawn₂ quiet d) ∧
    (∀ (seed : Int64) (offset skip : UInt64) (steps : UInt64),
      let command := Command.inspect ⟨some seed, some offset, skip⟩ steps.toNat
      command.run c₁ drawn₁ quiet d = command.run c₂ drawn₂ quiet d) ∧
    (∀ (seed : Int64) (offset skip : UInt64) (path : String) (encoding : Checkpoint.Encoding),
      let command := Command.checkpoint ⟨some seed, some offset, skip⟩ path encoding
      command.run c₁ drawn₁ quiet d = command.run c₂ drawn₂ quiet d) ∧
    (∀ (path : String) (count : UInt64) (name : String) (format : OutputFormat)
      (save : Option String),
      let command := Command.resume path count.toNat (some name) format save
      command.run c₁ drawn₁ quiet d = command.run c₂ drawn₂ quiet d) ∧
    ∀ ps qs, List.Forall₂ Process.Alike ps qs → Process.runAll c₁ d ps = Process.runAll c₂ d qs := by
  have hrun (command : Command) (hexplicit : command.IsExplicit)
      (hcount : command.count < 2 ^ 64) :=
    Command.run_congr h₁ h₂ hexplicit hcount drawn₁ drawn₂ quiet d
  refine ⟨?_, ?_, ?_, ?_, fun ps qs halike => Process.runAll_congr h₁ h₂ halike d⟩
  · intro seed offset skip count name format command
    exact hrun command ⟨⟨rfl, rfl⟩, rfl⟩ count.toNat_lt
  · intro seed offset skip steps command
    exact hrun command ⟨rfl, rfl⟩ steps.toNat_lt
  · intro seed offset skip path encoding command
    exact hrun command ⟨rfl, rfl⟩ (Nat.two_pow_pos 64)
  · intro path count name format save command
    exact hrun command rfl count.toNat_lt

theorem explicit_arguments_decide_when_sharded :
    let c₁ : Config := { seed := some 7, distribution := .normalDouble, sharding := .sequential }
    let c₂ : Config := { offset := 9, sharding := ⟨0, 1⟩ }
    let d : Directory :=
      { files := [("/tmp/s", Engine.toBytes ⟨Counter.ofNat (2 ^ 128 - 1), Key.zero⟩)]
        paths := .literal }
    let generate : Command :=
      .generate ⟨some (-1), some 0, 3⟩ 9 (some "uniform-int:0,6") .json
    let resume : Command := .resume "/tmp/s" 9 (some "half") .text (some "/tmp/s")
    c₁.check = .ok () ∧ c₂.check = .ok () ∧
    (generate.run c₁ 1 true d).failure = none ∧ generate.run c₁ 1 true d = generate.run c₂ 2 true d ∧
    (resume.run c₁ 1 true d).failure = none ∧ resume.run c₁ 1 true d = resume.run c₂ 2 true d ∧
    Process.runAll c₁ d [⟨resume, 1, true⟩, ⟨generate, 1, true⟩] =
      Process.runAll c₂ d [⟨resume, 2, true⟩, ⟨generate, 3, true⟩] := by
  intro c₁ c₂ d generate resume
  have h₁ : c₁.check = .ok () := rfl
  have h₂ : c₂.check = .ok () := rfl
  obtain ⟨hgenerate, -, -, hresume, hall⟩ := explicit_arguments_decide c₁ c₂ h₁ h₂ 1 2 true d
  have halike : List.Forall₂ Process.Alike [⟨resume, 1, true⟩, ⟨generate, 1, true⟩]
      [⟨resume, 2, true⟩, ⟨generate, 3, true⟩] :=
    .cons ⟨rfl, rfl, rfl, by decide⟩ (.cons ⟨rfl, rfl, ⟨⟨rfl, rfl⟩, rfl⟩, by decide⟩ .nil)
  exact ⟨h₁, h₂, by decide +kernel, hgenerate (-1) 0 3 9 "uniform-int:0,6" .json,
    by decide +kernel, hresume "/tmp/s" 9 "half" .text (some "/tmp/s"), hall _ _ halike⟩

end CounterStream
