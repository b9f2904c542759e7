import CounterStream.Proofs.Precedence

/-!
# Commands that fail leave the directory as it was

What a command fails on is told from its arguments and the files alone: first a name that means no
distribution, then a file that holds no engine, then a path that leads to no file for writing. There
is nothing else to fail on, since an accepted configuration always gives samples. Saving is the last
step and concerns one file.
-/

namespace CounterStream

/-! ## What there is to fail on -/

def error? {ε α : Type} : Except ε α → Option ε
  | .error e => some e
  | .ok _ => none

theorem eq_error_of_error? {ε α : Type} {r : Except ε α} {e : ε} (h : error? r = some e) :
    r = .error e := by
  cases r with
  | error e' => exact congrArg Except.error (Option.some_inj.mp h)
  | ok a => cases h

theorem exists_ok_of_error? {ε α : Type} {r : Except ε α} (h : error? r = none) :
    ∃ a, r = .ok a := by
  cases r with
  | error e => cases h
  | ok a => exact ⟨a, rfl⟩

/-- What is wrong with the name of a distribution, if one is given. -/
def Distribution.nameFault? : Option String → Option CommandError
  | none => none
  | some name => (error? (read name)).map .parameter

/-- Why no engine is loaded from a path: there is no file to read, or it holds none. -/
def Checkpoint.loadFault? (d : Directory) (path : String) : Option CommandError :=
  match d.read path with
  | .error cause => some (.file cause)
  | .ok bytes => if (read? bytes).isSome then none else some (.checkpoint path)

/-- Why nothing is saved at a path. -/
def Directory.writeFault? (d : Directory) (path : String) : Option CommandError :=
  (error? (d.resolve true path)).map .file

theorem Config.error?_choose (c : Config) (choice : Option String) :
    error? (c.choose choice) = Distribution.nameFault? choice := by
  cases choice with
  | none => rfl
  | some name =>
    rw [choose, Distribution.nameFault?]
    cases Distribution.read name <;> rfl

theorem Checkpoint.error?_load (d : Directory) (path : String) :
    error? (load d.read path) = loadFault? d path := by
  rw [load, loadFault?]
  cases d.read path with
  | error cause => rfl
  | ok bytes =>
    dsimp only [bind, Except.bind, Except.mapError]
    cases read? bytes <;> rfl

theorem Directory.error?_write (d : Directory) (path : String) (bytes : List UInt8) :
    (error? (d.write path bytes)).map .file = d.writeFault? path := by
  rw [write, writeFault?]
  cases d.resolve true path <;> rfl

theorem Report.exists_samples (format : OutputFormat) {d : Distribution} {sharding : Sharding}
    (hcheck : d.check = .ok ()) (hblocks : sharding.blocks ≠ 0) (e : Engine) {count : Nat}
    (hcount : count < 2 ^ 64) :
    ∃ output final, samples format d sharding e count = .ok (output, final) := by
  by_cases hformat : format = .json
  · subst hformat
    exact ⟨_, _, samples_eq_document hcheck hblocks e count hcount⟩
  · exact ⟨_, _, samples_eq_lines format hformat hcheck hblocks e count fun _ => hcount⟩

/-! ## One file is saved -/

namespace Directory

/-- The file at a path is made or replaced. Every other file stays, and so does where paths lead. -/
def Saved (d d' : Directory) (path : String) (bytes : List UInt8) : Prop :=
  ∃ name, d.resolve true path = .ok name ∧ d'.paths = d.paths ∧ d'.find? name = some bytes ∧
    ∀ other, other ≠ name → d'.find? other = d.find? other

theorem saved_of_write {d d' : Directory} {path : String} {bytes : List UInt8}
    (h : d.write path bytes = .ok d') : d.Saved d' path bytes := by
  obtain ⟨name, hpath, rfl⟩ := exists_eq_put_of_write h
  exact ⟨name, hpath, rfl, d.find?_put name bytes,
    fun other hother => d.find?_put_of_ne hother bytes⟩

end Directory

namespace Effect

variable (effect : Effect) {d : Directory} {path : String} {bytes : List UInt8}

theorem apply_of_fault (hsave : effect.save = some (path, bytes)) {e : CommandError}
    (h : d.writeFault? path = some e) : effect.apply d = ⟨effect.output, d, some e⟩ := by
  rw [← Directory.error?_write d path bytes] at h
  obtain ⟨cause, hcause, rfl⟩ := Option.map_eq_some_iff.mp h
  simp only [apply, hsave, eq_error_of_error? hcause]

theorem exists_apply (hsave : effect.save = some (path, bytes)) (h : d.writeFault? path = none) :
    ∃ d', effect.apply d = ⟨effect.output ++ effect.notice, d', none⟩ ∧ d.Saved d' path bytes := by
  rw [← Directory.error?_write d path bytes] at h
  obtain ⟨d', hwrite⟩ := exists_ok_of_error? (Option.map_eq_none_iff.mp h)
  refine ⟨d', ?_, Directory.saved_of_write hwrite⟩
  simp only [apply, hsave, hwrite]

end Effect

/-! ## Commands that fail -/

namespace Command

variable {config : Config} {choice : Option String} {d : Directory} {path : String}
  {e : CommandError}

theorem checkpoint_of_fault (h : d.writeFault? path = some e) (config : Config)
    (stream : StreamChoice) (encoding : Checkpoint.Encoding) (drawn : Int64) (quiet : Bool) :
    (checkpoint stream path encoding).run config drawn quiet d = ⟨"", d, some e⟩ := by
  rw [run, effect]
  exact Effect.apply_of_fault _ rfl h

theorem exists_checkpoint (h : d.writeFault? path = none) (config : Config) (stream : StreamChoice)
    (encoding : Checkpoint.Encoding) (drawn : Int64) (quiet : Bool) :
    ∃ notice d',
      (checkpoint stream path encoding).run config drawn quiet d = ⟨notice, d', none⟩ ∧
      d.Saved d' path (Checkpoint.write encoding (stream.start config drawn).2) := by
  rw [run, effect]
  exact ⟨_, Effect.exists_apply _ rfl h⟩

theorem generate_of_fault (h : Distribution.nameFault? choice = some e) (stream : StreamChoice)
    (count : Nat) (format : OutputFormat) (drawn : Int64) (quiet : Bool) :
    (generate stream count choice format).run config drawn quiet d = ⟨"", d, some e⟩ := by
  rw [← config.error?_choose choice] at h
  rw [run, effect, eq_error_of_error? h]
  rfl

theorem resume_of_fault
    (h : (Distribution.nameFault? choice).or (Checkpoint.loadFault? d path) = some e) (count : Nat)
    (format : OutputFormat) (save : Option String) (drawn : Int64) (quiet : Bool) :
    (resume path count choice format save).run config drawn quiet d = ⟨"", d, some e⟩ := by
  rw [← config.error?_choose choice, ← Checkpoint.error?_load d path] at h
  rw [run, effect]
  cases hchoice : config.choose choice with
  | error cause =>
    rw [hchoice] at h
    cases h
    rfl
  | ok dist =>
    rw [hchoice] at h
    rw [eq_error_of_error? h]
    rfl

section

variable {dist : Distribution} {format : OutputFormat} {start final : Engine}
  {encoding : Checkpoint.Encoding} {count : Nat} {output target : String}
  (hchoice : config.choose choice = .ok dist)
  (hload : Checkpoint.load d.read path = .ok (start, encoding))
  (hsamples : Report.samples format dist config.sharding start count = .ok (output, final))
  (drawn : Int64) (quiet : Bool)

include hchoice hload hsamples

theorem resume_unsaved :
    (resume path count choice format none).run config drawn quiet d = ⟨output, d, none⟩ := by
  rw [run, effect_resume hchoice hload hsamples]
  simp [Effect.apply]

theorem resume_of_writeFault (h : d.writeFault? target = some e) :
    (resume path count choice format (some target)).run config drawn quiet d =
      ⟨output, d, some e⟩ := by
  rw [run, effect_resume hchoice hload hsamples]
  exact Effect.apply_of_fault _ rfl h

theorem exists_resume (h : d.writeFault? target = none) :
    ∃ d', (resume path count choice format (some target)).run config drawn quiet d =
        ⟨output, d', none⟩ ∧
      d.Saved d' target (Checkpoint.write encoding final) := by
  rw [run, effect_resume hchoice hload hsamples]
  obtain ⟨d', happly, hsaved⟩ := Effect.exists_apply
    { output, save := some (target, Checkpoint.write encoding final) } rfl h
  exact ⟨d', by simpa using happly, hsaved⟩

/-- Once there are samples, they are printed, and saving is all that is left to fail. -/
theorem resume_of_samples (save : Option String) :
    let outcome := (resume path count choice format save).run config drawn quiet d
    outcome.output = output ∧ outcome.failure = save.bind d.writeFault? ∧
    (outcome.failure.isSome ∨ save = none → outcome.directory = d) ∧
    (outcome.failure = none → ∀ target, save = some target →
      d.Saved outcome.directory target (Checkpoint.write encoding final)) := by
  intro outcome
  cases save with
  | none =>
    have hrun : outcome = _ := resume_unsaved hchoice hload hsamples drawn quiet
    rw [hrun]
    exact ⟨rfl, rfl, fun _ => rfl, nofun⟩
  | some target =>
    cases hfault : d.writeFault? target with
    | some e =>
      have hrun : outcome = _ := resume_of_writeFault hchoice hload hsamples drawn quiet hfault
      rw [hrun]
      exact ⟨rfl, hfault.symm, fun _ => rfl, nofun⟩
    | none =>
      obtain ⟨d', hresume, hsaved⟩ := exists_resume hchoice hload hsamples drawn quiet hfault
      have hrun : outcome = _ := hresume
      rw [hrun]
      refine ⟨rfl, hfault.symm, by simp, ?_⟩
      rintro - target ⟨⟩
      exact hsaved

end

theorem exists_samples (hconfig : config.check = .ok ())
    (h : Distribution.nameFault? choice = none) (format : OutputFormat) (start : Engine)
    (count : UInt64) :
    ∃ dist output final, config.choose choice = .ok dist ∧
      Report.samples format dist config.sharding start count.toNat = .ok (output, final) := by
  rw [← config.error?_choose choice] at h
  obtain ⟨dist, hchoice⟩ := exists_ok_of_error? h
  obtain ⟨output, final, hsamples⟩ := Report.exists_samples format
    (Config.check_of_choose hconfig hchoice) (Config.check_parts hconfig).2 start count.toNat_lt
  exact ⟨dist, output, final, hchoice, hsamples⟩

theorem checkpoint_leaves_files (config : Config) (drawn : Int64) (quiet : Bool) (d : Directory)
    (stream : StreamChoice) (path : String) (encoding : Checkpoint.Encoding) :
    let outcome := (checkpoint stream path encoding).run config drawn quiet d
    outcome.failure = d.writeFault? path ∧
    (outcome.failure.isSome → outcome.output = "" ∧ outcome.directory = d) ∧
    (outcome.failure = none →
      d.Saved outcome.directory path
        (Checkpoint.write encoding (stream.start config drawn).2)) := by
  intro outcome
  cases hfault : d.writeFault? path with
  | some e =>
    have hrun : outcome = _ := checkpoint_of_fault hfault config stream encoding drawn quiet
    rw [hrun]
    exact ⟨rfl, fun _ => ⟨rfl, rfl⟩, nofun⟩
  | none =>
    obtain ⟨notice, d', hcheckpoint, hsaved⟩ :=
      exists_checkpoint hfault config stream encoding drawn quiet
    have hrun : outcome = _ := hcheckpoint
    rw [hrun]
    exact ⟨rfl, by simp, fun _ => hsaved⟩

section

variable (hconfig : config.check = .ok ()) (drawn : Int64) (quiet : Bool) (d : Directory)

include hconfig

theorem resume_leaves_files (path : String) (count : UInt64) (choice : Option String)
    (format : OutputFormat) (save : Option String) :
    let outcome := (resume path count.toNat choice format save).run config drawn quiet d
    let early := (Distribution.nameFault? choice).or (Checkpoint.loadFault? d path)
    outcome.failure = early.or (save.bind d.writeFault?) ∧
    (outcome.failure.isSome ∨ save = none → outcome.directory = d) ∧
    (early.isSome → outcome.output = "") ∧
    (early = none → ∃ dist start encoding final,
      config.choose choice = .ok dist ∧
      Checkpoint.load d.read path = .ok (start, encoding) ∧
      Report.samples format dist config.sharding start count.toNat = .ok (outcome.output, final) ∧
      (outcome.failure = none → ∀ target, save = some target →
        d.Saved outcome.directory target (Checkpoint.write encoding final))) := by
  intro outcome early
  cases hearly : early with
  | some e =>
    have hrun : outcome = _ := resume_of_fault hearly count.toNat format save drawn quiet
    rw [hrun]
    exact ⟨rfl, fun _ => rfl, fun _ => rfl, nofun⟩
  | none =>
    obtain ⟨hname, hstored⟩ := Option.or_eq_none_iff.mp hearly
    rw [← Checkpoint.error?_load d path] at hstored
    obtain ⟨⟨start, encoding⟩, hload⟩ := exists_ok_of_error? hstored
    obtain ⟨dist, output, final, hchoice, hsamples⟩ :=
      exists_samples hconfig hname format start count
    obtain ⟨houtput, hfailure, hstays, hsaved⟩ :=
      resume_of_samples hchoice hload hsamples drawn quiet save
    refine ⟨hfailure, hstays, nofun, fun _ => ⟨dist, start, encoding, final, hchoice, hload, ?_,
      hsaved⟩⟩
    rw [houtput, hsamples]

theorem generate_leaves_files (stream : StreamChoice) (count : UInt64) (choice : Option String)
    (format : OutputFormat) :
    let outcome := (generate stream count.toNat choice format).run config drawn quiet d
    outcome.failure = Distribution.nameFault? choice ∧
    (outcome.failure.isSome → outcome.output = "") ∧
    outcome.directory = d := by
  intro outcome
  cases hfault : Distribution.nameFault? choice with
  | some e =>
    have hrun : outcome = _ := generate_of_fault hfault stream count.toNat format drawn quiet
    rw [hrun]
    exact ⟨rfl, fun _ => rfl, rfl⟩
  | none =>
    obtain ⟨dist, output, final, hchoice, hsamples⟩ :=
      exists_samples hconfig hfault format (stream.start config drawn).2 count
    have hrun : outcome = _ := run_generate hchoice stream hsamples quiet d
    rw [hrun]
    exact ⟨rfl, by simp, rfl⟩

end

end Command

/-- A command fails for the first of the faults that it meets and for nothing else, and a failure
leaves all files as they were. What is wrong with a name or with a stored engine is found before
anything is printed; a file that cannot be written is found when all the samples are printed. Where
there is no fault, the one file changed is the one that the command saves. -/
theorem failed_commands_leave_files (config : Config) (hconfig : config.check = .ok ())
    (drawn : Int64) (quiet : Bool) (d : Directory) :
    (∀ (stream : StreamChoice) (path : String) (encoding : Checkpoint.Encoding),
      let outcome := (Command.checkpoint stream path encoding).run config drawn quiet d
      outcome.failure = d.writeFault? path ∧
      (outcome.failure.isSome → outcome.output = "" ∧ outcome.directory = d) ∧
      (outcome.failure = none →
        d.Saved outcome.directory path
          (Checkpoint.write encoding (stream.start config drawn).2))) ∧
    (∀ (path : String) (count : UInt64) (choice : Option String) (format : OutputFormat)
      (save : Option String),
      let outcome := (Command.resume path count.toNat choice format save).run config drawn quiet d
      let early := (Distribution.nameFault? choice).or (Checkpoint.loadFault? d path)
      outcome.failure = early.or (save.bind d.writeFault?) ∧
      (outcome.failure.isSome ∨ save = none → outcome.directory = d) ∧
      (early.isSome → outcome.output = "") ∧
      (early = none → ∃ dist start encoding final,
        config.choose choice = .ok dist ∧
        Checkpoint.load d.read path = .ok (start, encoding) ∧
        Report.samples format dist config.sharding start count.toNat =
          .ok (outcome.output, final) ∧
        (outcome.failure = none → ∀ target, save = some target →
          d.Saved outcome.directory target (Checkpoint.write encoding final)))) ∧
    ∀ (stream : StreamChoice) (count : UInt64) (choice : Option String) (format : OutputFormat),
      let outcome :=
        (Command.generate stream count.toNat choice format).run config drawn quiet d
      outcome.failure = Distribution.nameFault? choice ∧
      (outcome.failure.isSome → outcome.output = "") ∧
      outcome.directory = d :=
  ⟨Command.checkpoint_leaves_files config drawn quiet d,
    Command.resume_leaves_files hconfig drawn quiet d,
    Command.generate_leaves_files hconfig drawn quiet d⟩

theorem failed_commands_leave_files_in_order :
    let config : Config := {}
    let d : Directory := { files := [("s", Engine.toBytes ⟨Counter.ofNat 5, Key.zero⟩)] }
    let unnamed := (Command.resume "t" 3 (some "no-such") .text (some "t/")).run config 0 true d
    let unwritten := (Command.resume "s" 3 none .text (some "t/")).run config 0 true d
    let written := (Command.resume "s" 3 none .text (some "s")).run config 0 true d
    config.check = .ok () ∧
    unnamed.failure = some (.parameter (.distribution "no-such")) ∧ unnamed.output = "" ∧
    unnamed.directory = d ∧
    unwritten.failure = some (.file .isDirectory) ∧ unwritten.directory = d ∧
    written.failure = none := by
  intro config d unnamed unwritten written
  have hconfig : config.check = .ok () := rfl
  obtain ⟨-, hresume, -⟩ := failed_commands_leave_files config hconfig 0 true d
  obtain ⟨hname, hstays, hquiet, -⟩ := hresume "t" 3 (some "no-such") .text (some "t/")
  obtain ⟨hsave, hstays', -⟩ := hresume "s" 3 none .text (some "t/")
  obtain ⟨hnone, -⟩ := hresume "s" 3 none .text (some "s")
  -- there is no such name, no file to read and none to write, and the name comes first
  have hunnamed : unnamed.failure = some (.parameter (.distribution "no-such")) :=
    hname.trans (by decide)
  have hunwritten : unwritten.failure = some (.file .isDirectory) :=
    hsave.trans (by decide)
  exact ⟨hconfig, hunnamed, hquiet (by decide), hstays (Or.inl (hunnamed ▸ rfl)),
    hunwritten, hstays' (Or.inl (hunwritten ▸ rfl)), hnone.trans (by decide)⟩

end CounterStream
