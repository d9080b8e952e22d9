import StackCalc.CommandLine
import StackCalc.Proofs.History

/-! One source, however it is handed over. A session answers a source as the interpreter
does, and only the options of its output show; so it makes no difference whether the source
is an argument or the contents of a file. -/

namespace StackCalc

namespace Output

@[simp] theorem stdout_append (first second : Output) :
    (first ++ second).stdout = first.stdout ++ second.stdout := rfl

@[simp] theorem stderr_append (first second : Output) :
    (first ++ second).stderr = first.stderr ++ second.stderr := rfl

end Output

/-- How a result is printed. Of an error, nothing is. -/
def printed (json : Bool) : Except InterpretError Value → String
  | .ok value => (if json then value.json else value.text) ++ "\n"
  | .error _ => ""

namespace Session

variable (session : Session) (source : String)

variable {session source} in
theorem execute_of_compiles
    (compiles : (compile session.machine.config source .empty).errors = []) :
    session.execute source =
      let compiled := compile session.machine.config source .empty
      let run := session.machine.run compiled.chunk
      { outcome := run.outcome.mapError .runtime, stack := run.stack, compileLog := compiled.log,
        listing := if session.options.disassemble then some (compiled.chunk.listing "code") else none,
        runLog := run.log } :=
  if_pos (List.isEmpty_iff.mpr compiles)

variable {session source} in
theorem execute_of_rejected
    (rejected : (compile session.machine.config source .empty).errors ≠ []) :
    session.execute source =
      let compiled := compile session.machine.config source .empty
      { outcome := .error (.compile compiled.errors), stack := session.machine.stack,
        compileLog := compiled.log } :=
  if_neg fun clean => rejected (List.isEmpty_iff.mp clean)

/-- The session compiles and runs by itself, and that comes to what the interpreter does. -/
theorem execute_eq_interpret :
    (session.execute source).outcome = (session.machine.interpret source).outcome ∧
      (session.execute source).stack = (session.machine.interpret source).stack ∧
      (session.execute source).compileLog ++ (session.execute source).runLog =
        (session.machine.interpret source).log := by
  by_cases compiles : (compile session.machine.config source .empty).errors = []
  · rw [Machine.interpret_of_compiles compiles, execute_of_compiles compiles]
    exact ⟨rfl, rfl, rfl⟩
  · rw [Machine.interpret_of_rejected compiles, execute_of_rejected compiles]
    exact ⟨rfl, rfl, Array.append_empty⟩

/-- The outcome is that of a new machine, whatever the session has been through. -/
theorem outcome_runSource :
    (session.runSource source).outcome = (({} : Machine).interpret source).outcome := by
  have same := (session.execute_eq_interpret source).1
  exact same.trans (Machine.outcome_answer_eq session.machine {} (.interpret source))

private theorem stdout_present (outcome : Except InterpretError Value) :
    (session.present source outcome).stdout = printed session.options.json outcome := by
  cases outcome <;> rfl

theorem stdout_runSource : (session.runSource source).output.stdout =
    printed session.options.json (({} : Machine).interpret source).outcome := by
  have same : (session.execute source).outcome = _ := session.outcome_runSource source
  have quiet (events : Array Event) : (session.log events).stdout = "" := rfl
  simp only [runSource, Output.stdout_append, quiet, stdout_present, same, Output.err,
    String.empty_append]

end Session

/-- A flag as it is typed. -/
def Flag.argument (flag : Flag) : String := "--" ++ flag.name

namespace Options

private theorem isOn_turnOn (options : Options) (flag other : Flag) :
    (options.turnOn flag).isOn other = (other == flag || options.isOn other) := by
  cases flag <;> cases other <;> rfl

/-- The options that these flags turn on. -/
def ofFlags (flags : List Flag) : Options := flags.foldl turnOn {}

private theorem isOn_foldl (flags : List Flag) (options : Options) (flag : Flag) :
    (flags.foldl turnOn options).isOn flag = (flags.contains flag || options.isOn flag) := by
  induction flags generalizing options with
  | nil => rfl
  | cons first flags ih =>
    rw [List.foldl_cons, ih, isOn_turnOn, List.contains_cons, Bool.or_left_comm, Bool.or_assoc]

end Options

namespace Arguments

private theorem ofString_flag (flag : Flag) : Word.ofString flag.argument = .flag flag := by
  cases flag <;> rfl

private theorem readFrom_flag {given : Given} {flag : Flag} (off : given.options.isOn flag = false)
    (rest : List String) : readFrom given (flag.argument :: rest) =
      readFrom { given with options := given.options.turnOn flag } rest := by
  have set : given.setFlag flag = .ok { given with options := given.options.turnOn flag } := by
    simp [Given.setFlag, off]
  rw [readFrom.eq_def]
  simp only [ofString_flag, set]
  rfl

/-- Flags may come in any order, each of them once. -/
theorem readFrom_flags {given : Given} {flags : List Flag} (distinct : flags.Nodup)
    (off : ∀ flag ∈ flags, given.options.isOn flag = false) (rest : List String) :
    readFrom given (flags.map Flag.argument ++ rest) =
      readFrom { given with options := flags.foldl .turnOn given.options } rest := by
  induction flags generalizing given with
  | nil => rfl
  | cons flag flags ih =>
    obtain ⟨fresh, distinct⟩ := List.nodup_cons.mp distinct
    obtain ⟨first, off⟩ := List.forall_mem_cons.mp off
    rw [List.map_cons, List.cons_append, readFrom_flag first, ih distinct]
    · rfl
    · intro other member
      have ne : other ≠ flag := ne_of_mem_of_not_mem member fresh
      simp [Options.isOn_turnOn, ne, off other member]

theorem read_flags {flags : List Flag} (distinct : flags.Nodup) :
    read (flags.map Flag.argument) = .ok (.run (.ofFlags flags) .prompt) := by
  have off : ∀ flag ∈ flags, ({} : Given).options.isOn flag = false := by
    intro flag _
    cases flag <;> rfl
  have whole := readFrom_flags distinct off []
  rw [List.append_nil] at whole
  rw [read, whole]
  rfl

/-- Between the flags something else may stand, and it is read when its turn comes. -/
theorem read_between {before after : List Flag} (distinct : (before ++ after).Nodup)
    {words : List String} {expression path : Option String}
    (reads : ∀ options rest, readFrom { options } (words ++ rest) =
      readFrom { options, expression, path } rest) :
    read (before.map Flag.argument ++ (words ++ after.map Flag.argument)) =
      ({ options := .ofFlags (before ++ after), expression, path } : Given).request := by
  obtain ⟨first, second, apart⟩ := List.nodup_append.mp distinct
  have off (flag : Flag) : ({} : Options).isOn flag = false := by cases flag <;> rfl
  have fresh : ∀ flag ∈ after, (Options.ofFlags before).isOn flag = false := by
    intro flag member
    have new : flag ∉ before := fun other => apart flag other flag member rfl
    simpa [Options.ofFlags, Options.isOn_foldl, off] using new
  let given : Given := { options := .ofFlags before, expression, path }
  have whole : readFrom given (after.map Flag.argument ++ []) = _ := readFrom_flags second fresh []
  rw [List.append_nil] at whole
  rw [read, readFrom_flags first fun flag _ => off flag]
  refine (reads _ _).trans (whole.trans ?_)
  rw [Options.ofFlags, List.foldl_append]
  rfl

/-- The argument behind the option is the expression, whatever it looks like. -/
theorem read_inline {before after : List Flag} (distinct : (before ++ after).Nodup)
    (source : String) :
    read (before.map Flag.argument ++ ["-e", source] ++ after.map Flag.argument) =
      .ok (.run (.ofFlags (before ++ after)) (.inline source)) := by
  have option : Word.ofString "-e" = .expression none := rfl
  have reads (options : Options) (rest : List String) :
      readFrom { options } (["-e", source] ++ rest) =
        readFrom { options, expression := some source } rest := by
    rw [List.cons_append, readFrom.eq_def]
    simp only [option]
    rfl
  rw [List.append_assoc, read_between distinct reads]
  rfl

/-- An argument that could not be an option is a path. -/
structure PlainPath (path : String) : Prop where
  some : path ≠ ""
  plain : path.toList.head? ≠ .some '-'

private theorem ofString_path {path : String} (proper : PlainPath path) :
    Word.ofString path = .path path := by
  have plain := proper.plain
  unfold Word.ofString
  split
  next same => simp [same] at plain
  next same => simp [same] at plain
  next same => simp [same] at plain
  next => rfl

private theorem read_path {before after : List Flag} (distinct : (before ++ after).Nodup)
    {path : String} (proper : PlainPath path) :
    read (before.map Flag.argument ++ [path] ++ after.map Flag.argument) =
      .ok (.run (.ofFlags (before ++ after)) (.file path)) := by
  have reads (options : Options) (rest : List String) :
      readFrom { options } ([path] ++ rest) = readFrom { options, path } rest := by
    have set : Given.setPath { options } path = .ok { options, path } := by
      simp [Given.setPath, proper.some]
    rw [List.cons_append, readFrom.eq_def]
    simp only [ofString_path proper, set]
    rfl
  rw [List.append_assoc, read_between distinct reads]
  rfl

end Arguments

/-- The bytes of a file with this text. -/
def Utf8.encode (text : String) : List UInt8 := text.toUTF8.data.toList

private theorem Utf8.decode?_encode (text : String) : decode? (encode text) = some text := by
  simp only [decode?, encode, Array.toArray_toList, String.fromUTF8?, String.toUTF8_eq_toByteArray,
    dif_pos text.isValidUTF8]
  rfl

private theorem Exit.code_ofOutcome (outcome : Except InterpretError Value) :
    ((ofOutcome outcome).code = 0 ↔ ∃ value, outcome = .ok value) ∧
    ((ofOutcome outcome).code = 65 ↔ ∃ errors, outcome = .error (.compile errors)) ∧
    ((ofOutcome outcome).code = 70 ↔ ∃ error, outcome = .error (.runtime error)) := by
  cases outcome with
  | ok value => simp [ofOutcome, code]
  | error error => cases error <;> simp [ofOutcome, code]

namespace CommandLine

variable (surroundings : Surroundings) {arguments : List String} {options : Options}
  {source path : String}

private theorem run_inline
    (asked : Arguments.read arguments = .ok (.run options (.inline source))) :
    let session := Session.start options surroundings.logSetting surroundings.terminal surroundings.time
    run surroundings arguments = ((session.runSource source).output,
      .ofOutcome (session.runSource source).outcome) := by
  simp only [run, asked]

/-- What a file adds is one event for the log. -/
theorem run_path (asked : Arguments.read arguments = .ok (.run options (.file path)))
    (stored : surroundings.fileAt path = .ok (Utf8.encode source)) :
    let session := Session.start options surroundings.logSetting surroundings.terminal surroundings.time
    run surroundings arguments =
      (session.log #[.runningFile path source.utf8ByteSize] ++ (session.runSource source).output,
        .ofOutcome (session.runSource source).outcome) := by
  have read : readSource surroundings path = .ok source := by
    simp only [readSource, stored, bind, Except.bind, Utf8.decode?_encode]
  simp only [run, asked, runFile, read]

end CommandLine

/-- Given inline or as a file, a source has the same results on the output stream and the
same exit code, which are told by what a new machine makes of it and by the choice of the
notation; on the error stream, only the note on the file is added. Any flags in any order
may come along with either. And a session comes to what the interpreter does. -/
theorem inline_and_file_agree (source path : String) :
    (∀ before after : List Flag, (before ++ after).Nodup →
      Arguments.read (before.map Flag.argument ++ ["-e", source] ++ after.map Flag.argument) =
        .ok (.run (.ofFlags (before ++ after)) (.inline source)) ∧
      (Arguments.PlainPath path →
        Arguments.read (before.map Flag.argument ++ [path] ++ after.map Flag.argument) =
          .ok (.run (.ofFlags (before ++ after)) (.file path)))) ∧
    (∀ (surroundings : Surroundings) (options : Options) (inline file : List String),
      surroundings.fileAt path = .ok (Utf8.encode source) →
      Arguments.read inline = .ok (.run options (.inline source)) →
      Arguments.read file = .ok (.run options (.file path)) →
      let one := CommandLine.run surroundings inline
      let two := CommandLine.run surroundings file
      let outcome := (({} : Machine).interpret source).outcome
      let note := Event.runningFile path source.utf8ByteSize
      let noted := (LogFilter.choose surroundings.logSetting options).admits note
      one.1.stdout = two.1.stdout ∧ one.2 = two.2 ∧
      two.1.stderr = (if noted then note.line surroundings.time else "") ++ one.1.stderr ∧
      one.1.stdout = printed options.json outcome ∧
      (one.2.code = 0 ↔ ∃ value, outcome = .ok value) ∧
      (one.2.code = 65 ↔ ∃ errors, outcome = .error (.compile errors)) ∧
      (one.2.code = 70 ↔ ∃ error, outcome = .error (.runtime error))) ∧
    ∀ session : Session,
      let execution := session.execute source
      let run := session.machine.interpret source
      execution.outcome = run.outcome ∧ execution.stack = run.stack ∧
        execution.compileLog ++ execution.runLog = run.log := by
  refine ⟨?_, ?_, fun session => session.execute_eq_interpret source⟩
  · intro before after distinct
    exact ⟨Arguments.read_inline distinct source, Arguments.read_path distinct⟩
  · intro surroundings options inline file stored typed named
    rw [CommandLine.run_inline surroundings typed, CommandLine.run_path surroundings named stored]
    simp only [Session.outcome_runSource]
    refine ⟨?_, trivial, ?_, ?_, Exit.code_ofOutcome _⟩
    · exact (String.empty_append).symm
    · simp [Session.log, Output.err, Session.start]
    · exact Session.stdout_runSource _ source

/-- An expression that looks like an option, with a log that notes the file. -/
theorem inline_and_file_agree_on_dash :
    let surroundings : Surroundings := { fileAt := fun _ => .ok (Utf8.encode "-1") }
    let one := CommandLine.run surroundings ["--json", "-e", "-1", "--trace"]
    let two := CommandLine.run surroundings ["--json", "script", "--trace"]
    let outcome := (({} : Machine).interpret "-1").outcome
    let note := Event.runningFile "script" 2
    Arguments.PlainPath "script" ∧ one.1.stdout = two.1.stdout ∧ one.2 = two.2 ∧
    two.1.stderr = note.line "" ++ one.1.stderr ∧ one.1.stdout = printed true outcome ∧
    (one.2.code = 0 ↔ ∃ value, outcome = .ok value) := by
  intro surroundings one two outcome note
  have proper : Arguments.PlainPath "script" := ⟨by decide, by decide⟩
  obtain ⟨reads, agree, _⟩ := inline_and_file_agree "-1" "script"
  obtain ⟨typed, named⟩ := reads [.json] [.trace] (by decide)
  obtain ⟨stdout, exit, stderr, shown, success, _⟩ :=
    agree surroundings _ _ _ rfl typed (named proper)
  have noted : (LogFilter.choose surroundings.logSetting (.ofFlags [.json, .trace])).admits note := by
    decide +kernel
  refine ⟨proper, stdout, exit, ?_, shown, success⟩
  exact stderr.trans (congrArg (· ++ one.1.stderr) (if_pos noted))

end StackCalc
