import StackCalc.Proofs.Invocation

/-! The transcript of a conversation. Of the input only its lines count, up to the first that
holds no source; and each source is answered as if it were the first, so what is written on
either stream is put together from answers that do not depend on each other. -/

namespace StackCalc

namespace Output

private theorem empty_append (output : Output) : {} ++ output = output :=
  congrArg₂ Output.mk String.empty_append String.empty_append

private theorem append_empty (output : Output) : output ++ {} = output :=
  congrArg₂ Output.mk String.append_empty String.append_empty

private theorem append_assoc (first second third : Output) :
    first ++ second ++ third = first ++ (second ++ third) :=
  congrArg₂ Output.mk String.append_assoc String.append_assoc

end Output

namespace Session

/-- The session with this left on the stack of its machine. -/
def leaving (session : Session) (stack : List Value) : Session :=
  { session with machine := session.machine.keeping stack }

private theorem session_leaving (session : Session) (stack : List Value) (source : String) :
    ((session.leaving stack).runSource source).session =
      session.leaving ((session.leaving stack).execute source).stack := rfl

/-- What an earlier source has left is not seen by the next. -/
theorem output_leaving (session : Session) (stack : List Value) (source : String) :
    ((session.leaving stack).runSource source).output = (session.runSource source).output := by
  obtain ⟨left, same⟩ : ∃ left, (session.leaving stack).execute source =
      { session.execute source with stack := left } := by
    by_cases compiles : (compile session.machine.config source .empty).errors = []
    · have also : (compile (session.leaving stack).machine.config source .empty).errors = [] :=
        compiles
      rw [execute_of_compiles compiles, execute_of_compiles also]
      exact ⟨_, rfl⟩
    · have also : (compile (session.leaving stack).machine.config source .empty).errors ≠ [] :=
        compiles
      rw [execute_of_rejected compiles, execute_of_rejected also]
      exact ⟨_, rfl⟩
  simp only [runSource, same]
  rfl

end Session

namespace Excerpt

private theorem trimEnd_congr {drop other : Char → Bool} {text : List Char}
    (same : ∀ c ∈ text, drop c = other c) : trimEnd drop text = trimEnd other text := by
  have agree (text : List Char) (same : ∀ c ∈ text, drop c = other c) :
      text.dropWhile drop = text.dropWhile other := by
    induction text with
    | nil => rfl
    | cons c text ih =>
      obtain ⟨first, later⟩ := List.forall_mem_cons.mp same
      rw [List.dropWhile_cons, List.dropWhile_cons, first, ih later]
  unfold trimEnd
  rw [agree]
  intro c member
  exact same c (List.mem_reverse.mp member)

end Excerpt

namespace Prompt

/-- The lines of the input, without the newlines between them. -/
def linesOf (input : List UInt8) : List (List UInt8) := input.splitOn 10

/-- A line as text, if it is text, without the carriage returns at its end. -/
def stripped? (line : List UInt8) : Option String :=
  (Utf8.decode? line).map fun text =>
    String.ofList (Excerpt.trimEnd (· == '\r') text.toList)

/-- The source on a line. An empty line has none, nor has one that is no text. -/
def source? (line : List UInt8) : Option String := (stripped? line).filter (· ≠ "")

/-- The sources that are read: those before the first line that has none. -/
def sources (lines : List (List UInt8)) : List String :=
  (lines.takeWhile fun line => (source? line).isSome).filterMap source?

/-- The first line without a source is no text. -/
def garbled (lines : List (List UInt8)) : Bool :=
  (lines.find? fun line => (source? line).isNone).any fun line => (stripped? line).isNone

section Lines

variable {line : List UInt8} {lines : List (List UInt8)}

private theorem source?_eq_some {source : String} :
    source? line = some source ↔ stripped? line = some source ∧ source ≠ "" := by
  simp [source?, Option.filter_eq_some_iff]

private theorem read_of_source {source : String} (found : source? line = some source)
    (lines : List (List UInt8)) :
    sources (line :: lines) = source :: sources lines ∧ garbled (line :: lines) = garbled lines := by
  simp [sources, garbled, found]

private theorem read_of_none (found : source? line = none) (lines : List (List UInt8)) :
    sources (line :: lines) = [] ∧ garbled (line :: lines) = (stripped? line).isNone := by
  simp [sources, garbled, found]

/-- What follows a line without a source is not looked at. -/
theorem read_append (stops : ∃ line ∈ lines, source? line = none) (more : List (List UInt8)) :
    sources (lines ++ more) = sources lines ∧ garbled (lines ++ more) = garbled lines := by
  induction lines with
  | nil =>
    obtain ⟨line, member, _⟩ := stops
    cases member
  | cons line lines ih =>
    rw [List.cons_append]
    cases found : source? line with
    | none =>
      obtain ⟨first, ends⟩ := read_of_none found lines
      obtain ⟨other, also⟩ := read_of_none found (lines ++ more)
      exact ⟨other.trans first.symm, also.trans ends.symm⟩
    | some source =>
      have later : ∃ line ∈ lines, source? line = none := by
        obtain ⟨other, member, none⟩ := stops
        cases member with
        | head =>
          rw [found] at none
          cases none
        | tail _ member => exact ⟨other, member, none⟩
      obtain ⟨same, also⟩ := ih later
      obtain ⟨first, ends⟩ := read_of_source found lines
      obtain ⟨other, stops⟩ := read_of_source found (lines ++ more)
      exact ⟨by rw [other, first, same], by rw [stops, ends, also]⟩

private theorem unlike_newline (single : 10 ∉ line) : ∀ byte ∈ line, (byte != 10) = true := by
  intro byte member
  simpa using ne_of_mem_of_not_mem member single

private theorem linesOf_single (single : 10 ∉ line) : linesOf line = [line] := by
  apply List.splitOnP_eq_singleton
  intro byte member
  simpa using unlike_newline single byte member

private theorem linesOf_cons (single : 10 ∉ line) (rest : List UInt8) :
    linesOf (line ++ 10 :: rest) = line :: linesOf rest :=
  List.splitOn_append_cons_self_of_not_mem single rest

/-- An input is its last line, or a line and a newline before the rest. -/
theorem byLine {motive : List UInt8 → Prop} (last : ∀ line, 10 ∉ line → motive line)
    (next : ∀ line rest, 10 ∉ line → motive rest → motive (line ++ 10 :: rest))
    (input : List UInt8) : motive input := by
  by_cases newline : 10 ∈ input
  · obtain ⟨line, rest, split, single⟩ := List.eq_append_cons_of_mem newline
    rw [split]
    have shorter : rest.length < input.length := by
      rw [split, List.length_append, List.length_cons]
      omega
    exact next line rest single (byLine last next rest)
  · exact last input newline
termination_by input.length

end Lines

/-- A newline in a text is a byte of its own. -/
theorem newline_not_mem {line : List UInt8} {text : String} (single : 10 ∉ line)
    (decoded : Utf8.decode? line = some text) : '\n' ∉ text.toList := by
  intro member
  obtain ⟨front, rest, split⟩ := List.append_of_mem member
  have bytes : line = text.toByteArray.data.toList := by
    unfold Utf8.decode? String.fromUTF8? at decoded
    split at decoded
    · cases decoded
      simp [String.fromUTF8]
    · cases decoded
  have whole : text = String.ofList (front ++ ['\n'] ++ rest) := by
    rw [← String.toList_inj, String.toList_ofList, split]
    simp
  have alone : ['\n'].utf8Encode.data.toList = [10] := by rfl
  -- The encoding of an append is an append, and that of a newline is this one byte.
  apply single
  rw [bytes, whole, String.toByteArray_ofList, List.utf8Encode_append, List.utf8Encode_append]
  simp [alone]

section Turns

variable {line : List UInt8} (session : Session)

/-- What is said on leaving. -/
def ending (garbled : Bool) : Output × Exit :=
  if garbled then (.err ("Error reading input: " ++ Utf8.complaint ++ "\n"), .ioError)
  else (.out "\n", .success)

/-- There is no newline left to strip. -/
theorem stripped?_eq (single : 10 ∉ line) :
    stripped? line = (Utf8.decode? line).map fun text =>
      String.ofList (Excerpt.trimEnd isLineEnd text.toList) := by
  unfold stripped?
  cases decoded : Utf8.decode? line with
  | none => rfl
  | some text =>
    have plain := newline_not_mem single decoded
    have same : ∀ c ∈ text.toList, (c == '\r') = isLineEnd c := by
      intro c member
      have ne : c ≠ '\n' := ne_of_mem_of_not_mem member plain
      simp [isLineEnd, ne]
    rw [Option.map_some, Option.map_some, Excerpt.trimEnd_congr same]

private theorem turn_of_source (single : 10 ∉ line) {source : String}
    (found : source? line = some source) : turn session line =
      .go (session.runSource source).output (session.runSource source).session := by
  obtain ⟨stripped, some⟩ := source?_eq_some.mp found
  rw [stripped?_eq single, Option.map_eq_some_iff] at stripped
  obtain ⟨text, decoded, trimmed⟩ := stripped
  simp only [turn, decoded, trimmed, String.isEmpty_iff, if_neg some]

private theorem turn_of_none (single : 10 ∉ line) (found : source? line = none) :
    turn session line =
      .stop (ending (stripped? line).isNone).1 (ending (stripped? line).isNone).2 := by
  have stripped := stripped?_eq single
  cases decoded : Utf8.decode? line with
  | none =>
    rw [decoded, Option.map_none] at stripped
    simp only [turn, decoded, stripped]
    rfl
  | some text =>
    rw [decoded, Option.map_some] at stripped
    have empty : String.ofList (Excerpt.trimEnd isLineEnd text.toList) = "" := by
      apply Classical.byContradiction
      intro some
      rw [source?_eq_some.mpr ⟨stripped, some⟩] at found
      cases found
    simp only [turn, decoded, stripped, empty]
    rfl

end Turns

section Steps

variable {line : List UInt8} (said : Output) (session : Session)

private theorem converse_of_some {input : List UInt8} (some : input ≠ []) :
    converse said session input =
      match turn session (input.takeWhile (· != 10)) with
      | .stop output exit => (said ++ cue ++ output, exit)
      | .go output session =>
        converse (said ++ cue ++ output) session ((input.dropWhile (· != 10)).drop 1) := by
  cases input with
  | nil => exact absurd rfl some
  | cons byte rest => exact converse.eq_def said session (byte :: rest)

private theorem converse_next (single : 10 ∉ line) (rest : List UInt8) :
    converse said session (line ++ 10 :: rest) =
      match turn session line with
      | .stop output exit => (said ++ cue ++ output, exit)
      | .go output session => converse (said ++ cue ++ output) session rest := by
  have plain := unlike_newline single
  have some : line ++ 10 :: rest ≠ [] := List.append_ne_nil_of_right_ne_nil line (List.cons_ne_nil 10 rest)
  rw [converse_of_some said session some, List.takeWhile_append_of_pos plain,
    List.dropWhile_append_of_pos plain, List.takeWhile_cons_of_neg (by decide),
    List.dropWhile_cons_of_neg (by decide), List.append_nil]
  rfl

private theorem converse_last (single : 10 ∉ line) :
    converse said session line =
      match turn session line with
      | .stop output exit => (said ++ cue ++ output, exit)
      | .go output session => converse (said ++ cue ++ output) session [] := by
  by_cases empty : line = []
  · have leaves : turn session [] = .stop (.out "\n") .success := rfl
    rw [empty, leaves, converse]
  · have plain := unlike_newline single
    have whole : (line ++ []).takeWhile (· != 10) = line ++ [] :=
      List.takeWhile_append_of_pos plain
    have rest : (line ++ []).dropWhile (· != 10) = [] := List.dropWhile_append_of_pos plain
    rw [List.append_nil] at whole rest
    rw [converse_of_some said session empty, whole, rest]
    rfl

end Steps

/-- The answers to these sources, each after a cue. -/
def answers (session : Session) : List String → Output
  | [] => {}
  | source :: sources => cue ++ (session.runSource source).output ++ answers session sources

/-- Whatever has been said and is left of it, the rest of the conversation is the same. -/
theorem converse_eq (session : Session) (input : List UInt8) (said : Output) (stack : List Value) :
    let lines := linesOf input
    let last := ending (garbled lines)
    converse said (session.leaving stack) input =
      (said ++ answers session (sources lines) ++ (cue ++ last.1), last.2) := by
  intro lines last
  -- From line to line, more has been said and something else is left on the stack.
  induction input using byLine generalizing said stack with
  | last line single =>
    have one : lines = [line] := linesOf_single single
    rw [converse_last _ _ single]
    cases found : source? line with
    | none =>
      obtain ⟨none, ends⟩ := read_of_none found []
      rw [turn_of_none _ single found]
      simp only [last, one, none, ends, answers, Output.append_empty, Output.append_assoc]
    | some source =>
      obtain ⟨some, ends⟩ := read_of_source found []
      rw [turn_of_source _ single found]
      simp only [Session.output_leaving, converse, last, one, some, ends, answers,
        Output.append_assoc]
      rfl
  | next line rest single ih =>
    have more : lines = line :: linesOf rest := linesOf_cons single rest
    rw [converse_next _ _ single]
    cases found : source? line with
    | none =>
      obtain ⟨none, ends⟩ := read_of_none found (linesOf rest)
      rw [turn_of_none _ single found]
      simp only [last, more, none, ends, answers, Output.append_empty, Output.append_assoc]
    | some source =>
      obtain ⟨some, ends⟩ := read_of_source found (linesOf rest)
      rw [turn_of_source _ single found]
      simp only [Session.output_leaving, Session.session_leaving, ih, last, more, some, ends,
        answers, Output.append_assoc]

private theorem stdout_answers (session : Session) (sources : List String) :
    (answers session sources).stdout = String.join (sources.map fun source =>
      "> " ++ printed session.options.json (({} : Machine).interpret source).outcome) := by
  induction sources with
  | nil => rfl
  | cons source sources ih =>
    rw [List.map_cons, String.join_cons, ← ih, ← session.stdout_runSource source]
    rfl

private theorem stderr_answers (session : Session) (sources : List String) :
    (answers session sources).stderr =
      String.join (sources.map fun source => (session.runSource source).output.stderr) := by
  induction sources with
  | nil => rfl
  | cons source sources ih =>
    rw [List.map_cons, String.join_cons, ← ih, answers, Output.stderr_append, Output.stderr_append,
      cue, Output.out, String.empty_append]

private theorem ending_eq (garbled : Bool) :
    (cue ++ (ending garbled).1).stdout = (if garbled then "> " else "> \n") ∧
    (cue ++ (ending garbled).1).stderr =
      (if garbled then "Error reading input: stream did not contain valid UTF-8\n" else "") ∧
    (ending garbled).2.code = (if garbled then 74 else 0) := by
  cases garbled with
  | false => exact ⟨rfl, rfl, rfl⟩
  | true => exact ⟨rfl, rfl, rfl⟩

end Prompt

private theorem CommandLine.run_prompt (surroundings : Surroundings) {arguments : List String}
    {options : Options} (asked : Arguments.read arguments = .ok (.run options .prompt)) :
    let session := Session.start options surroundings.logSetting surroundings.terminal surroundings.time
    let lines := Prompt.linesOf surroundings.stdin
    let last := Prompt.ending (Prompt.garbled lines)
    run surroundings arguments =
      (Prompt.answers session (Prompt.sources lines) ++ (Prompt.cue ++ last.1), last.2) := by
  intro session lines last
  have conversed := Prompt.converse_eq session surroundings.stdin {} []
  simp only [run, asked]
  refine conversed.trans ?_
  rw [Output.empty_append]

/-- With any flags, and no source among the arguments, the sources are the lines of the input
before the first that is empty or no text, and nothing behind that line matters. To each
of them the output stream has a cue and the value that a new machine gives it, if it gives one,
and the error stream has what a session that has just been started says. A last cue and what is
said on leaving follow. -/
theorem prompt_transcript :
    (∀ flags : List Flag, flags.Nodup →
      Arguments.read (flags.map Flag.argument) = .ok (.run (.ofFlags flags) .prompt)) ∧
    ∀ (surroundings : Surroundings) (arguments : List String) (options : Options),
      Arguments.read arguments = .ok (.run options .prompt) →
      let fresh := Session.start options surroundings.logSetting surroundings.terminal surroundings.time
      let lines := Prompt.linesOf surroundings.stdin
      let sources := Prompt.sources lines
      let garbled := Prompt.garbled lines
      let said := (CommandLine.run surroundings arguments).1
      let exit := (CommandLine.run surroundings arguments).2
      said.stdout = String.join (sources.map fun source =>
          "> " ++ printed options.json (({} : Machine).interpret source).outcome) ++
        (if garbled then "> " else "> \n") ∧
      said.stderr = String.join (sources.map fun source => (fresh.runSource source).output.stderr) ++
        (if garbled then "Error reading input: stream did not contain valid UTF-8\n" else "") ∧
      exit.code = (if garbled then 74 else 0) ∧
      ((∃ line ∈ lines, Prompt.source? line = none) → ∀ more : List UInt8,
        CommandLine.run { surroundings with stdin := surroundings.stdin ++ 10 :: more } arguments =
          CommandLine.run surroundings arguments) := by
  refine ⟨fun flags distinct => Arguments.read_flags distinct, ?_⟩
  intro surroundings arguments options asked fresh lines sources garbled said exit
  have whole := CommandLine.run_prompt surroundings asked
  obtain ⟨stdout, stderr, code⟩ := Prompt.ending_eq garbled
  refine ⟨?_, ?_, ?_, ?_⟩
  · simp only [said, whole]
    rw [Output.stdout_append, Prompt.stdout_answers, stdout]
    rfl
  · simp only [said, whole]
    rw [Output.stderr_append, Prompt.stderr_answers, stderr]
  · simp only [exit, whole]
    exact code
  · intro stops more
    have longer : Prompt.linesOf (surroundings.stdin ++ 10 :: more) = lines ++ Prompt.linesOf more :=
      List.splitOn_append_cons_self surroundings.stdin more
    obtain ⟨same, also⟩ := Prompt.read_append stops (Prompt.linesOf more)
    rw [whole, CommandLine.run_prompt _ asked, longer, same, also]

/-- A source that does not compile, one with carriage returns, a line that is no text, and a
source behind it. -/
theorem prompt_transcript_around_a_wrong_byte :
    let spoken := Utf8.encode "1 +\n2\r\r\n" ++ [255] ++ Utf8.encode "\n3"
    let surroundings : Surroundings := { fileAt := fun _ => .error .missing, stdin := spoken }
    let fresh := Session.start { json := true } none false ""
    let said := (CommandLine.run surroundings ["--json"]).1
    let exit := (CommandLine.run surroundings ["--json"]).2
    said.stdout = String.join ["> " ++ printed true (({} : Machine).interpret "1 +").outcome,
      "> " ++ printed true (({} : Machine).interpret "2").outcome] ++ "> " ∧
    said.stderr = String.join [(fresh.runSource "1 +").output.stderr,
      (fresh.runSource "2").output.stderr] ++
        "Error reading input: stream did not contain valid UTF-8\n" ∧
    exit.code = 74 ∧
    CommandLine.run { surroundings with stdin := spoken ++ [10, 52] } ["--json"] =
      CommandLine.run surroundings ["--json"] := by
  intro spoken surroundings fresh said exit
  obtain ⟨reads, converses⟩ := prompt_transcript
  obtain ⟨stdout, stderr, code, unread⟩ := converses surroundings _ _ (reads [.json] (by decide))
  have sources : Prompt.sources (Prompt.linesOf spoken) = ["1 +", "2"] := by decide +kernel
  have garbled : Prompt.garbled (Prompt.linesOf spoken) = true := by decide +kernel
  have stops : ∃ line ∈ Prompt.linesOf spoken, Prompt.source? line = none :=
    ⟨[255], by decide +kernel, by decide +kernel⟩
  refine ⟨?_, ?_, ?_, unread stops [52]⟩
  · rw [sources, garbled] at stdout
    exact stdout
  · rw [sources, garbled] at stderr
    exact stderr
  · rw [garbled] at code
    exact code

end StackCalc
