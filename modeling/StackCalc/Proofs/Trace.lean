import StackCalc.Proofs.Payload
import StackCalc.Proofs.PlainDigits
import StackCalc.Proofs.WellFormed

/-! Listing and trace. A listing walks through the bytes of a chunk without running them,
and a trace shows the instructions as they are fetched; yet both show the same lines, up
to where the run ends. -/

namespace StackCalc

variable {chunk : Chunk}

namespace Chunk

/-- The lines of a listing, but for its head. -/
def instructionLines (chunk : Chunk) : List String :=
  chunk.instructionOffsets.map chunk.instructionText

/-- What is shown for an offset behind the last byte. -/
def endLine (chunk : Chunk) : String :=
  Column.right 4 '0' (toString chunk.code.size) ++ "    ? <end of chunk>"

/-- The offsets of the instructions from one of them on. -/
def offsetsFrom (chunk : Chunk) (offset : Nat) : List Nat := (chunk.walk #[] offset).toList

private theorem toList_walk (visited : Array Nat) (offset : Nat) :
    (chunk.walk visited offset).toList = visited.toList ++ chunk.offsetsFrom offset := by
  unfold offsetsFrom
  rw [walk, walk.eq_def chunk #[]]
  split
  next inside =>
    rw [toList_walk, toList_walk (#[].push offset)]
    simp
  next => simp
termination_by chunk.code.size - offset
decreasing_by all_goals (unfold nextOffset; omega)

theorem offsetsFrom_of_lt {offset : Nat} (inside : offset < chunk.code.size) :
    chunk.offsetsFrom offset = offset :: chunk.offsetsFrom (chunk.nextOffset offset) := by
  rw [offsetsFrom, walk, if_pos inside, toList_walk]
  rfl

theorem offsetsFrom_of_le {offset : Nat} (outside : chunk.code.size ≤ offset) :
    chunk.offsetsFrom offset = [] := by
  rw [offsetsFrom, walk, if_neg (Nat.not_lt.mpr outside)]

theorem listing_eq (chunk : Chunk) (name : String) : chunk.listing name =
    "== " ++ name ++ " ==\n" ++ String.join (chunk.instructionLines.map (· ++ "\n")) := by
  unfold listing instructionLines
  generalize chunk.instructionOffsets = offsets
  generalize "== " ++ name ++ " ==\n" = text
  induction offsets generalizing text with
  | nil => simp
  | cons offset offsets ih =>
    rw [List.foldl_cons, ih]
    simp [String.append_assoc]

end Chunk

/-- A text on one line. -/
def SingleLine (text : String) : Prop := '\n' ∉ text.toList

instance (text : String) : Decidable (SingleLine text) := inferInstanceAs (Decidable (_ ∉ _))

private theorem SingleLine.append {first second : String} (one : SingleLine first)
    (other : SingleLine second) : SingleLine (first ++ second) := by
  simpa [SingleLine] using ⟨one, other⟩

private theorem SingleLine.right {fill : Char} {text : String} (one : SingleLine text)
    (own : fill ≠ '\n') (width : Nat) : SingleLine (Column.right width fill text) := by
  refine .append ?_ one
  rw [SingleLine, String.toList_ofList]
  intro member
  exact own (List.eq_of_mem_replicate member).symm

private theorem singleLine_toString (count : Nat) : SingleLine (toString count) := by
  rw [SingleLine, Nat.toString_eq_ofList_toDigits, String.toList_ofList]
  intro member
  exact absurd (Nat.isDigit_of_mem_toDigits (by decide) (by decide) member) (by decide)

private theorem Decimal.newline_not_mem_plain (decimal : Decimal) : '\n' ∉ decimal.plain := by
  have digits : '\n' ∉ decimal.digits :=
    fun member => absurd (decimal.isDigit_of_mem_digits member) (by decide)
  have cases := decimal.plain_cases
  generalize decimal.plain = text at cases ⊢
  cases cases with
  | whole => simp [digits]
  | between split => simpa [split] using digits
  | behind => simp [digits]

private theorem Value.singleLine_text (value : Value) : SingleLine value.text := by
  cases value with
  | nil => decide
  | bool b => cases b <;> decide
  | number x =>
    rw [text, Numeral.text]
    split
    · decide
    · split
      · split <;> decide
      · unfold SingleLine Numeral.signed
        split <;> simp [Decimal.newline_not_mem_plain]

private theorem Operation.singleLine_mnemonic (operation : Operation) :
    SingleLine operation.mnemonic := by
  cases operation <;> decide

namespace Chunk

private theorem singleLine_lineMark (offset : Nat) : SingleLine (chunk.lineMark offset) := by
  unfold lineMark
  split
  · decide
  · split
    · decide
    · exact ((singleLine_toString _).right (by decide) 4).append (by decide)

private theorem singleLine_constantText (index : UInt8) :
    SingleLine (chunk.constantText index) := by
  have number := (singleLine_toString index.toNat).right (show ' ' ≠ '\n' by decide) 4
  unfold constantText
  apply SingleLine.append
  · exact (SingleLine.append (by decide) number).append (by decide)
  · split
    next value _ => exact (SingleLine.append (by decide) value.singleLine_text).append (by decide)
    next => decide

private theorem singleLine_fetchedText (fetched : Fetched) :
    SingleLine (chunk.fetchedText fetched) := by
  unfold fetchedText
  split
  next index => exact singleLine_constantText index
  next operation => exact operation.singleLine_mnemonic
  next byte => exact .append (by decide) (singleLine_toString byte.toNat)
  next => decide
  next => decide

theorem singleLine_instructionText (offset : Nat) : SingleLine (chunk.instructionText offset) := by
  have number := (singleLine_toString offset).right (show '0' ≠ '\n' by decide) 4
  unfold instructionText
  exact ((number.append (by decide)).append (singleLine_lineMark offset)).append
    (singleLine_fetchedText _)

/-- From where the machine stands, it fetches instructions at these standings one after
another, comes to a result and leaves a stack. -/
inductive Visits (chunk : Chunk) :
    Standing → List Standing → Except RuntimeError Value → List Value → Prop where
  | finish {offset stack value beneath}
      (finishes : chunk.effect stack (chunk.fetch offset) = .ok (.finish value beneath)) :
      Visits chunk ⟨offset, stack⟩ [⟨offset, stack⟩] (.ok value) beneath
  | fault {offset stack fault}
      (fails : chunk.effect stack (chunk.fetch offset) = .error fault) :
      Visits chunk ⟨offset, stack⟩ [⟨offset, stack⟩] (.error ⟨fault, chunk.faultLine offset⟩) []
  | proceed {start next trail result left} (moves : chunk.Moves start next)
      (rest : Visits chunk next trail result left) : Visits chunk start (start :: trail) result left

variable {start : Standing} {trail : List Standing} {count : Nat}
  {result : Except RuntimeError Value} {left : List Value}

theorem Executes.visits (executes : chunk.Executes start count result left) :
    ∃ trail, trail.length = count ∧ chunk.Visits start trail result left := by
  induction executes with
  | finish finishes => exact ⟨_, rfl, .finish finishes⟩
  | fault fails => exact ⟨_, rfl, .fault fails⟩
  | proceed moves rest ih =>
    obtain ⟨trail, length, visits⟩ := ih
    exact ⟨_ :: trail, congrArg (· + 1) length, .proceed moves visits⟩

/-- The instruction at a standing, as it is traced. -/
def traced (chunk : Chunk) (standing : Standing) : Event :=
  .instruction (chunk.instructionText standing.offset) standing.stack.reverse

/-- What is logged when a run is over. -/
def ending : Except RuntimeError Value → List Event
  | .ok _ => []
  | .error error => [.runtimeError error]

/-- Nothing else is logged but the fault at the end, and the trace only if it is switched on. -/
theorem Visits.log (visits : chunk.Visits start trail result left) (config : Config)
    (log : Array Event) :
    (Machine.runFrom config chunk log start.offset start.stack).log.toList =
      log.toList ++ (if config.traceExecution then trail.map chunk.traced else []) ++
        ending result := by
  induction visits generalizing log with
  | finish finishes =>
    rw [Machine.runFrom_finish config log finishes]
    cases tracing : config.traceExecution <;> simp [Machine.fetchLog, tracing, traced, ending]
  | fault fails =>
    rw [Machine.runFrom_fault config log fails]
    cases tracing : config.traceExecution <;> simp [Machine.fetchLog, tracing, traced, ending]
  | proceed moves rest ih =>
    cases moves with
    | instruction succeeds =>
      rw [Machine.runFrom_proceed config log succeeds, ih]
      cases tracing : config.traceExecution <;> simp [Machine.fetchLog, tracing, traced]

/-- The standing is behind the last byte. -/
def PastEnd (chunk : Chunk) (standing : Standing) : Prop := chunk.code[standing.offset]? = none

private theorem pastEnd_iff {standing : Standing} :
    chunk.PastEnd standing ↔ chunk.code.size ≤ standing.offset := Array.getElem?_eq_none_iff

theorem nextOffset_of_lt {offset : Nat} (inside : offset < chunk.code.size) :
    chunk.nextOffset offset = offset + (chunk.fetch offset).width := by
  have forward := chunk.width_fetch_pos offset inside
  rw [nextOffset, Nat.max_eq_right forward]

/-- What is fetched is what is listed, in the same order, until the run ends; but if it goes
past the last byte, all that is listed has been fetched. -/
theorem Visits.offsets (visits : chunk.Visits start trail result left)
    (inside : start.offset ≤ chunk.code.size) :
    (∃ standing ∈ trail, chunk.PastEnd standing) ∧
        trail.map Standing.offset = chunk.offsetsFrom start.offset ++ [chunk.code.size] ∨
      (¬ ∃ standing ∈ trail, chunk.PastEnd standing) ∧
        trail.map Standing.offset <+: chunk.offsetsFrom start.offset := by
  have single {offset : Nat} (stack : List Value) (below : offset < chunk.code.size) :
      (¬ ∃ standing ∈ [(⟨offset, stack⟩ : Standing)], chunk.PastEnd standing) ∧
        [offset] <+: chunk.offsetsFrom offset := by
    rw [offsetsFrom_of_lt below]
    exact ⟨by simpa [pastEnd_iff] using below, by simp⟩
  induction visits with
  | finish finishes => exact .inr (single _ (inside_of_effect finishes))
  | @fault offset stack fault fails =>
    by_cases below : offset < chunk.code.size
    · exact .inr (single _ below)
    · have outside := Nat.le_of_not_lt below
      refine .inl ⟨⟨_, List.mem_singleton_self _, pastEnd_iff.mpr outside⟩, ?_⟩
      rw [offsetsFrom_of_le outside, Nat.le_antisymm outside inside]
      rfl
  | @proceed start next trail result left moves rest ih =>
    cases moves with
    | @instruction offset stack after succeeds =>
      have below := inside_of_effect succeeds
      have here : ¬ chunk.PastEnd ⟨offset, stack⟩ := by simpa [pastEnd_iff] using below
      rw [offsetsFrom_of_lt below, nextOffset_of_lt below]
      simp only [List.exists_mem_cons_iff, here, false_or, List.map_cons, List.cons_append,
        List.cons.injEq, true_and, List.prefix_cons_inj]
      exact ih (chunk.add_width_fetch_le offset (Nat.le_of_lt below))

/-- A run that does not fail gets to the return, and that is the last instruction. -/
theorem Visits.all_offsets {value : Value} (visits : chunk.Visits start trail (.ok value) left)
    (formed : chunk.WellFormed start.offset) :
    trail.map Standing.offset = chunk.offsetsFrom start.offset := by
  generalize same : Except.ok value = result at visits
  induction visits with
  | @finish offset stack value beneath finishes =>
    have below := inside_of_effect finishes
    rw [offsetsFrom_of_lt below, nextOffset_of_lt below]
    cases formed with
    | «return» fetched last =>
      rw [fetched, show Fetched.width _ = 1 from rfl, offsetsFrom_of_le (Nat.le_of_eq last.symm)]
      rfl
    | plain fetched inner rest =>
      rw [fetched] at finishes
      exact absurd (Operation.eq_return_of_finish finishes) inner
    | @constant _ index fetched present together rest =>
      have found : chunk.constant? index = some chunk.constants[index.toNat] :=
        Array.getElem?_eq_getElem present
      simp only [fetched, effect, found] at finishes
      exact absurd finishes Effect.push_ne_finish
  | fault => cases same
  | @proceed start next trail result left moves rest ih =>
    have later := ih (formed.moves moves) same
    cases moves with
    | @instruction offset stack after succeeds =>
      have below := inside_of_effect succeeds
      rw [offsetsFrom_of_lt below, nextOffset_of_lt below, List.map_cons, later]

end Chunk

private theorem Chunk.instructionText_size (chunk : Chunk) :
    chunk.instructionText chunk.code.size = chunk.endLine := by
  have none : chunk.line? chunk.code.size = .none :=
    Array.getElem?_eq_none (Nat.le_of_eq chunk.lines_size)
  have fetched : chunk.fetch chunk.code.size = .pastEnd := by
    simp [fetch]
  rw [instructionText, lineMark, none, fetched, fetchedText, endLine, String.append_assoc,
    String.append_assoc]
  rfl

/-- The events of a log that belong to the trace. -/
def traceOf (log : Array Event) : List Event := log.toList.filter (·.level = .trace)

private theorem traceOf_append (log more : Array Event) :
    traceOf (log ++ more) = traceOf log ++ traceOf more := by
  simp [traceOf]

private theorem traceOf_push {event : Event} (other : event.level ≠ .trace) (log : Array Event) :
    traceOf (log.push event) = traceOf log := by
  simp [traceOf, other]

namespace Assembly

private theorem traceOf_report (assembly : Assembly) (error : CompileError) :
    traceOf (assembly.report error).log = traceOf assembly.log := by
  unfold report
  split
  · exact traceOf_push (by simp [Event.level]) _
  · rfl

private theorem traceOf_perform (assembly : Assembly) (directive : Directive) :
    traceOf (assembly.perform directive).log = traceOf assembly.log := by
  cases directive with
  | operation operation line => rfl
  | report error => exact traceOf_report assembly error
  | number token =>
    rw [perform]
    split
    · unfold constant
      split
      · rfl
      · exact traceOf_report assembly _
    · exact traceOf_report assembly _

private theorem traceOf_foldl (assembly : Assembly) (directives : List Directive) :
    traceOf (directives.foldl perform assembly).log = traceOf assembly.log := by
  induction directives generalizing assembly with
  | nil => rfl
  | cons directive directives ih => rw [List.foldl_cons, ih, traceOf_perform]

end Assembly

/-- Compiling leaves nothing in the trace. -/
theorem traceOf_compile (config : Config) (source : String) (chunk : Chunk) :
    traceOf (compile config source chunk).log = [] := by
  have none : traceOf (Assembly.ofTokens (tokensOf source) chunk).log = [] :=
    Assembly.traceOf_foldl { chunk } _
  simp only [compile, Assembly.finish]
  rw [traceOf_push (by simp [Event.level])]
  split
  · rw [traceOf_push (by simp [Event.level]), none]
  · exact none

private theorem traceOf_interpret {machine : Machine} {source : String}
    (compiles : (compile machine.config source .empty).errors = []) :
    traceOf (machine.interpret source).log =
      traceOf (machine.run (compile machine.config source .empty).chunk).log := by
  rw [Machine.interpret_of_compiles compiles, traceOf_append, traceOf_compile, List.nil_append]

namespace Chunk

private theorem Visits.traceOf_eq {chunk : Chunk} {trail : List Standing}
    {machine : Machine} (tracing : machine.config.traceExecution = true)
    (visits : chunk.Visits ⟨0, []⟩ trail (machine.run chunk).outcome (machine.run chunk).stack) :
    traceOf (machine.run chunk).log = trail.map chunk.traced := by
  have log := visits.log machine.config #[]
  have shown : (trail.map chunk.traced).filter (·.level = .trace) = trail.map chunk.traced := by
    apply List.filter_eq_self.mpr
    simp [traced, Event.level]
  have hidden : (ending (machine.run chunk).outcome).filter (·.level = .trace) = [] := by
    cases (machine.run chunk).outcome <;> simp [ending, Event.level]
  rw [traceOf, Machine.run, log, if_pos tracing, List.filter_append, List.filter_append, shown,
    hidden]
  simp

private theorem Visits.messages {chunk : Chunk} {trail : List Standing} {machine : Machine}
    (tracing : machine.config.traceExecution = true)
    (visits : chunk.Visits ⟨0, []⟩ trail (machine.run chunk).outcome (machine.run chunk).stack) :
    (traceOf (machine.run chunk).log).map Event.message =
      trail.map (chunk.instructionText ·.offset) := by
  rw [visits.traceOf_eq tracing, List.map_map]
  rfl

/-- The lines of the listing are the texts at its offsets. -/
theorem Visits.lines {chunk : Chunk} {trail : List Standing} {stack left : List Value}
    {result : Except RuntimeError Value} (visits : chunk.Visits ⟨0, stack⟩ trail result left) :
    (∃ standing ∈ trail, chunk.PastEnd standing) ∧
        trail.map (chunk.instructionText ·.offset) = chunk.instructionLines ++ [chunk.endLine] ∨
      (¬ ∃ standing ∈ trail, chunk.PastEnd standing) ∧
        trail.map (chunk.instructionText ·.offset) <+: chunk.instructionLines := by
  have texts : trail.map (chunk.instructionText ·.offset) =
      (trail.map Standing.offset).map chunk.instructionText := by rw [List.map_map]; rfl
  have listed : chunk.instructionLines = (chunk.offsetsFrom 0).map chunk.instructionText := rfl
  rw [texts, listed, ← chunk.instructionText_size]
  rcases visits.offsets (Nat.zero_le _) with ⟨past, same⟩ | ⟨within, front⟩
  · rw [same, List.map_append]
    exact .inl ⟨past, rfl⟩
  · exact .inr ⟨within, front.map _⟩

end Chunk

/-- A source that comes to a value has all of its code traced. -/
theorem messages_of_value {machine : Machine} (tracing : machine.config.traceExecution = true)
    {source : String} {value : Value} (succeeds : (machine.interpret source).outcome = .ok value) :
    (traceOf (machine.interpret source).log).map Event.message =
      (compile machine.config source .empty).chunk.instructionLines := by
  have compiles : (compile machine.config source .empty).errors = [] := by
    apply Classical.byContradiction
    intro rejected
    rw [outcome_of_rejected rfl rejected] at succeeds
    cases succeeds
  rw [traceOf_interpret compiles, compile_chunk]
  rw [outcome_of_compiles compiles] at succeeds
  have formed := ofTokens_wellFormed (ended_tokensOf source) (readings_tokensOf source) .empty
  generalize (Assembly.ofTokens (tokensOf source) .empty).chunk = chunk at succeeds formed
  obtain ⟨count, executes⟩ := machine.run_executes chunk
  obtain ⟨trail, _, visits⟩ := executes.visits
  rw [visits.messages tracing]
  cases ran : (machine.run chunk).outcome with
  | error error =>
    rw [ran] at succeeds
    cases succeeds
  | ok value =>
    rw [ran] at visits
    have all : trail.map Standing.offset = chunk.instructionOffsets := visits.all_offsets formed
    rw [Chunk.instructionLines, ← all, List.map_map]
    rfl

/-- A chunk is listed line by line, and a traced run of it shows a line for each instruction
that it fetches, with the stack as it is then, bottom first. The lines are those of the
listing, as far as the run gets, and one more if and only if the run goes past the last
byte. A source that comes to a value shows all the lines of its code. -/
theorem trace_agrees_with_listing (machine : Machine)
    (tracing : machine.config.traceExecution = true) :
    (∀ chunk : Chunk,
      (∀ name, chunk.listing name =
        "== " ++ name ++ " ==\n" ++ String.join (chunk.instructionLines.map (· ++ "\n"))) ∧
      (∀ line ∈ chunk.instructionLines, SingleLine line) ∧
      ∃ trail, chunk.Visits ⟨0, []⟩ trail (machine.run chunk).outcome (machine.run chunk).stack ∧
        let messages := (traceOf (machine.run chunk).log).map Event.message
        messages = trail.map (chunk.instructionText ·.offset) ∧
        ((∃ standing ∈ trail, chunk.PastEnd standing) ∧
            messages = chunk.instructionLines ++ [chunk.endLine] ∨
          (¬ ∃ standing ∈ trail, chunk.PastEnd standing) ∧ messages <+: chunk.instructionLines) ∧
        (traceOf (machine.run chunk).log).map Event.fields = trail.map fun standing =>
          [("stack", .text (String.join (standing.stack.reverse.map fun value =>
            "[ " ++ value.text ++ " ]")))]) ∧
    ∀ source,
      ((compile machine.config source .empty).errors = [] →
        traceOf (machine.interpret source).log =
          traceOf (machine.run (compile machine.config source .empty).chunk).log) ∧
      ∀ value, (machine.interpret source).outcome = .ok value →
        (traceOf (machine.interpret source).log).map Event.message =
          (compile machine.config source .empty).chunk.instructionLines := by
  refine ⟨fun chunk => ⟨chunk.listing_eq, ?_, ?_⟩,
    fun source => ⟨traceOf_interpret, fun _ => messages_of_value tracing⟩⟩
  · intro line member
    obtain ⟨offset, _, rfl⟩ := List.mem_map.mp member
    exact Chunk.singleLine_instructionText offset
  · obtain ⟨count, executes⟩ := machine.run_executes chunk
    obtain ⟨trail, _, visits⟩ := executes.visits
    have messages := visits.messages tracing
    refine ⟨trail, visits, messages, ?_, ?_⟩
    · rw [messages]
      exact visits.lines
    · rw [visits.traceOf_eq tracing, List.map_map]
      rfl

/-- The operand of the first operator is on a line of its own. -/
theorem trace_agrees_with_listing_over_lines :
    let machine : Machine := { config := { traceExecution := true } }
    machine.config.traceExecution = true ∧
    (machine.interpret "!nil\n== true").outcome = .ok (.bool true) ∧
    (traceOf (machine.interpret "!nil\n== true").log).map Event.message =
      ["0000    1 NIL", "0001    | NOT", "0002    2 TRUE", "0003    | EQUAL", "0004    | RETURN"] := by
  intro machine
  let left : Expr := .unary ⟨.bang, "!", 1⟩ (.literal ⟨.kwNil, "nil", 1⟩)
  let right : Expr := .literal ⟨.kwTrue, "true", 2⟩
  have inside : Expr.In .unary left := .unary (.inr rfl) (.looser (.literal (by decide)))
  have denotes : Expr.Denotes (tokensOf "!nil\n== true") (.binary left ⟨.equalEqual, "==", 2⟩ right) :=
    ⟨.binary rfl inside.equality ((Expr.In.literal (by decide)).loosen .comparison (by decide)),
      ⟨.eof, "", 2⟩, rfl, by decide +kernel⟩
  have succeeds : (machine.interpret "!nil\n== true").outcome = .ok (.bool true) :=
    outcome_of_denotes denotes (by decide) (by decide) machine
  have listed : (compile machine.config "!nil\n== true" .empty).chunk.instructionLines =
      ["0000    1 NIL", "0001    | NOT", "0002    2 TRUE", "0003    | EQUAL", "0004    | RETURN"] := by
    decide +kernel
  obtain ⟨_, sources⟩ := trace_agrees_with_listing machine rfl
  exact ⟨rfl, succeeds, ((sources _).2 _ succeeds).trans listed⟩

end StackCalc
