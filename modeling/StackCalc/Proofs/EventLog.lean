import StackCalc.Proofs.Trace

/-! What the log of a request tells. Events come from the parser's reports, from the end of the
compilation and from the run; in the log they are in this order, and each of them says what
the answer says. -/

namespace StackCalc

/-- An event as a log shows it. -/
structure Entry where
  level : Level
  message : String
  fields : List (String × Event.Field)

def Event.entry (event : Event) : Entry := ⟨event.level, event.message, event.fields⟩

namespace Assembly

/-- Each error is logged, and so far nothing else is. -/
def Candid (assembly : Assembly) : Prop :=
  assembly.log.toList = assembly.errors.map .compileError

variable {assembly : Assembly}

private theorem Candid.report (candid : assembly.Candid) (error : CompileError) :
    (assembly.report error).Candid := by
  unfold Assembly.report
  split
  next none =>
    rw [List.isEmpty_iff] at none
    rw [Candid, none] at candid
    simp [Candid, candid]
  next => exact candid

private theorem Candid.constant (candid : assembly.Candid) (value : Value) (token : Token) :
    (assembly.constant value token).Candid := by
  unfold Assembly.constant
  split
  · exact candid
  · exact candid.report _

private theorem Candid.perform (candid : assembly.Candid) (directive : Directive) :
    (assembly.perform directive).Candid := by
  cases directive with
  | operation operation line => exact candid
  | report error => exact candid.report error
  | number token =>
    rw [Assembly.perform]
    split
    · exact candid.constant _ token
    · exact candid.report _

private theorem Candid.foldl (candid : assembly.Candid) (directives : List Directive) :
    (directives.foldl Assembly.perform assembly).Candid := by
  induction directives generalizing assembly with
  | nil => exact candid
  | cons directive directives ih => exact ih (candid.perform directive)

private theorem candid_ofTokens (tokens : List Token) (chunk : Chunk) :
    (ofTokens tokens chunk).Candid := by
  have start : Candid { chunk } := rfl
  exact start.foldl _

/-- At the end come the listing, if there is one, and how much code there is. -/
theorem Candid.finish (candid : assembly.Candid) (config : Config) :
    (assembly.finish config).log.toList = assembly.errors.map .compileError ++
      (if config.printCode && assembly.errors.isEmpty then
        [.listing (assembly.chunk.listing "code")] else []) ++
      [.compiled assembly.chunk.code.size assembly.chunk.constants.size
        assembly.errors.length] := by
  simp only [Assembly.finish, Array.toList_push, List.append_cancel_right_eq]
  split
  · rw [Array.toList_push, candid]
  · rw [candid, List.append_nil]

end Assembly

/-- A compilation logs its errors, the listing if there is one, and how much code there is. -/
theorem log_compile (config : Config) (source : String) (chunk : Chunk) :
    let compiled := compile config source chunk
    compiled.log.toList = compiled.errors.map .compileError ++
      (if config.printCode && compiled.errors.isEmpty then
        [.listing (compiled.chunk.listing "code")] else []) ++
      [.compiled compiled.chunk.code.size compiled.chunk.constants.size
        compiled.errors.length] :=
  (Assembly.candid_ofTokens (tokensOf source) chunk).finish config

private theorem errors_compile_cases (config : Config) (source : String) (chunk : Chunk) :
    (compile config source chunk).errors = [] ∨
      ∃ error, (compile config source chunk).errors = [error] := by
  rcases Assembly.errors_foldl_cases
      (legible_directivesOf (ended_tokensOf source) (readings_tokensOf source)) { chunk } rfl with
    none | ⟨error, one, _⟩
  · exact .inl none
  · exact .inr ⟨error, one⟩

private theorem log_of_rejected {machine : Machine} {source : String} {error : CompileError}
    (one : (compile machine.config source .empty).errors = [error]) :
    let compiled := compile machine.config source .empty
    (machine.interpret source).log.toList = [.compileError error,
      .compiled compiled.chunk.code.size compiled.chunk.constants.size compiled.errors.length] := by
  intro compiled
  have log := log_compile machine.config source .empty
  have rejected : (compile machine.config source .empty).errors ≠ [] := by simp [one]
  rw [Machine.interpret_of_rejected rejected]
  simpa [one, compiled] using log

private theorem log_of_compiles {machine : Machine} {source : String}
    (compiles : (compile machine.config source .empty).errors = []) :
    let compiled := compile machine.config source .empty
    let run := machine.run compiled.chunk
    ∃ trail, compiled.chunk.Visits ⟨0, []⟩ trail run.outcome run.stack ∧
      (machine.interpret source).log.toList =
        (if machine.config.printCode then [.listing (compiled.chunk.listing "code")] else []) ++
        [.compiled compiled.chunk.code.size compiled.chunk.constants.size
          compiled.errors.length] ++
        (if machine.config.traceExecution then trail.map compiled.chunk.traced else []) ++
        Chunk.ending run.outcome := by
  intro compiled run
  have clean : compiled.errors = [] := compiles
  have before : compiled.log.toList = _ := log_compile machine.config source .empty
  obtain ⟨count, executes⟩ := machine.run_executes compiled.chunk
  obtain ⟨trail, _, visits⟩ := executes.visits
  have after : run.log.toList = _ := visits.log machine.config #[]
  refine ⟨trail, visits, ?_⟩
  rw [Machine.interpret_of_compiles compiles, Array.toList_append, before, after, clean]
  simp only [List.map_nil, List.nil_append, List.isEmpty_nil, Bool.and_true, List.append_assoc]
  rfl

/-- A source with an error has two events, of the error and of the code that came of it all the
same. A source without has an event of its listing if that is switched on, one of its code, one
for each instruction that is fetched if that is switched on, and one of the fault if there is
a fault. -/
theorem log_tells_answer (machine : Machine) (source : String) :
    let compiled := compile machine.config source .empty
    let answer := machine.interpret source
    let summary : Entry := ⟨.debug, "compiled chunk", [("bytes", .count compiled.chunk.code.size),
      ("constants", .count compiled.chunk.constants.size),
      ("errors", .count compiled.errors.length)]⟩
    (∃ error, compiled.errors = [error] ∧ answer.outcome = .error (.compile [error]) ∧
      answer.log.toList.map Event.entry =
        [⟨.debug, "compile error", [("error", .text error.text)]⟩, summary]) ∨
    (compiled.errors = [] ∧ ∃ trail result left,
      compiled.chunk.Visits ⟨0, []⟩ trail result left ∧
      answer.outcome = result.mapError .runtime ∧
      answer.log.toList.map Event.entry =
        (if machine.config.printCode then
          [⟨.debug, "\n" ++ compiled.chunk.listing "code", []⟩] else []) ++ [summary] ++
        (if machine.config.traceExecution then
          trail.map fun standing => ⟨.trace, compiled.chunk.instructionText standing.offset,
            [("stack", .text (Event.stackText standing.stack.reverse))]⟩ else []) ++
        match result with
        | .ok _ => []
        | .error error => [⟨.debug, "runtime error",
            [("fault", .text error.fault.message), ("line", .count error.line)]⟩]) := by
  intro compiled answer summary
  rcases errors_compile_cases machine.config source .empty with compiles | ⟨error, one⟩
  · obtain ⟨trail, visits, log⟩ := log_of_compiles compiles
    refine .inr ⟨compiles, trail, _, _, visits, ?_, ?_⟩
    · exact congrArg Run.outcome (Machine.interpret_of_compiles compiles)
    · have last (result : Except RuntimeError Value) :
          (Chunk.ending result).map Event.entry = match result with
            | .ok _ => []
            | .error error => [⟨.debug, "runtime error",
                [("fault", .text error.fault.message), ("line", .count error.line)]⟩] := by
        cases result <;> rfl
      rw [log]
      simp only [List.map_append, apply_ite (List.map Event.entry), List.map_map, last]
      rfl
  · have rejected : (compile machine.config source .empty).errors ≠ [] := by simp [one]
    refine .inl ⟨error, one, ?_, ?_⟩
    · rw [← one]
      exact congrArg Run.outcome (Machine.interpret_of_rejected rejected)
    · rw [log_of_rejected one]
      rfl

end StackCalc
