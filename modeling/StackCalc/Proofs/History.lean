import StackCalc.Interpreter
import StackCalc.Proofs.FixedStack

/-! A machine that is given one request after another answers each as a new machine would,
whatever its switches are. What it has on its stack is what the last run left there. -/

namespace StackCalc

/-- A request runs the chunk that it brings, or what its source compiles to. -/
inductive Machine.Request.Runs : Machine.Request → Chunk → Prop where
  | source {source : String} (compiles : (compile {} source .empty).errors = []) :
      Runs (.interpret source) (compile {} source .empty).chunk
  | chunk (chunk : Chunk) : Runs (.run chunk) chunk

/-- What is on the stack after a request, given what was there before and what came of it. -/
inductive Leaves (before : List Value) :
    Machine.Request → Except InterpretError Value → List Value → Prop where
  | rejected {source errors} (fails : (compile {} source .empty).errors = errors)
      (some : errors ≠ []) : Leaves before (.interpret source) (.error (.compile errors)) before
  | fault {request chunk count error} (runs : request.Runs chunk)
      (executes : chunk.Executes ⟨0, []⟩ count (.error error) []) :
      Leaves before request (.error (.runtime error)) []
  | value {request chunk count value beneath} (runs : request.Runs chunk)
      (executes : chunk.Executes ⟨0, []⟩ count (.ok value) beneath) :
      Leaves before request (.ok value) beneath

namespace Machine

private theorem answer_of_rejected (machine : Machine) {source : String}
    (fails : (compile {} source .empty).errors ≠ []) :
    (machine.answer (.interpret source)).outcome =
        .error (.compile (compile {} source .empty).errors) ∧
      (machine.after (.interpret source)).stack = machine.stack := by
  have rejected : (compile machine.config source .empty).errors ≠ [] := fails
  rw [after, answer, interpret_of_rejected rejected]
  exact ⟨rfl, rfl⟩

private theorem answer_of_runs (machine : Machine) {request : Machine.Request} {chunk : Chunk}
    (runs : request.Runs chunk) :
    (machine.answer request).outcome = (machine.run chunk).outcome.mapError .runtime ∧
      (machine.after request).stack = (machine.run chunk).stack := by
  cases runs with
  | chunk chunk => exact ⟨rfl, rfl⟩
  | @source source compiles =>
    have clean : (compile machine.config source .empty).errors = [] := compiles
    rw [after, answer, interpret_of_compiles clean]
    exact ⟨rfl, rfl⟩

/-- Neither the switches nor the stack from before have a part in a run. -/
theorem answer_of_executes (machine : Machine) {request : Machine.Request} {chunk : Chunk}
    {count : Nat} {result : Except RuntimeError Value} {left : List Value}
    (runs : request.Runs chunk) (executes : chunk.Executes ⟨0, []⟩ count result left) :
    (machine.answer request).outcome = result.mapError .runtime ∧
      (machine.after request).stack = left := by
  obtain ⟨_, own⟩ := machine.run_executes chunk
  obtain ⟨_, outcome, stack⟩ := own.unique executes
  obtain ⟨answered, kept⟩ := machine.answer_of_runs runs
  exact ⟨answered.trans (congrArg _ outcome), kept.trans stack⟩

end Machine

/-- Either the source of a request is rejected, or a chunk is run. -/
theorem Machine.Request.rejected_or_runs (request : Machine.Request) :
    (∃ source, request = .interpret source ∧ (compile {} source .empty).errors ≠ []) ∨
      ∃ chunk, request.Runs chunk := by
  cases request with
  | run chunk => exact .inr ⟨chunk, .chunk chunk⟩
  | interpret source =>
    by_cases compiles : (compile {} source .empty).errors = []
    · exact .inr ⟨_, .source compiles⟩
    · exact .inl ⟨source, rfl, compiles⟩

namespace Machine

theorem outcome_answer_eq (machine other : Machine) (request : Machine.Request) :
    (machine.answer request).outcome = (other.answer request).outcome := by
  rcases request.rejected_or_runs with ⟨source, rfl, fails⟩ | ⟨chunk, runs⟩
  · rw [(machine.answer_of_rejected fails).1, (other.answer_of_rejected fails).1]
  · obtain ⟨_, executes⟩ := other.run_executes chunk
    rw [(machine.answer_of_executes runs executes).1, (other.answer_of_executes runs executes).1]

private theorem after_leaves (machine : Machine) (request : Machine.Request) :
    Leaves machine.stack request (machine.answer request).outcome
      (machine.after request).stack := by
  rcases request.rejected_or_runs with ⟨source, rfl, fails⟩ | ⟨chunk, runs⟩
  · obtain ⟨outcome, stack⟩ := machine.answer_of_rejected fails
    rw [outcome, stack]
    exact .rejected rfl fails
  · obtain ⟨count, executes⟩ := machine.run_executes chunk
    obtain ⟨outcome, stack⟩ := machine.answer_of_executes runs executes
    rw [outcome, stack]
    cases result : (machine.run chunk).outcome with
    | ok value =>
      rw [result] at executes
      exact .value runs executes
    | error error =>
      obtain ⟨_, _, ⟨_, returned, _⟩ | ⟨_, _, empty, _⟩⟩ := executes.cases_result
      · cases result.symm.trans returned
      · rw [result, empty] at executes
        rw [empty]
        exact .fault runs executes

private theorem config_foldl_after (machine : Machine) (history : List Machine.Request) :
    (history.foldl after machine).config = machine.config := by
  induction history generalizing machine with
  | nil => rfl
  | cons request history ih => exact ih (machine.after request)

end Machine

/-- After any requests, whatever the switches are and whatever was on the stack at first,
the answer to one more request is that of a new machine. A source that is rejected leaves
the stack alone, a fault empties it, and a run that returns leaves what it had beneath the
value; nothing else of the machine changes. The same comes of it in a fixed array, whatever
its places held. -/
theorem requests_independent (machine : Machine) (history : List Machine.Request)
    (request : Machine.Request) :
    let reached := history.foldl Machine.after machine
    let outcome := (reached.answer request).outcome
    let next := reached.after request
    outcome = (({} : Machine).answer request).outcome ∧
    Leaves reached.stack request outcome next.stack ∧ next.config = machine.config ∧
    ∀ chunk, request.Runs chunk → ∀ places : Places, ∃ count result last,
      chunk.ExecutesIn 0 places.reset count result last ∧
      outcome = result.mapError .runtime ∧ last.stack = next.stack := by
  intro reached outcome next
  have config : next.config = machine.config := machine.config_foldl_after history
  refine ⟨reached.outcome_answer_eq {} request, reached.after_leaves request, config, ?_⟩
  intro chunk runs places
  obtain ⟨answered, stack⟩ := reached.answer_of_runs runs
  obtain ⟨count, executes⟩ := reached.run_executes chunk
  obtain ⟨last, inPlaces, live⟩ := executes.executesIn places.stack_reset
  exact ⟨count, _, last, inPlaces, answered, live.trans stack.symm⟩

/-- Two values are pushed and one is returned. -/
def leavingOne : Chunk :=
  { code := #[1, 2, 13], lines := #[1, 1, 1], constants := #[]
    constants_size := Nat.zero_le maxConstants }

private theorem executes_negated_nil : (compile {} "-nil" .empty).chunk.Executes ⟨0, []⟩ 2
    (.error ⟨.operandMustBeNumber, 1⟩) [] := by
  generalize compiled : (compile {} "-nil" .empty).chunk = chunk
  have code : chunk.code = #[1, 12, 13] := compiled ▸ by decide +kernel
  have line : chunk.faultLine 1 = 1 := compiled ▸ by decide +kernel
  have first : chunk.fetch 0 = .instruction (.plain .nil) := Chunk.fetch_of_byte (by rw [code]; rfl)
  have second : chunk.fetch 1 = .instruction (.plain .negate) :=
    Chunk.fetch_of_byte (by rw [code]; rfl)
  have pushes : chunk.Moves ⟨0, []⟩ ⟨0 + (chunk.fetch 0).width, [.nil]⟩ :=
    .instruction (by rw [first]; rfl)
  have stops : chunk.Executes ⟨1, [.nil]⟩ 1 (.error ⟨.operandMustBeNumber, chunk.faultLine 1⟩) [] :=
    .fault (by rw [second]; rfl)
  rw [first] at pushes
  rw [line] at stops
  exact .proceed pushes stops

/-- The value that is left beneath stays over a source that is rejected, and goes with a
fault. A run that returns then leaves the same as before, in the array as well. -/
theorem requests_independent_after_fault :
    let rejected := [.run leavingOne, .interpret "("].foldl Machine.after
      { config := { traceExecution := true } }
    let reached := rejected.after (.interpret "-nil")
    let next := reached.after (.run leavingOne)
    rejected.stack = [.nil] ∧
    (rejected.answer (.interpret "-nil")).outcome =
      .error (.runtime ⟨.operandMustBeNumber, 1⟩) ∧
    reached.stack = [] ∧
    (reached.answer (.run leavingOne)).outcome = .ok (.bool true) ∧
    (({} : Machine).answer (.run leavingOne)).outcome = .ok (.bool true) ∧
    next.stack = [.nil] ∧ next.config.traceExecution = true ∧
    ∀ places : Places, ∃ count last,
      leavingOne.ExecutesIn 0 places.reset count (.ok (.bool true)) last ∧ last.stack = [.nil] := by
  intro rejected reached next
  have returns : leavingOne.Executes ⟨0, []⟩ 3 (.ok (.bool true)) [.nil] :=
    .proceed (.instruction rfl) (.proceed (.instruction rfl) (.finish rfl))
  have kept : rejected.stack = [.nil] :=
    (Machine.answer_of_rejected _ (by decide +kernel)).2.trans
      (Machine.answer_of_executes _ (.chunk leavingOne) returns).2
  obtain ⟨fault, emptied⟩ :=
    rejected.answer_of_executes (.source (by decide +kernel)) executes_negated_nil
  obtain ⟨value, left⟩ := reached.answer_of_executes (.chunk leavingOne) returns
  obtain ⟨independent, _, config, inPlaces⟩ := requests_independent
    { config := { traceExecution := true } }
    [.run leavingOne, .interpret "(", .interpret "-nil"] (.run leavingOne)
  refine ⟨kept, fault, emptied, value, independent.symm.trans value, left,
    congrArg Config.traceExecution config, ?_⟩
  intro places
  obtain ⟨count, result, last, executes, same, stack⟩ :=
    inPlaces leavingOne (.chunk leavingOne) places
  cases result with
  | error error => cases value.symm.trans same
  | ok other =>
    cases value.symm.trans same
    exact ⟨count, last, executes, stack.trans left⟩

end StackCalc
