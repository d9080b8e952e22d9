import StackCalc.Assembly
import StackCalc.Machine

/-! From source text to a value, and from one request to the next. -/

namespace StackCalc

inductive InterpretError where
  | compile (errors : List CompileError)
  | runtime (error : RuntimeError)
  deriving DecidableEq, Repr

def InterpretError.text : InterpretError → String
  | .compile errors => CompileError.listText errors
  | .runtime error => error.text

namespace Machine

/-- Compile a source and, if that succeeds, run it. A source that does not compile
leaves the stack alone. -/
def interpret (machine : Machine) (source : String) : Run InterpretError :=
  let compiled := compile machine.config source .empty
  if compiled.errors.isEmpty then
    let run := machine.run compiled.chunk
    ⟨run.outcome.mapError .runtime, run.stack, compiled.log ++ run.log⟩
  else ⟨.error (.compile compiled.errors), machine.stack, compiled.log⟩

variable {machine : Machine} {source : String}

theorem interpret_of_compiles (compiles : (compile machine.config source .empty).errors = []) :
    machine.interpret source =
      let compiled := compile machine.config source .empty
      let run := machine.run compiled.chunk
      ⟨run.outcome.mapError .runtime, run.stack, compiled.log ++ run.log⟩ :=
  if_pos (List.isEmpty_iff.mpr compiles)

theorem interpret_of_rejected (rejected : (compile machine.config source .empty).errors ≠ []) :
    machine.interpret source =
      let compiled := compile machine.config source .empty
      ⟨.error (.compile compiled.errors), machine.stack, compiled.log⟩ :=
  if_neg fun clean => rejected (List.isEmpty_iff.mp clean)

/-- What a machine may be asked for: the value of a source, or that of a chunk as it is. -/
inductive Request where
  | interpret (source : String)
  | run (chunk : Chunk)

def answer (machine : Machine) : Request → Run InterpretError
  | .interpret source => machine.interpret source
  | .run chunk =>
    let run := machine.run chunk
    ⟨run.outcome.mapError .runtime, run.stack, run.log⟩

/-- A machine changes in nothing but what is on its stack. -/
def keeping (machine : Machine) (stack : List Value) : Machine := { machine with stack }

/-- The machine as the request leaves it. -/
def after (machine : Machine) (request : Request) : Machine :=
  machine.keeping (machine.answer request).stack

end Machine

end StackCalc
