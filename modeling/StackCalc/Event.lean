import StackCalc.CompileError
import StackCalc.Fault

/-! Events for the log. -/

namespace StackCalc

def programName : String := "keto"

inductive Level where
  | error | warn | info | debug | trace
  deriving DecidableEq, Repr

def Level.word : Level → String
  | .error => "ERROR"
  | .warn => "WARN"
  | .info => "INFO"
  | .debug => "DEBUG"
  | .trace => "TRACE"

/-- How much a level tells: a filter set to one level admits those below it. -/
def Level.detail : Level → Nat
  | .error => 1
  | .warn => 2
  | .info => 3
  | .debug => 4
  | .trace => 5

/-- The stack of a traced instruction is listed bottom first. -/
inductive Event where
  | runningFile (path : String) (bytes : Nat)
  | compileError (error : CompileError)
  | listing (text : String)
  | compiled (bytes constants errors : Nat)
  | instruction (text : String) (stack : List Value)
  | runtimeError (error : RuntimeError)

namespace Event

inductive Field where
  | text (text : String)
  | count (count : Nat)

def level : Event → Level
  | .instruction .. => .trace
  | _ => .debug

/-- The part of the program that speaks, under the name the log setting uses. -/
def target : Event → String
  | .runningFile .. => programName
  | .compileError _ | .listing _ | .compiled .. => programName ++ "::compiler"
  | .instruction .. | .runtimeError _ => programName ++ "::vm"

def message : Event → String
  | .runningFile .. => "running file"
  | .compileError _ => "compile error"
  | .listing text => "\n" ++ text
  | .compiled .. => "compiled chunk"
  | .instruction text _ => text
  | .runtimeError _ => "runtime error"

def stackText (stack : List Value) : String :=
  String.join (stack.map fun value => "[ " ++ value.text ++ " ]")

def fields : Event → List (String × Field)
  | .runningFile path bytes => [("path", .text path), ("bytes", .count bytes)]
  | .compileError error => [("error", .text error.text)]
  | .listing _ => []
  | .compiled bytes constants errors =>
    [("bytes", .count bytes), ("constants", .count constants), ("errors", .count errors)]
  | .instruction _ stack => [("stack", .text (stackText stack))]
  | .runtimeError error => [("fault", .text error.fault.message), ("line", .count error.line)]

/-- The message counts as a field. -/
def fieldNames (event : Event) : List String := "message" :: event.fields.map Prod.fst

end Event

end StackCalc
