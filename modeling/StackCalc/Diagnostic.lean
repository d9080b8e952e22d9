import StackCalc.Interpreter

/-! Diagnostics: errors made ready to be shown, whatever they came from. -/

namespace StackCalc

inductive Severity where
  | error
  deriving DecidableEq, Repr

def Severity.word : Severity → String
  | .error => "error"

inductive Phase where
  | compile
  | runtime
  deriving DecidableEq, Repr

def Phase.word : Phase → String
  | .compile => "compile"
  | .runtime => "runtime"

/-- The source is there to be quoted from, and is not part of what is said. -/
structure Diagnostic where
  severity : Severity := .error
  phase : Phase
  message : String
  line : Option Nat := none
  location : Option String := none
  source : Option String := none
  deriving DecidableEq, Repr

namespace Diagnostic

def withSource (diagnostic : Diagnostic) (source : String) : Diagnostic :=
  { diagnostic with source := some source }

/-- Locations that stand alone have no blank in front. -/
def locationText : Location → Option String
  | .atEnd => some "at end"
  | .at lexeme => some ("at '" ++ lexeme ++ "'")
  | .lexical => none

def ofCompileError (error : CompileError) : Diagnostic :=
  { phase := .compile, message := error.message, line := some error.line,
    location := locationText error.location }

def ofRuntimeError (error : RuntimeError) : Diagnostic :=
  { phase := .runtime, message := error.fault.message, line := some error.line }

def ofInterpretError : InterpretError → List Diagnostic
  | .compile errors => errors.map ofCompileError
  | .runtime error => [ofRuntimeError error]

end Diagnostic

end StackCalc
