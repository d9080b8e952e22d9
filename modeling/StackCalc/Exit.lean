import StackCalc.Interpreter

/-! How a program ends. -/

namespace StackCalc

inductive Exit where
  | success
  | badUsage
  | compileError
  | runtimeError
  | ioError
  deriving DecidableEq, Repr

namespace Exit

def code : Exit → UInt32
  | .success => 0
  | .badUsage => 2
  | .compileError => 65
  | .runtimeError => 70
  | .ioError => 74

def ofOutcome : Except InterpretError Value → Exit
  | .ok _ => .success
  | .error (.compile _) => .compileError
  | .error (.runtime _) => .runtimeError

end Exit

end StackCalc
