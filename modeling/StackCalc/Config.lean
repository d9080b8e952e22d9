/-! What a machine logs besides results. Neither switch changes a result. -/

namespace StackCalc

structure Config where
  /-- Log each instruction, with the stack, before it is fetched. -/
  traceExecution : Bool := false
  /-- Log the listing of each chunk that compiled. -/
  printCode : Bool := false
  deriving DecidableEq, Repr

def Config.withTraceExecution (config : Config) (on : Bool) : Config :=
  { config with traceExecution := on }

def Config.withPrintCode (config : Config) (on : Bool) : Config :=
  { config with printCode := on }

end StackCalc
