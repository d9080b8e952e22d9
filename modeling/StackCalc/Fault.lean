/-! Errors of running code. -/

namespace StackCalc

/-- The code of a source that compiles runs into the first three only. The others need a
chunk that was put together by hand, or the one that a rejected source leaves. -/
inductive Fault where
  | operandMustBeNumber
  | operandsMustBeNumbers
  | stackOverflow
  | stackUnderflow
  | unknownOpcode (byte : UInt8)
  | constantOutOfRange (index : UInt8)
  | unexpectedEnd
  deriving DecidableEq, Repr

def Fault.message : Fault → String
  | .operandMustBeNumber => "Operand must be a number."
  | .operandsMustBeNumbers => "Operands must be numbers."
  | .stackOverflow => "Stack overflow."
  | .stackUnderflow => "Stack underflow."
  | .unknownOpcode byte => "Unknown opcode " ++ toString byte.toNat ++ "."
  | .constantOutOfRange index => "Constant index " ++ toString index.toNat ++ " is out of range."
  | .unexpectedEnd => "Unexpected end of bytecode."

structure RuntimeError where
  fault : Fault
  line : Nat
  deriving DecidableEq, Repr

def RuntimeError.text (error : RuntimeError) : String :=
  error.fault.message ++ "\n[line " ++ toString error.line ++ "] in script"

end StackCalc
