/-! The instruction set. Every instruction is one byte, except that `CONSTANT` has
an operand byte after it. -/

namespace StackCalc

inductive Operation where
  | nil | true | false
  | equal | greater | less
  | add | subtract | multiply | divide
  | not | negate | return
  deriving DecidableEq, Repr

inductive Opcode where
  | constant
  | plain (operation : Operation)
  deriving DecidableEq, Repr

/-- A whole instruction: the opcode with its operand, if it takes one. -/
inductive Instruction where
  | constant (index : UInt8)
  | plain (operation : Operation)
  deriving DecidableEq, Repr

namespace Operation

def byte : Operation → UInt8
  | .nil => 1
  | .true => 2
  | .false => 3
  | .equal => 4
  | .greater => 5
  | .less => 6
  | .add => 7
  | .subtract => 8
  | .multiply => 9
  | .divide => 10
  | .not => 11
  | .negate => 12
  | .return => 13

def mnemonic : Operation → String
  | .nil => "NIL"
  | .true => "TRUE"
  | .false => "FALSE"
  | .equal => "EQUAL"
  | .greater => "GREATER"
  | .less => "LESS"
  | .add => "ADD"
  | .subtract => "SUBTRACT"
  | .multiply => "MULTIPLY"
  | .divide => "DIVIDE"
  | .not => "NOT"
  | .negate => "NEGATE"
  | .return => "RETURN"

end Operation

namespace Opcode

def byte : Opcode → UInt8
  | .constant => 0
  | .plain operation => operation.byte

def ofByte? : UInt8 → Option Opcode
  | 0 => some .constant
  | 1 => some (.plain .nil)
  | 2 => some (.plain .true)
  | 3 => some (.plain .false)
  | 4 => some (.plain .equal)
  | 5 => some (.plain .greater)
  | 6 => some (.plain .less)
  | 7 => some (.plain .add)
  | 8 => some (.plain .subtract)
  | 9 => some (.plain .multiply)
  | 10 => some (.plain .divide)
  | 11 => some (.plain .not)
  | 12 => some (.plain .negate)
  | 13 => some (.plain .return)
  | _ => none

def mnemonic : Opcode → String
  | .constant => "CONSTANT"
  | .plain operation => operation.mnemonic

def operands : Opcode → Nat
  | .constant => 1
  | .plain _ => 0

theorem ofByte?_byte (opcode : Opcode) : ofByte? opcode.byte = some opcode := by
  cases opcode with
  | constant => rfl
  | plain operation => cases operation <;> rfl

theorem byte_of_ofByte? {code : UInt8} {opcode : Opcode} (known : ofByte? code = some opcode) :
    opcode.byte = code := by
  unfold ofByte? at known
  split at known <;> cases known <;> rfl

end Opcode

end StackCalc
