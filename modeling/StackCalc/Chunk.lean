import StackCalc.Instruction
import StackCalc.Value

/-! A chunk of bytecode: the bytes, the source line of each, and the constants
they refer to. Chunks only ever grow at the end. -/

namespace StackCalc

/-- An operand byte can name this many constants. -/
def maxConstants : Nat := 256

inductive ChunkError where
  | constantPoolFull
  | unknownOpcode (byte : UInt8)
  deriving DecidableEq, Repr

def ChunkError.message : ChunkError → String
  | .constantPoolFull => "Too many constants in one chunk."
  | .unknownOpcode byte => s!"Unknown opcode {byte.toNat}"

structure Chunk where
  code : Array UInt8 := #[]
  lines : Array Nat := #[]
  constants : Array Value := #[]
  lines_size : lines.size = code.size := by rfl
  constants_size : constants.size ≤ maxConstants := by decide

namespace Chunk

def empty : Chunk := {}

instance : Inhabited Chunk := ⟨empty⟩

def write (chunk : Chunk) (byte : UInt8) (line : Nat) : Chunk :=
  { chunk with
    code := chunk.code.push byte
    lines := chunk.lines.push line
    lines_size := by simp [chunk.lines_size] }

/-- The byte is read as an opcode, which may fail, and is written if it is one. -/
def writeOpcode (chunk : Chunk) (byte : UInt8) (line : Nat) : Except ChunkError Chunk :=
  match Opcode.ofByte? byte with
  | some _ => .ok (chunk.write byte line)
  | none => .error (.unknownOpcode byte)

def addConstant (chunk : Chunk) (value : Value) : Except ChunkError (UInt8 × Chunk) :=
  if free : chunk.constants.size < maxConstants then
    .ok (.ofNat chunk.constants.size,
      { chunk with
        constants := chunk.constants.push value
        constants_size := by simpa using Nat.succ_le_of_lt free })
  else .error .constantPoolFull

def constant? (chunk : Chunk) (index : UInt8) : Option Value :=
  chunk.constants[index.toNat]?

def line? (chunk : Chunk) (offset : Nat) : Option Nat := chunk.lines[offset]?

inductive Fetched where
  | instruction (instruction : Instruction)
  | unknown (byte : UInt8)
  | truncated
  | pastEnd
  deriving DecidableEq, Repr

/-- The bytes that were there to read. -/
def Fetched.width : Fetched → Nat
  | .instruction (.constant _) => 2
  | .instruction (.plain _) | .unknown _ | .truncated => 1
  | .pastEnd => 0

def fetch (chunk : Chunk) (offset : Nat) : Fetched :=
  match chunk.code[offset]? with
  | none => .pastEnd
  | some byte =>
    match Opcode.ofByte? byte with
    | none => .unknown byte
    | some (.plain operation) => .instruction (.plain operation)
    | some .constant =>
      match chunk.code[offset + 1]? with
      | none => .truncated
      | some index => .instruction (.constant index)

theorem add_width_fetch_le (chunk : Chunk) (offset : Nat) (inside : offset ≤ chunk.code.size) :
    offset + (chunk.fetch offset).width ≤ chunk.code.size := by
  unfold fetch
  split
  next => simpa [Fetched.width] using inside
  next found =>
    have below := (Array.getElem?_eq_some_iff.mp found).1
    split
    · exact below
    · exact below
    · split
      next => exact below
      next operand => exact (Array.getElem?_eq_some_iff.mp operand).1

theorem width_fetch_pos (chunk : Chunk) (offset : Nat) (inside : offset < chunk.code.size) :
    0 < (chunk.fetch offset).width := by
  unfold fetch
  split
  next missing => simp at missing; omega
  next =>
    split
    · exact Nat.one_pos
    · exact Nat.one_pos
    · split
      · exact Nat.one_pos
      · exact Nat.two_pos

end Chunk

end StackCalc
