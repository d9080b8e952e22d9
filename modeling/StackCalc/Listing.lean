import StackCalc.Chunk
import StackCalc.Text

/-! Listings of bytecode, one instruction a line. Bytes that make no sense are
listed as such, so every chunk has a listing. -/

namespace StackCalc.Chunk

/-- The line of a byte, or a bar if the byte before it has the same line. -/
def lineMark (chunk : Chunk) (offset : Nat) : String :=
  match chunk.line? offset with
  | none => "   ? "
  | some line =>
    if 0 < offset && chunk.line? (offset - 1) == some line then "   | "
    else Column.right 4 ' ' (toString line) ++ " "

/-- A constant instruction with its index and, in quotes, the constant. -/
def constantText (chunk : Chunk) (index : UInt8) : String :=
  let shown := match chunk.constant? index with
    | some value => "'" ++ value.text ++ "'"
    | none => "<missing constant>"
  Column.left 16 Opcode.constant.mnemonic ++ " " ++
    Column.right 4 ' ' (toString index.toNat) ++ " " ++ shown

def fetchedText (chunk : Chunk) : Fetched → String
  | .instruction (.constant index) => chunk.constantText index
  | .instruction (.plain operation) => operation.mnemonic
  | .unknown byte => "Unknown opcode " ++ toString byte.toNat
  | .truncated => Opcode.constant.mnemonic ++ " <truncated>"
  | .pastEnd => "<end of chunk>"

def instructionText (chunk : Chunk) (offset : Nat) : String :=
  Column.right 4 '0' (toString offset) ++ " " ++ chunk.lineMark offset ++
    chunk.fetchedText (chunk.fetch offset)

def nextOffset (chunk : Chunk) (offset : Nat) : Nat :=
  offset + max 1 (chunk.fetch offset).width

/-- The offsets that a listing shows, added to those already visited. -/
def walk (chunk : Chunk) (visited : Array Nat) (offset : Nat) : Array Nat :=
  if offset < chunk.code.size then chunk.walk (visited.push offset) (chunk.nextOffset offset)
  else visited
termination_by chunk.code.size - offset
decreasing_by
  unfold nextOffset
  omega

def instructionOffsets (chunk : Chunk) : List Nat := (chunk.walk #[] 0).toList

def listing (chunk : Chunk) (name : String) : String :=
  chunk.instructionOffsets.foldl (fun text offset => text ++ chunk.instructionText offset ++ "\n")
    ("== " ++ name ++ " ==\n")

end StackCalc.Chunk
