import StackCalc.Config
import StackCalc.Event
import StackCalc.Listing

/-! The stack machine. A run goes straight through the bytes of a chunk, since no
instruction jumps, and its operand stack never holds more than `maxStack` values. -/

namespace StackCalc

def maxStack : Nat := 256

/-- What an instruction does to the operand stack, whose top comes first. -/
inductive Effect where
  | proceed (stack : List Value)
  | finish (value : Value) (beneath : List Value)

namespace Effect

def push (value : Value) (stack : List Value) : Except Fault Effect :=
  if stack.length < maxStack then .ok (.proceed (value :: stack)) else .error .stackOverflow

/-- Both operands must be there before either is looked at. -/
def numeric (result : Float → Float → Value) : List Value → Except Fault Effect
  | .number y :: .number x :: rest => .ok (.proceed (result x y :: rest))
  | _ :: _ :: _ => .error .operandsMustBeNumbers
  | _ => .error .stackUnderflow

end Effect

open Effect in
def Operation.effect : Operation → List Value → Except Fault Effect
  | .nil, stack => push .nil stack
  | .true, stack => push (.bool Bool.true) stack
  | .false, stack => push (.bool Bool.false) stack
  | .equal, b :: a :: rest => .ok (.proceed (.bool (a == b) :: rest))
  | .greater, stack => numeric (fun x y => .bool (x > y)) stack
  | .less, stack => numeric (fun x y => .bool (x < y)) stack
  | .add, stack => numeric (fun x y => .number (x + y)) stack
  | .subtract, stack => numeric (fun x y => .number (x - y)) stack
  | .multiply, stack => numeric (fun x y => .number (x * y)) stack
  | .divide, stack => numeric (fun x y => .number (x / y)) stack
  | .not, value :: rest => .ok (.proceed (.bool value.isFalsey :: rest))
  | .negate, .number x :: rest => .ok (.proceed (.number (-x) :: rest))
  | .negate, _ :: _ => .error .operandMustBeNumber
  | .return, value :: rest => .ok (.finish value rest)
  | .equal, _ | .not, _ | .negate, _ | .return, _ => .error .stackUnderflow

namespace Chunk

def effect (chunk : Chunk) (stack : List Value) : Fetched → Except Fault Effect
  | .instruction (.constant index) =>
    match chunk.constant? index with
    | some value => Effect.push value stack
    | none => .error (.constantOutOfRange index)
  | .instruction (.plain operation) => operation.effect stack
  | .unknown byte => .error (.unknownOpcode byte)
  | .truncated | .pastEnd => .error .unexpectedEnd

/-- The line of the last byte that was read, or 0 if there was none. -/
def faultLine (chunk : Chunk) (offset : Nat) : Nat :=
  match offset + (chunk.fetch offset).width with
  | 0 => 0
  | last + 1 => (chunk.line? last).getD 0

theorem inside_of_effect {chunk : Chunk} {offset : Nat} {stack : List Value} {effect : Effect}
    (succeeds : chunk.effect stack (chunk.fetch offset) = .ok effect) :
    offset < chunk.code.size := by
  apply Nat.lt_of_not_le
  intro outside
  simp [fetch, Array.getElem?_eq_none outside, Chunk.effect] at succeeds

end Chunk

/-- How a run ends: with a value or an error, with the stack that is left, top
first, and with all that was logged. -/
structure Run (Error : Type) where
  outcome : Except Error Value
  stack : List Value
  log : Array Event

/-- The machine keeps what the last run left on its stack, top first. -/
structure Machine where
  config : Config := {}
  stack : List Value := []

namespace Machine

def runFrom (config : Config) (chunk : Chunk) (log : Array Event) (offset : Nat)
    (stack : List Value) : Run RuntimeError :=
  let log := if config.traceExecution then
      log.push (.instruction (chunk.instructionText offset) stack.reverse)
    else log
  let fetched := chunk.fetch offset
  match _succeeds : chunk.effect stack fetched with
  | .ok (.proceed stack) => runFrom config chunk log (offset + fetched.width) stack
  | .ok (.finish value beneath) => ⟨.ok value, beneath, log⟩
  | .error fault =>
    let error := ⟨fault, chunk.faultLine offset⟩
    ⟨.error error, [], log.push (.runtimeError error)⟩
termination_by chunk.code.size - offset
decreasing_by
  have inside := Chunk.inside_of_effect _succeeds
  have forward := chunk.width_fetch_pos offset inside
  omega

def run (machine : Machine) (chunk : Chunk) : Run RuntimeError :=
  runFrom machine.config chunk #[] 0 []

end Machine

end StackCalc
