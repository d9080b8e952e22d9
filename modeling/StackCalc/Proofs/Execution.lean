import Mathlib.Logic.Relation
import StackCalc.Machine
import StackCalc.Proofs.Assembling

/-! A run, told step by step: one instruction moves the machine to another offset and
another stack, or fails, or finishes the run. What steps come to does not depend on the
switches, nor on what was logged before. -/

namespace StackCalc

open Relation

/-- Where the machine stands: the offset of the next instruction, and the stack. -/
structure Standing where
  offset : Nat
  stack : List Value

namespace Chunk

variable {chunk : Chunk}

/-- One instruction that succeeds and does not end the run. -/
inductive Moves (chunk : Chunk) : Standing → Standing → Prop where
  | instruction {offset stack after}
      (succeeds : chunk.effect stack (chunk.fetch offset) = .ok (.proceed after)) :
      Moves chunk ⟨offset, stack⟩ ⟨offset + (chunk.fetch offset).width, after⟩

abbrev Reaches (chunk : Chunk) : Standing → Standing → Prop := ReflTransGen chunk.Moves

def Fails (chunk : Chunk) (start : Standing) (error : RuntimeError) : Prop :=
  ∃ last, chunk.Reaches start last ∧
    chunk.effect last.stack (chunk.fetch last.offset) = .error error.fault ∧
    chunk.faultLine last.offset = error.line

/-- The run comes to an offset with a value on top of what is `below`, or fails. -/
def Comes (chunk : Chunk) (start : Standing) (next : Nat) (below : List Value) :
    Except RuntimeError Value → Prop
  | .ok value => chunk.Reaches start ⟨next, value :: below⟩
  | .error error => chunk.Fails start error

private theorem Comes.after {start middle : Standing} {next : Nat} {below : List Value}
    {result : Except RuntimeError Value} (reaches : chunk.Reaches start middle)
    (comes : chunk.Comes middle next below result) : chunk.Comes start next below result := by
  cases result with
  | ok value => exact reaches.trans comes
  | error error =>
    obtain ⟨last, later, fails, line⟩ := comes
    exact ⟨last, reaches.trans later, fails, line⟩

/-- What is computed first is on the stack for what is computed with it. -/
theorem Comes.bind {start : Standing} {middle next : Nat} {below behind : List Value}
    {result : Except RuntimeError Value} {more : Value → Except RuntimeError Value}
    (first : chunk.Comes start middle below result)
    (second : ∀ value, chunk.Comes ⟨middle, value :: below⟩ next behind (more value)) :
    chunk.Comes start next behind (result >>= more) := by
  cases result with
  | ok value => exact (second value).after first
  | error error => exact first

def Holds (chunk : Chunk) (offset : Nat) (cells : List (UInt8 × Nat)) : Prop :=
  ∀ cell place, (cell, place) ∈ cells.zipIdx offset →
    chunk.code[place]? = some cell.1 ∧ chunk.line? place = some cell.2

/-- The values of the tokens stand in the pool from an index on. -/
def Supplies (chunk : Chunk) (index : Nat) (tokens : List Token) : Prop :=
  ∀ token place, (token, place) ∈ tokens.zipIdx index →
    ∃ value, token.value? = some value ∧ chunk.constants[place]? = some value

theorem holds_append {offset : Nat} {first second : List (UInt8 × Nat)} :
    chunk.Holds offset (first ++ second) ↔
      chunk.Holds offset first ∧ chunk.Holds (offset + first.length) second := by
  simp only [Holds, List.zipIdx_append, List.mem_append, or_imp, forall_and]
  exact and_and_and_comm

theorem supplies_append {index : Nat} {first second : List Token} :
    chunk.Supplies index (first ++ second) ↔
      chunk.Supplies index first ∧ chunk.Supplies (index + first.length) second := by
  simp only [Supplies, List.zipIdx_append, List.mem_append, or_imp, forall_and]

theorem Grows.holds {cells : List (UInt8 × Nat)} {values : List Value}
    (grows : Grows .empty cells values chunk) : chunk.Holds 0 cells := by
  intro cell place member
  have found := List.mk_mem_zipIdx_iff_getElem?.mp member
  obtain ⟨code, lines, _⟩ := grows.fresh
  rw [line?, ← Array.getElem?_toList, ← Array.getElem?_toList, code, lines]
  simp [found]

theorem Grows.supplies {cells : List (UInt8 × Nat)} {values : List Value} {tokens : List Token}
    (grows : Grows .empty cells values chunk) (known : values.map some = tokens.map Token.value?) :
    chunk.Supplies 0 tokens := by
  intro token place member
  have found := List.mk_mem_zipIdx_iff_getElem?.mp member
  obtain ⟨_, _, constants⟩ := grows.fresh
  have same := congrArg (·[place]?) known
  simp only [List.getElem?_map, found, Option.map_some] at same
  obtain ⟨value, at', known⟩ := Option.map_eq_some_iff.mp same
  exact ⟨value, known.symm, by rw [← Array.getElem?_toList, constants, at']⟩

section Instructions

variable {offset line : Nat} {stack below : List Value}

theorem fetch_of_byte {operation : Operation} (code : chunk.code[offset]? = some operation.byte) :
    chunk.fetch offset = .instruction (.plain operation) := by
  simp [fetch, code, show Opcode.ofByte? operation.byte = _ from Opcode.ofByte?_byte (.plain operation)]

theorem fetch_operation {operation : Operation}
    (holds : chunk.Holds offset [(operation.byte, line)]) :
    chunk.fetch offset = .instruction (.plain operation) ∧ chunk.faultLine offset = line := by
  obtain ⟨code, own⟩ := holds (operation.byte, line) offset (by simp)
  have fetched := fetch_of_byte code
  refine ⟨fetched, ?_⟩
  simp [faultLine, fetched, Fetched.width, own]

theorem fetch_constant {index : UInt8}
    (holds : chunk.Holds offset [(Opcode.constant.byte, line), (index, line)]) :
    chunk.fetch offset = .instruction (.constant index) ∧ chunk.faultLine offset = line := by
  obtain ⟨code, _⟩ := holds (Opcode.constant.byte, line) offset (by simp)
  obtain ⟨operand, own⟩ := holds (index, line) (offset + 1) (by simp)
  have fetched : chunk.fetch offset = .instruction (.constant index) := by
    simp [fetch, code, operand, Opcode.ofByte?_byte]
  refine ⟨fetched, ?_⟩
  simp [faultLine, fetched, Fetched.width, own]

private theorem comes_of_effect {width : Nat} {result : Except Fault Value}
    (effect : chunk.effect stack (chunk.fetch offset) =
      result.map fun value => .proceed (value :: below))
    (size : (chunk.fetch offset).width = width) (own : chunk.faultLine offset = line) :
    chunk.Comes ⟨offset, stack⟩ (offset + width) below (result.mapError (⟨·, line⟩)) := by
  cases result with
  | ok value => exact size ▸ .single (.instruction effect)
  | error fault => exact ⟨⟨offset, stack⟩, .refl, effect, own⟩

theorem comes_operation {operation : Operation} {result : Except Fault Value}
    (holds : chunk.Holds offset [(operation.byte, line)])
    (effect : operation.effect stack = result.map fun value => .proceed (value :: below)) :
    chunk.Comes ⟨offset, stack⟩ (offset + 1) below (result.mapError (⟨·, line⟩)) := by
  obtain ⟨fetched, own⟩ := fetch_operation holds
  exact comes_of_effect (by rw [fetched]; exact effect) (by rw [fetched]; rfl) own

theorem comes_push {width : Nat} {value : Value}
    (effect : chunk.effect stack (chunk.fetch offset) = Effect.push value stack)
    (size : (chunk.fetch offset).width = width) (own : chunk.faultLine offset = line) :
    chunk.Comes ⟨offset, stack⟩ (offset + width) stack
      (if stack.length < maxStack then .ok value else .error ⟨.stackOverflow, line⟩) := by
  unfold Effect.push at effect
  split
  next room =>
    rw [if_pos room] at effect
    exact size ▸ .single (.instruction effect)
  next full =>
    rw [if_neg full] at effect
    exact ⟨⟨offset, stack⟩, .refl, effect, own⟩

end Instructions

end Chunk

namespace Machine

variable (config : Config) {chunk : Chunk}

/-- The log once the instruction at an offset is fetched. -/
def fetchLog (chunk : Chunk) (log : Array Event) (offset : Nat) (stack : List Value) : Array Event :=
  if config.traceExecution then
    log.push (.instruction (chunk.instructionText offset) stack.reverse)
  else log

section Instruction

variable {offset : Nat} {stack : List Value} (log : Array Event)

theorem runFrom_proceed {after : List Value}
    (succeeds : chunk.effect stack (chunk.fetch offset) = .ok (.proceed after)) :
    runFrom config chunk log offset stack = runFrom config chunk (fetchLog config chunk log offset stack)
      (offset + (chunk.fetch offset).width) after := by
  rw [runFrom]
  split
  next same => cases succeeds.symm.trans same; rfl
  next other => cases succeeds.symm.trans other
  next other => cases succeeds.symm.trans other

theorem runFrom_finish {value : Value} {beneath : List Value}
    (finishes : chunk.effect stack (chunk.fetch offset) = .ok (.finish value beneath)) :
    runFrom config chunk log offset stack =
      ⟨.ok value, beneath, fetchLog config chunk log offset stack⟩ := by
  rw [runFrom]
  split
  next other => cases finishes.symm.trans other
  next same => cases finishes.symm.trans same; rfl
  next other => cases finishes.symm.trans other

theorem runFrom_fault {fault : Fault}
    (fails : chunk.effect stack (chunk.fetch offset) = .error fault) :
    runFrom config chunk log offset stack = ⟨.error ⟨fault, chunk.faultLine offset⟩, [],
      (fetchLog config chunk log offset stack).push
        (.runtimeError ⟨fault, chunk.faultLine offset⟩)⟩ := by
  rw [runFrom]
  split
  next other => cases fails.symm.trans other
  next other => cases fails.symm.trans other
  next same => cases fails.symm.trans same; rfl

end Instruction

private theorem runFrom_moves {start next : Standing} (moves : chunk.Moves start next)
    (log : Array Event) : ∃ later, runFrom config chunk log start.offset start.stack =
      runFrom config chunk later next.offset next.stack := by
  cases moves with
  | instruction succeeds => exact ⟨_, runFrom_proceed config log succeeds⟩

private theorem runFrom_reaches {start next : Standing} (reaches : chunk.Reaches start next)
    (log : Array Event) : ∃ later, runFrom config chunk log start.offset start.stack =
      runFrom config chunk later next.offset next.stack := by
  induction reaches with
  | refl => exact ⟨log, rfl⟩
  | tail _ moves ih =>
    obtain ⟨middle, first⟩ := ih
    obtain ⟨later, second⟩ := runFrom_moves config moves middle
    exact ⟨later, first.trans second⟩

private theorem runFrom_fails {start : Standing} {error : RuntimeError}
    (fails : chunk.Fails start error)
    (log : Array Event) :
    (runFrom config chunk log start.offset start.stack).outcome = .error error := by
  obtain ⟨last, reaches, fault, line⟩ := fails
  obtain ⟨later, same⟩ := runFrom_reaches config reaches log
  rw [same, runFrom_fault config later fault, line]

private theorem runFrom_finishes {offset : Nat} {stack beneath : List Value} {value : Value}
    (finishes : chunk.effect stack (chunk.fetch offset) = .ok (.finish value beneath))
    (log : Array Event) : (runFrom config chunk log offset stack).outcome = .ok value := by
  rw [runFrom_finish config log finishes]

/-- What comes before a return is what the run comes to. -/
theorem outcome_of_comes {start : Standing} {next line : Nat}
    {below : List Value} {result : Except RuntimeError Value}
    (comes : chunk.Comes start next below result)
    (holds : chunk.Holds next [(Operation.return.byte, line)]) (log : Array Event) :
    (runFrom config chunk log start.offset start.stack).outcome = result := by
  cases result with
  | error error => exact runFrom_fails config comes log
  | ok value =>
    obtain ⟨later, same⟩ := runFrom_reaches config comes log
    obtain ⟨fetched, _⟩ := Chunk.fetch_operation holds
    rw [same]
    exact runFrom_finishes config (by rw [fetched]; rfl) later

end Machine

end StackCalc
