import StackCalc.Evaluation
import StackCalc.Interpreter
import StackCalc.Proofs.Encoding
import StackCalc.Proofs.Execution

/-! Running the code of an expression does what evaluating the tree does. The code of a
part stands somewhere in the chunk, its operands lie on a stack that may hold more, and
what its run comes to is what the part evaluates to, with the same fault on the same
line. -/

namespace StackCalc

open StackCalc.Expr

variable {chunk : Chunk} {offset line : Nat}

namespace Chunk

private theorem comes_number {token : Token} {index : Nat} (stack : List Value)
    (number : token.kind = .number)
    (holds : chunk.Holds offset [(Opcode.constant.byte, token.line), (.ofNat index, token.line)])
    (supplies : chunk.Supplies index [token]) :
    chunk.Comes ⟨offset, stack⟩ (offset + 2) stack (literalValue token stack.length) := by
  obtain ⟨value, known, constant⟩ := supplies token index (by simp)
  obtain ⟨x, read, rfl⟩ := Option.map_eq_some_iff.mp known
  have inside := (Array.getElem?_eq_some_iff.mp constant).1
  have small : index < UInt8.size := Nat.lt_of_lt_of_le inside chunk.constants_size
  have loaded : chunk.constant? (.ofNat index) = some (.number x) := by
    rw [constant?, UInt8.toNat_ofNat_of_lt' small, constant]
  obtain ⟨fetched, own⟩ := fetch_constant holds
  have value : literalValue token stack.length = if stack.length < maxStack
      then .ok (.number x) else .error ⟨.stackOverflow, token.line⟩ := by
    simp [literalValue, number, read]
  rw [value]
  exact comes_push (by simp only [fetched, effect, loaded]) (by rw [fetched]; rfl) own

private theorem comes_word {operation : Operation} {value : Value} (stack : List Value)
    (holds : chunk.Holds offset [(operation.byte, line)])
    (pushes : operation.effect stack = Effect.push value stack) :
    chunk.Comes ⟨offset, stack⟩ (offset + 1) stack
      (if stack.length < maxStack then .ok value else .error ⟨.stackOverflow, line⟩) := by
  obtain ⟨fetched, own⟩ := fetch_operation holds
  exact comes_push (by rw [fetched]; exact pushes) (by rw [fetched]; rfl) own

end Chunk

theorem unary_instruction {operator : TokenKind} (kind : operator = .minus ∨ operator = .bang) :
    ∃ operation : Operation, unaryBytes operator = [operation.byte] ∧
      ∀ value below, operation.effect (value :: below) =
        (unaryValue operator value).map fun result => .proceed (result :: below) := by
  rcases kind with rfl | rfl
  · refine ⟨.negate, rfl, ?_⟩
    intro value below
    cases value <;> rfl
  · refine ⟨.not, rfl, ?_⟩
    intro value below
    rfl

/-- A binary operator has an instruction of its own, or it denies the result of the
instruction for another one. -/
inductive Instructed (operator : TokenKind) : Prop where
  | direct (operation : Operation) (bytes : binaryBytes operator = [operation.byte])
      (effect : ∀ a b below, operation.effect (b :: a :: below) =
        (binaryValue operator a b).map fun result => .proceed (result :: below))
  | denied (operation : Operation) (other : TokenKind)
      (bytes : binaryBytes operator = [operation.byte, Operation.not.byte])
      (effect : ∀ a b below, operation.effect (b :: a :: below) =
        (binaryValue other a b).map fun result => .proceed (result :: below))
      (denies : ∀ a b, binaryValue operator a b =
        (binaryValue other a b).map fun result => .bool result.isFalsey)

theorem instructed {operator : TokenKind} {layer : Layer}
    (joins : Layer.ofOperator? operator = some layer) : Instructed operator := by
  cases operator <;> simp [Layer.ofOperator?] at joins
  case minus | plus | slash | star | equalEqual | greater | less =>
    apply Instructed.direct _ rfl
    intro a b below
    cases a <;> cases b <;> rfl
  case' bangEqual => apply Instructed.denied _ .equalEqual rfl
  case' lessEqual => apply Instructed.denied _ .greater rfl
  case' greaterEqual => apply Instructed.denied _ .less rfl
  all_goals
    intro a b
    cases a <;> cases b
    all_goals first | rfl | (intro below; rfl)

private theorem Chunk.comes_binary {operator : TokenKind} {layer : Layer} (a b : Value)
    (below : List Value) (joins : Layer.ofOperator? operator = some layer)
    (holds : chunk.Holds offset ((binaryBytes operator).map (·, line))) :
    chunk.Comes ⟨offset, b :: a :: below⟩ (offset + (binaryBytes operator).length) below
      ((binaryValue operator a b).mapError (⟨·, line⟩)) := by
  cases instructed joins with
  | direct operation bytes effect =>
    rw [bytes] at holds ⊢
    exact comes_operation holds (effect a b below)
  | denied operation other bytes effect denies =>
    rw [bytes] at holds ⊢
    obtain ⟨first, second⟩ := holds_append.mp (show chunk.Holds offset ([_] ++ [_]) from holds)
    have compared := comes_operation first (effect a b below)
    have same : (binaryValue operator a b).mapError (⟨·, line⟩) =
        (binaryValue other a b).mapError (RuntimeError.mk · line) >>=
          fun result => .ok (.bool result.isFalsey) := by
      rw [denies]
      cases binaryValue other a b <;> rfl
    rw [same]
    apply compared.bind
    intro result
    show chunk.Comes _ _ below ((Except.ok (.bool result.isFalsey)).mapError (⟨·, line⟩))
    exact comes_operation second rfl

/-- A part of an expression whose code, wherever it stands and whatever else is on the
stack, does what evaluating the part does. -/
def Runs (chunk : Chunk) (expr : Expr) : Prop :=
  ∀ offset index stack, chunk.Holds offset (expr.encoding index) →
    chunk.Supplies index expr.numbers →
    chunk.Comes ⟨offset, stack⟩ (offset + (expr.encoding index).length) stack
      (expr.evaluate stack.length)

namespace Runs

private theorem literal {token : Token} (kind : token.kind ∈ [.number, .kwTrue, .kwFalse, .kwNil]) :
    Runs chunk (.literal token) := by
  intro offset index stack holds supplies
  simp only [List.mem_cons, List.not_mem_nil, or_false] at kind
  rcases kind with kind | kind | kind | kind <;>
    simp only [encoding, literalBytes, kind, List.map_cons, List.map_nil] at holds ⊢
  · have own : (Expr.literal token).numbers = [token] := by simp [numbers, tokens, kind]
    rw [own] at supplies
    exact Chunk.comes_number stack kind holds supplies
  all_goals
    simp only [evaluate, literalValue, kind]
    exact Chunk.comes_word stack holds rfl

private theorem unary {operator : Token} {operand : Expr} (runs : Runs chunk operand)
    (kind : operator.kind = .minus ∨ operator.kind = .bang) :
    Runs chunk (.unary operator operand) := by
  intro offset index stack holds supplies
  obtain ⟨operation, bytes, effect⟩ := unary_instruction kind
  rw [numbers_unary kind] at supplies
  simp only [encoding, bytes, List.map_cons, List.map_nil, Chunk.holds_append] at holds
  simp only [encoding, bytes, evaluate, List.map_cons, List.map_nil, List.length_append,
    List.length_singleton, ← Nat.add_assoc]
  apply (runs offset index stack holds.1 supplies).bind
  intro value
  exact Chunk.comes_operation holds.2 (effect value stack)

private theorem binary {left right : Expr} {operator : Token} {layer : Layer}
    (first : Runs chunk left) (second : Runs chunk right)
    (joins : Layer.ofOperator? operator.kind = some layer) :
    Runs chunk (.binary left operator right) := by
  intro offset index stack holds supplies
  rw [numbers_binary joins, Chunk.supplies_append] at supplies
  simp only [encoding, Chunk.holds_append, List.length_append] at holds
  obtain ⟨⟨leftHolds, rightHolds⟩, own⟩ := holds
  simp only [encoding, evaluate, List.length_append, List.length_map, ← Nat.add_assoc]
  apply (first offset index stack leftHolds supplies.1).bind
  intro a
  apply (second _ _ (a :: stack) rightHolds supplies.2).bind
  intro b
  exact Chunk.comes_binary a b stack joins (by rwa [← Nat.add_assoc] at own)

theorem ofIn {layer : Layer} {expr : Expr} (inside : In layer expr) : Runs chunk expr := by
  induction inside with
  | literal kind => exact literal kind
  | group left right inside ih =>
    intro offset index stack holds supplies
    rw [numbers_group left right] at supplies
    exact ih offset index stack holds supplies
  | unary kind inside ih => exact unary ih kind
  | binary joins first second ihFirst ihSecond => exact binary ihFirst ihSecond joins
  | looser inside ih => exact ih

end Runs

/-- A source that compiles denotes exactly one expression, and interpreting it gives what
evaluating this expression gives, on every machine. -/
theorem interpret_evaluates (config : Config) (source : String)
    (compiles : (compile config source .empty).errors = []) :
    ∃ expr, Denotes (tokensOf source) expr ∧
      (∀ other, Denotes (tokensOf source) other → other = expr) ∧
      ∀ machine : Machine,
        (machine.interpret source).outcome = (expr.evaluate 0).mapError .runtime := by
  obtain ⟨expr, eof, values, inside, last, split, _, known, grows⟩ :=
    grows_of_accepted (ended_tokensOf source) (readings_tokensOf source) compiles
  have denotes : Denotes (tokensOf source) expr := ⟨inside, eof, last, split⟩
  refine ⟨expr, denotes, fun other also => also.unique denotes, ?_⟩
  intro machine
  obtain ⟨code, final⟩ := Chunk.holds_append.mp grows.holds
  have comes := Runs.ofIn inside 0 0 [] code (grows.supplies known)
  have outcome := Machine.outcome_of_comes machine.config comes final #[]
  have clean : (compile machine.config source .empty).errors.isEmpty = true :=
    List.isEmpty_iff.mpr compiles
  simp only [Machine.interpret, clean, if_true, compile_chunk, Machine.run]
  exact congrArg (Except.mapError InterpretError.runtime) outcome

/-- The operand ends with its parenthesis, so the fault is on the second line. -/
theorem interpret_evaluates_fault :
    (compile {} "-(nil\n)" .empty).errors = [] ∧ ∀ machine : Machine,
      (machine.interpret "-(nil\n)").outcome = .error (.runtime ⟨.operandMustBeNumber, 2⟩) := by
  have compiles : (compile {} "-(nil\n)" .empty).errors = [] := by decide +kernel
  let operand : Expr := .group ⟨.leftParen, "(", 1⟩ (.literal ⟨.kwNil, "nil", 1⟩) ⟨.rightParen, ")", 2⟩
  have inside : In .primary operand := .group rfl rfl (In.literal (by decide)).equality
  have denotes : Denotes (tokensOf "-(nil\n)") (.unary ⟨.minus, "-", 1⟩ operand) :=
    ⟨(In.unary (.inl rfl) (.looser inside)).equality, ⟨.eof, "", 2⟩, rfl, by decide +kernel⟩
  obtain ⟨expr, _, unique, evaluates⟩ := interpret_evaluates {} "-(nil\n)" compiles
  refine ⟨compiles, ?_⟩
  intro machine
  rw [evaluates machine, ← unique _ denotes]
  rfl

end StackCalc
