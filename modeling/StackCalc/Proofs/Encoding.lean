import StackCalc.Proofs.Acceptance
import StackCalc.Proofs.Unambiguity

/-! The code of an expression, told from the tree alone: operands before operators, every
byte on the line of the last token of the part it belongs to, and the numbers as they
are written. It is what a source that compiles is compiled to. -/

namespace StackCalc

open StackCalc.Expr StackCalc.Parser

namespace Expr

def literalBytes (index : Nat) : TokenKind → List UInt8
  | .number => [Opcode.constant.byte, .ofNat index]
  | .kwTrue => [Operation.true.byte]
  | .kwFalse => [Operation.false.byte]
  | .kwNil => [Operation.nil.byte]
  | _ => []

def unaryBytes : TokenKind → List UInt8
  | .minus => [Operation.negate.byte]
  | .bang => [Operation.not.byte]
  | _ => []

def binaryBytes : TokenKind → List UInt8
  | .equalEqual => [Operation.equal.byte]
  | .bangEqual => [Operation.equal.byte, Operation.not.byte]
  | .greater => [Operation.greater.byte]
  | .lessEqual => [Operation.greater.byte, Operation.not.byte]
  | .less => [Operation.less.byte]
  | .greaterEqual => [Operation.less.byte, Operation.not.byte]
  | .plus => [Operation.add.byte]
  | .minus => [Operation.subtract.byte]
  | .star => [Operation.multiply.byte]
  | .slash => [Operation.divide.byte]
  | _ => []

/-- The bytes in post-order, each with its line, if `index` numbers come before. The own
bytes of a tree are on the line of its last token. -/
def encoding (index : Nat) : Expr → List (UInt8 × Nat)
  | .literal token => (literalBytes index token.kind).map (·, token.line)
  | .group _ inner _ => inner.encoding index
  | .unary operator operand =>
    operand.encoding index ++ (unaryBytes operator.kind).map (·, operand.lastLine)
  | .binary left operator right =>
    left.encoding index ++ right.encoding (index + left.numbers.length) ++
      (binaryBytes operator.kind).map (·, right.lastLine)

theorem cells_operations (index line : Nat) (operations : List Operation) :
    Directive.cells index (operations.map (.operation · line)) =
      operations.map fun operation => (operation.byte, line) := by
  induction operations with
  | nil => rfl
  | cons operation operations ih => simp [Directive.cells, ih]

theorem unaryBytes_eq (kind : TokenKind) :
    unaryBytes kind = kind.unaryOperations.map Operation.byte := by
  cases kind <;> rfl

theorem binaryBytes_eq (kind : TokenKind) :
    binaryBytes kind = kind.binaryOperations.map Operation.byte := by
  cases kind <;> rfl

theorem literalBytes_eq {kind : TokenKind} (other : kind ≠ .number) (index : Nat) :
    literalBytes index kind = kind.literalOperations.map Operation.byte := by
  cases kind <;> first | rfl | exact absurd rfl other

theorem In.cells_directives {layer : Layer} {expr : Expr} (inside : In layer expr) {index : Nat}
    (fits : index + expr.numbers.length ≤ maxConstants) :
    Directive.cells index expr.directives = expr.encoding index := by
  induction inside generalizing index with
  | @literal token kind =>
    by_cases number : token.kind = .number
    · have inRange : index < maxConstants := by simp [numbers, Expr.tokens, number] at fits; omega
      simp [directives, number, Directive.cells, encoding, literalBytes, constantIndex, inRange]
    · simp [directives, number, cells_operations, encoding, literalBytes_eq number]
  | group left right inside ih =>
    rw [numbers_group left right] at fits
    exact ih fits
  | unary kind inside ih =>
    rw [numbers_unary kind] at fits
    simp [directives, Directive.cells_append, ih fits, cells_operations, encoding, unaryBytes_eq]
  | binary joins first second ihFirst ihSecond =>
    rw [numbers_binary joins, List.length_append, ← Nat.add_assoc] at fits
    have before := ihFirst (Nat.le_trans (Nat.le_add_right _ _) fits)
    have behind := ihSecond fits
    simp [directives, Directive.cells_append, before, first.numbers_directives, behind,
      cells_operations, encoding, binaryBytes_eq]
  | looser inside ih => exact ih fits

end Expr

theorem compile_chunk (config : Config) (source : String) (chunk : Chunk) :
    (compile config source chunk).chunk = (Assembly.ofTokens (tokensOf source) chunk).chunk := rfl

theorem grows_of_accepted {tokens : List Token} (ended : Ended tokens)
    (readings : Readings tokens) (accepted : (Assembly.ofTokens tokens .empty).errors = []) :
    ∃ expr eof values, In .equality expr ∧ eof.kind = .eof ∧ tokens = expr.tokens ++ [eof] ∧
      expr.numbers.length ≤ maxConstants ∧ values.map some = expr.numbers.map Token.value? ∧
      Chunk.Grows .empty (expr.encoding 0 ++ [(Operation.return.byte, eof.line)]) values
        (Assembly.ofTokens tokens .empty).chunk := by
  obtain ⟨clean, expr, ⟨inside, eof, last, rfl⟩, room, fits⟩ :=
    (errors_ofTokens_iff ended readings .empty).mp accepted
  have counted : Directive.numbers (directivesOf (expr.tokens ++ [eof])) = expr.numbers := by
    rw [numbers_directivesOf inside fits last]
    simp [numbers, last]
  have few : expr.numbers.length ≤ maxConstants := by
    rw [← counted, numbers_directivesOf inside fits last]
    exact room
  have legible := legible_directivesOf ended readings
  have cells : Directive.cells 0 (directivesOf (expr.tokens ++ [eof])) =
      expr.encoding 0 ++ [(Operation.return.byte, eof.line)] := by
    rw [directivesOf_tokens inside fits last, Directive.cells_append,
      inside.cells_directives (by simpa using few)]
    rfl
  have values : (Directive.values (directivesOf (expr.tokens ++ [eof]))).map some =
      expr.numbers.map Token.value? := by
    rw [← counted]
    exact Directive.map_some_values legible
  have size : (Directive.values (directivesOf (expr.tokens ++ [eof]))).length ≤ maxConstants := by
    rw [Directive.length_values legible, counted]
    exact few
  have grows := Assembly.foldl_perform_grows legible { chunk := .empty } (Nat.zero_min _).symm
  rw [cells, Nat.sub_zero, List.take_of_length_le size] at grows
  exact ⟨expr, eof, _, inside, last, rfl, few, values, grows⟩

/-- A source that compiles denotes exactly one expression, and its code is the encoding
of this expression and a return, which is on the last line. The constants are the
values of its numbers. -/
theorem compile_encoding (config : Config) (source : String)
    (compiles : (compile config source .empty).errors = []) :
    ∃ expr, Denotes (tokensOf source) expr ∧
      (∀ other, Denotes (tokensOf source) other → other = expr) ∧
      (compile config source .empty).chunk.code.toList =
        (expr.encoding 0).map Prod.fst ++ [Operation.return.byte] ∧
      (compile config source .empty).chunk.lines.toList =
        (expr.encoding 0).map Prod.snd ++ [1 + source.toList.count '\n'] ∧
      (compile config source .empty).chunk.constants.toList.map some =
        expr.numbers.map fun token => (Numeral.read? token.lexeme).map .number := by
  obtain ⟨expr, eof, values, inside, last, split, _, known, grows⟩ :=
    grows_of_accepted (ended_tokensOf source) (readings_tokensOf source) compiles
  have denotes : Denotes (tokensOf source) expr := ⟨inside, eof, last, split⟩
  have line : eof.line = 1 + source.toList.count '\n' := eof_line (by simp [split]) last
  obtain ⟨code, lines, constants⟩ := grows.fresh
  refine ⟨expr, denotes, fun other also => also.unique denotes, ?_, ?_, ?_⟩
  all_goals rw [compile_chunk]
  · rw [code, List.map_append]
    rfl
  · rw [lines, List.map_append, ← line]
    rfl
  · rw [constants, known]
    rfl

/-- The comparison is on the line of its right operand, the negation on that of the
closing parenthesis. -/
theorem compile_encoding_over_lines :
    (compile {} "!(nil\n== 1\n)" .empty).errors = [] ∧
      ∃ expr, Denotes (tokensOf "!(nil\n== 1\n)") expr ∧
        expr.encoding 0 = [(1, 1), (0, 2), (0, 2), (4, 2), (11, 3)] := by
  have compiles : (compile {} "!(nil\n== 1\n)" .empty).errors = [] := by decide +kernel
  have bytes : (compile {} "!(nil\n== 1\n)" .empty).chunk.code.toList =
      [1, 0, 0, 4, 11] ++ [Operation.return.byte] := by decide +kernel
  have places : (compile {} "!(nil\n== 1\n)" .empty).chunk.lines.toList =
      [1, 2, 2, 2, 3] ++ [1 + "!(nil\n== 1\n)".toList.count '\n'] := by decide +kernel
  obtain ⟨expr, denotes, _, code, lines, _⟩ := compile_encoding {} "!(nil\n== 1\n)" compiles
  refine ⟨compiles, expr, denotes, ?_⟩
  exact List.zip_of_prod (List.append_cancel_right (code.symm.trans bytes))
    (List.append_cancel_right (lines.symm.trans places))

end StackCalc
