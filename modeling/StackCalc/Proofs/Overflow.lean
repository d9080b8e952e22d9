import StackCalc.Proofs.Encoding
import StackCalc.Proofs.Growth

/-! More numbers than the pool has places for. The first that finds no place is reported, and
the rest of the expression is encoded all the same; the numbers without a place load the first
constant. -/

namespace StackCalc

namespace Expr

/-- The bytes in post-order, each with its line, if `number` constants come before and there
may be no place for all that follow. -/
def crowdedEncoding (number : Nat) : Expr → List (UInt8 × Nat)
  | .literal token =>
    (literalBytes (constantIndex number).toNat token.kind).map (·, token.line)
  | .group _ inner _ => inner.crowdedEncoding number
  | .unary operator operand =>
    operand.crowdedEncoding number ++ (unaryBytes operator.kind).map (·, operand.lastLine)
  | .binary left operator right =>
    left.crowdedEncoding number ++ right.crowdedEncoding (number + left.numbers.length) ++
      (binaryBytes operator.kind).map (·, right.lastLine)

private theorem In.cells_directives_crowded {layer : Layer} {expr : Expr} (inside : In layer expr)
    (number : Nat) : Directive.cells number expr.directives = expr.crowdedEncoding number := by
  induction inside generalizing number with
  | @literal token kind =>
    by_cases named : token.kind = .number
    · simp [directives, named, Directive.cells, crowdedEncoding, literalBytes]
    · simp [directives, named, cells_operations, crowdedEncoding, literalBytes_eq named]
  | group left right inside ih => exact ih number
  | unary kind inside ih =>
    simp [directives, Directive.cells_append, ih, cells_operations, crowdedEncoding,
      unaryBytes_eq]
  | binary joins first second ihFirst ihSecond =>
    simp [directives, Directive.cells_append, ihFirst, first.numbers_directives, ihSecond,
      cells_operations, crowdedEncoding, binaryBytes_eq]
  | looser inside ih => exact ih number

/-- While there are places for all, it is the encoding. -/
theorem In.crowdedEncoding_eq {layer : Layer} {expr : Expr} (inside : In layer expr)
    {number : Nat} (fits : number + expr.numbers.length ≤ maxConstants) :
    expr.crowdedEncoding number = expr.encoding number :=
  (inside.cells_directives_crowded number).symm.trans (inside.cells_directives fits)

end Expr

namespace Assembly

open Directive

/-- Every number before takes a place of the pool, so that the one reported is found by
counting. -/
theorem errors_foldl_of_crowded {directives : List Directive} (legible : Legible directives)
    (silent : ∀ error, .report error ∉ directives) {assembly : Assembly}
    (clean : assembly.errors = []) {token : Token}
    (beyond : (numbers directives)[maxConstants - assembly.chunk.constants.size]? = some token) :
    (directives.foldl perform assembly).errors =
      [.atToken token Objection.tooManyConstants.message] := by
  induction directives generalizing assembly with
  | nil => cases beyond
  | cons directive directives ih =>
    have others : ∀ error, .report error ∉ directives := fun error member =>
      silent error (.tail _ member)
    have size := size_perform assembly legible.head
    rw [List.foldl_cons]
    cases directive with
    | operation action line => exact ih legible.tail others clean beyond
    | report error => exact absurd List.mem_cons_self (silent error)
    | number other =>
      obtain ⟨value, known⟩ := Option.isSome_iff_exists.mp (legible other (by simp [numbers]))
      have own : numbers (.number other :: directives) = other :: numbers directives := rfl
      rw [own] at beyond
      rw [perform_number known] at size ⊢
      by_cases free : assembly.chunk.constants.size < maxConstants
      · have quiet : (assembly.constant value other).errors = [] := by
          rw [errors_constant_of_free value other free, clean]
        apply ih legible.tail others quiet
        have place : maxConstants - assembly.chunk.constants.size =
            maxConstants - (assembly.constant value other).chunk.constants.size + 1 := by
          have single : numbers [.number other] = [other] := rfl
          rw [single, List.length_singleton] at size
          omega
        rwa [place, List.getElem?_cons_succ] at beyond
      · have first : maxConstants - assembly.chunk.constants.size = 0 := by omega
        rw [first, List.getElem?_cons_zero, Option.some.injEq] at beyond
        have reported : (assembly.constant value other).errors =
            [.atToken token Objection.tooManyConstants.message] := by
          rw [errors_constant_of_full value other free, errors_report_of_nil clean, beyond]
        rw [errors_foldl_of_ne_nil (by rw [reported]; exact List.cons_ne_nil _ _), reported]

end Assembly

open StackCalc.Expr StackCalc.Parser

section Source

variable {source : String} {expr : Expr}

private theorem numbers_of_denotes (denotes : Denotes (tokensOf source) expr)
    (fits : expr.nesting ≤ maxNesting) :
    Directive.numbers (directivesOf (tokensOf source)) = expr.numbers := by
  have counted := denotes.filter_number
  obtain ⟨inside, eof, last, whole⟩ := denotes
  rw [whole] at counted ⊢
  rw [numbers_directivesOf inside fits last, counted]

private theorem errors_of_crowded (denotes : Denotes (tokensOf source) expr)
    (fits : expr.nesting ≤ maxNesting) (chunk : Chunk)
    (overflow : maxConstants < chunk.constants.size + expr.numbers.length) :
    ∃ token, expr.numbers[maxConstants - chunk.constants.size]? = some token ∧
      (Assembly.ofTokens (tokensOf source) chunk).errors =
        [⟨token.line, .at token.lexeme, Objection.tooManyConstants.message⟩] := by
  have legible := legible_tokensOf source
  have numbers := numbers_of_denotes denotes fits
  have silent : ∀ error, .report error ∉ directivesOf (tokensOf source) := by
    obtain ⟨inside, eof, last, whole⟩ := denotes
    rw [whole]
    exact silent_directivesOf inside fits last
  have bounded := chunk.constants_size
  obtain ⟨token, beyond⟩ : ∃ token,
      expr.numbers[maxConstants - chunk.constants.size]? = some token :=
    ⟨_, List.getElem?_eq_getElem (by omega)⟩
  have kind : token.kind = .number := by
    simpa using (List.mem_filter.mp (List.mem_of_getElem? beyond)).2
  refine ⟨token, beyond, ?_⟩
  rw [← numbers] at beyond
  have found : (Assembly.ofTokens (tokensOf source) chunk).errors = _ :=
    Assembly.errors_foldl_of_crowded legible silent rfl beyond
  rw [found, CompileError.atToken, Location.ofToken, kind]

private theorem grows_of_crowded (denotes : Denotes (tokensOf source) expr)
    (fits : expr.nesting ≤ maxNesting) (config : Config) (chunk : Chunk) :
    ∃ values, values.map some =
        (expr.numbers.take (maxConstants - chunk.constants.size)).map Token.value? ∧
      Chunk.Grows chunk (expr.crowdedEncoding chunk.constants.size ++
        [(Operation.return.byte, 1 + source.toList.count '\n')]) values
        (compile config source chunk).chunk := by
  have legible := legible_tokensOf source
  have grows := Chunk.grows_compile config source chunk
  have values := Directive.map_some_values legible
  rw [numbers_of_denotes denotes fits] at values
  obtain ⟨inside, eof, last, whole⟩ := denotes
  have line : eof.line = 1 + source.toList.count '\n' := eof_line (by simp [whole]) last
  have cells : Directive.cells chunk.constants.size (directivesOf (tokensOf source)) =
      expr.crowdedEncoding chunk.constants.size ++ [(Operation.return.byte, eof.line)] := by
    rw [whole, directivesOf_tokens inside fits last, Directive.cells_append,
      inside.cells_directives_crowded]
    rfl
  simp only [cells, line] at grows
  exact ⟨_, by rw [List.map_take, values, List.map_take], grows⟩

end Source

/-- If a source is rejected only for its numbers, of which there are more than the pool has
places left, then at the first that finds no place. The others before it fill the pool, and
the code is that of the whole expression and a return. -/
theorem pool_overflow_at_first_number_without_place (config : Config) (source : String)
    (chunk : Chunk) (expr : Expr) (denotes : Denotes (tokensOf source) expr)
    (fits : expr.nesting ≤ 1024)
    (overflow : 256 < chunk.constants.size + expr.numbers.length) :
    let compiled := compile config source chunk
    let free := 256 - chunk.constants.size
    (∃ token, expr.numbers[free]? = some token ∧
      compiled.errors = [⟨token.line, .at token.lexeme, "Too many constants in one chunk."⟩]) ∧
    compiled.chunk.constants.size = 256 ∧
    (∃ values, compiled.chunk.constants.toList = chunk.constants.toList ++ values ∧
      values.map some = (expr.numbers.take free).map fun token =>
        (Numeral.read? token.lexeme).map .number) ∧
    compiled.chunk.code.toList = chunk.code.toList ++
      ((expr.crowdedEncoding chunk.constants.size).map Prod.fst ++ [Operation.return.byte]) ∧
    compiled.chunk.lines.toList = chunk.lines.toList ++
      ((expr.crowdedEncoding chunk.constants.size).map Prod.snd ++
        [1 + source.toList.count '\n']) := by
  intro compiled free
  obtain ⟨values, known, grows⟩ := grows_of_crowded denotes fits config chunk
  have bounded : chunk.constants.size ≤ 256 := chunk.constants_size
  have filled : values.length = free := by
    have lengths := congrArg List.length known
    simp only [List.length_map, List.length_take] at lengths
    exact lengths.trans (Nat.min_eq_left (show free ≤ _ by omega))
  refine ⟨errors_of_crowded denotes fits chunk overflow, ?_, ⟨values, grows.constants, known⟩,
    ?_, ?_⟩
  · rw [grows.size, filled]
    omega
  · rw [grows.code, List.map_append]
    rfl
  · rw [grows.lines, List.map_append]
    rfl

/-- With one place left it is the second number that finds none, on the second line, and the
third loads the first constant as well. -/
theorem pool_overflow_at_second_number :
    let chunk := (List.replicate 255 (.addConstant .nil)).foldl Chunk.edit .empty
    let compiled := compile {} "1\n+ (2 * 3)" chunk
    compiled.errors = [⟨2, .at "2", "Too many constants in one chunk."⟩] ∧
      compiled.chunk.constants.size = 256 ∧
      compiled.chunk.code.toList = [0, 255, 0, 0, 0, 0, 9, 7, 13] := by
  intro chunk compiled
  let number (text : String) (line : Nat) : Expr := .literal ⟨.number, text, line⟩
  let product : Expr := .binary (number "2" 2) ⟨.star, "*", 2⟩ (number "3" 2)
  let group : Expr := .group ⟨.leftParen, "(", 2⟩ product ⟨.rightParen, ")", 2⟩
  let expr : Expr := .binary (number "1" 1) ⟨.plus, "+", 2⟩ group
  have primary (text : String) (line : Nat) : In .primary (number text line) :=
    .literal (by simp)
  have factor (text : String) (line : Nat) : In .factor (number text line) :=
    (primary text line).loosen .factor (by decide)
  have within : In .factor product := .binary rfl (factor "2" 2) (.looser (primary "3" 2))
  have grouped : In .primary group := .group rfl rfl within.equality
  have inside : In .term expr :=
    .binary rfl (.looser (factor "1" 1)) (grouped.loosen .factor (by decide))
  have denotes : Denotes (tokensOf "1\n+ (2 * 3)") expr :=
    ⟨inside.equality, ⟨.eof, "", 2⟩, rfl, by decide +kernel⟩
  have size : chunk.constants.size = 255 := by decide +kernel
  have none : chunk.code.toList = [] := by decide +kernel
  have overflow : 256 < chunk.constants.size + expr.numbers.length := by
    rw [size]
    decide
  obtain ⟨⟨token, beyond, one⟩, full, _, code, _⟩ :=
    pool_overflow_at_first_number_without_place {} "1\n+ (2 * 3)" chunk expr denotes
      (by decide) overflow
  rw [size] at beyond code
  cases beyond
  exact ⟨one, full, by rw [code, none]; rfl⟩

end StackCalc
