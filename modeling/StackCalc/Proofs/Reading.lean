import StackCalc.Proofs.Assembling
import StackCalc.Proofs.ParserSteps

/-! The parser reads what the grammar describes. An expression that is followed by
something looser is read to its last token, and its directives are given in order. -/

namespace StackCalc

namespace Parser

def upcoming (parser : Parser) : List Token := parser.current :: parser.rest

theorem emit_eq (parser : Parser) (operations : List Operation) :
    parser.emit operations = { parser with
      directives := parser.directives ++
        (operations.map (Directive.operation · parser.previous.line)).toArray } := by
  induction operations generalizing parser with
  | nil => simp [emit]
  | cons operation operations ih =>
    rw [emit_cons, ih]
    simp [direct]

private theorem previous_pull (parser : Parser) (tokens : List Token) :
    (parser.pull tokens).previous = parser.previous := by
  induction tokens generalizing parser with
  | nil => rfl
  | cons token rest ih =>
    unfold pull
    split
    · exact ih _
    · rfl

@[simp] theorem previous_advance (parser : Parser) :
    parser.advance.previous = parser.current := previous_pull _ _

private theorem advance_eq {parser : Parser} {next : Token} {after : List Token}
    (upcoming : parser.rest = next :: after) (clean : next.kind ≠ .error) :
    parser.advance = ⟨parser.current, next, after, parser.directives⟩ := by
  simp [advance, upcoming, pull, clean]

theorem advance_upcoming {parser : Parser} {front after : List Token} {token : Token}
    (rest : parser.rest = front ++ token :: after) (others : ∀ other ∈ front, other.kind ≠ .error)
    (clean : token.kind ≠ .error) :
    parser.advance.upcoming = front ++ token :: after ∧
      parser.advance.directives = parser.directives := by
  cases front with
  | nil => simp [advance_eq rest clean, upcoming]
  | cons first front =>
    have start := others first List.mem_cons_self
    simp [advance_eq (by simpa using rest) start, upcoming]

variable {operand : Precedence → Parser → Parser} {level : Precedence} {parser : Parser}

theorem climb_stop {bound : List Token}
    (stops : ¬ level ≤ parser.current.kind.rule.precedence) :
    climb operand level bound parser = parser := by
  cases bound with
  | nil => rfl
  | cons token bound => simp only [climb, stops, if_false]

theorem climb_operator {bound : List Token} {token : Token} {layer : Layer}
    (joins : Layer.ofOperator? parser.current.kind = some layer)
    (binds : level ≤ layer.precedence) :
    climb operand level (token :: bound) parser =
      climb operand level bound (apply operand parser.advance .binary) := by
  have binds : level ≤ parser.current.kind.rule.precedence := by
    rwa [Layer.precedence_of_ofOperator? joins]
  simp only [climb, binds, if_true, previous_advance, TokenKind.rule_of_ofOperator? joins]

/-- The parser behind an expression, with `next` and `after` still to come. -/
def past (parser : Parser) (expr : Expr) (next : Token) (after : List Token) : Parser :=
  ⟨expr.last, next, after, parser.directives ++ expr.directives.toArray⟩

end Parser

namespace Expr

open StackCalc.Parser

/-- Reading comes to the point behind the expression, where it may still take
operators that are no tighter than the layer. -/
def Reached (layer : Layer) (expr : Expr) : Prop :=
  ∀ room level parser next after, level ≤ layer.precedence →
    next.kind.rule.precedence ≤ layer.precedence → next.kind ≠ .error →
    expr.nesting ≤ room + 1 → parser.upcoming = expr.tokens ++ next :: after →
    ∃ bound : List Token, after.length ≤ bound.length ∧
      expression (room + 1) level parser =
        climb (expression room) level bound (parser.past expr next after)

theorem nesting_pos (expr : Expr) : 0 < expr.nesting := by
  cases expr <;> simp only [nesting] <;> omega

theorem Reached.read {layer : Layer} {expr : Expr} (reached : Reached layer expr)
    {room : Nat} {level : Precedence} (parser : Parser) {next : Token} {after : List Token}
    (reads : level ≤ layer.precedence) (stops : ¬ level ≤ next.kind.rule.precedence)
    (clean : next.kind ≠ .error) (fits : expr.nesting ≤ room)
    (upcoming : parser.upcoming = expr.tokens ++ next :: after) :
    expression room level parser = parser.past expr next after := by
  have positive := expr.nesting_pos
  obtain ⟨room, rfl⟩ := Nat.exists_eq_succ_of_ne_zero (show room ≠ 0 by omega)
  have looser : next.kind.rule.precedence ≤ layer.precedence :=
    Nat.le_trans (Nat.le_of_not_le stops) reads
  obtain ⟨bound, _, behind⟩ := reached room level parser next after reads looser clean fits upcoming
  rw [behind, climb_stop stops]

theorem expression_succ {room : Nat} {level : Precedence} {parser : Parser}
    {parselet : Parselet} (starts : parser.current.kind.rule.atStart = some parselet) :
    expression (room + 1) level parser =
      climb (expression room) level (apply (expression room) parser.advance parselet).rest
        (apply (expression room) parser.advance parselet) := by
  simp only [expression, previous_advance, starts]

private theorem reached_literal {token : Token}
    (kind : token.kind ∈ [.number, .kwTrue, .kwFalse, .kwNil]) :
    Reached .primary (.literal token) := by
  intro room level parser next after reads looser clean fits upcoming
  obtain ⟨current, rest⟩ := List.cons.inj upcoming
  refine ⟨after, Nat.le_refl _, ?_⟩
  have advanced := advance_eq rest clean
  by_cases number : token.kind = .number
  · rw [expression_succ (current ▸ TokenKind.atStart_number_iff.mpr number)]
    simp [advanced, apply, direct, past, directives, last, number, current]
  · have literal : token.kind.rule.atStart = some .literal := by
      rw [TokenKind.atStart_literal_iff]
      simpa [number] using kind
    rw [expression_succ (current ▸ literal)]
    simp [advanced, apply, emit_eq, past, directives, last, number, current]

private theorem Reached.group {layer : Layer} {opening closing : Token} {inner : Expr}
    (reached : Reached layer inner) (begins : ∃ first more, inner.tokens = first :: more ∧
      first.kind ≠ .error)
    (left : opening.kind = .leftParen) (right : closing.kind = .rightParen) :
    Reached .primary (.group opening inner closing) := by
  intro room level parser next after reads looser clean fits upcoming
  obtain ⟨first, more, tokens, start⟩ := begins
  simp only [Parser.upcoming, Expr.tokens, tokens, List.cons_append, List.append_assoc,
    List.nil_append, List.cons.injEq] at upcoming
  obtain ⟨rfl, rest⟩ := upcoming
  have advanced := advance_eq rest start
  have read : expression room .assignment parser.advance =
      parser.advance.past inner closing (next :: after) :=
    reached.read _ (Layer.assignment_le_precedence layer) (by rw [right]; decide)
      (by simp [right]) (by simp only [nesting] at fits; omega)
      (by rw [advanced]; simp [Parser.upcoming, tokens])
  rw [advanced] at read
  refine ⟨after, Nat.le_refl _, ?_⟩
  rw [expression_succ (TokenKind.atStart_grouping_iff.mpr left)]
  simp only [apply, advanced, read, expect, past, right, if_true]
  rw [advance_eq rfl clean]
  rfl

private theorem Reached.unary {layer : Layer} {operator : Token} {operand : Expr}
    (reached : Reached layer operand) (tight : .unary ≤ layer.precedence)
    (begins : ∃ first more, operand.tokens = first :: more ∧ first.kind ≠ .error)
    (kind : operator.kind = .minus ∨ operator.kind = .bang) :
    Reached .unary (.unary operator operand) := by
  intro room level parser next after reads looser clean fits upcoming
  obtain ⟨first, more, tokens, start⟩ := begins
  simp only [Parser.upcoming, Expr.tokens, tokens, List.cons_append, List.cons.injEq] at upcoming
  obtain ⟨rfl, rest⟩ := upcoming
  have advanced := advance_eq rest start
  have read : expression room .unary parser.advance = parser.advance.past operand next after :=
    reached.read _ tight (TokenKind.not_unary_le _) clean
      (by simp only [nesting] at fits; omega)
      (by rw [advanced]; simp [Parser.upcoming, tokens])
  rw [advanced] at read
  refine ⟨after, Nat.le_refl _, ?_⟩
  rw [expression_succ (TokenKind.atStart_unary_iff.mpr kind)]
  simp [apply, advanced, read, emit_eq, past, directives, last, lastLine]

/-- The climb that is under way takes one more operator with its operand. -/
theorem Reached.binary {layer tighter : Layer} {left right : Expr} {operator : Token}
    (first : Reached layer left) (second : Reached tighter right)
    (joins : Layer.ofOperator? operator.kind = some layer)
    (tight : layer.precedence.next ≤ tighter.precedence)
    (begins : ∃ first more, right.tokens = first :: more ∧ first.kind ≠ .error) :
    Reached layer (.binary left operator right) := by
  intro room level parser next after reads looser clean fits upcoming
  obtain ⟨start, more, tokens, startClean⟩ := begins
  have binding := Layer.precedence_of_ofOperator? joins
  have operatorClean : operator.kind ≠ .error := by
    intro error
    rw [error] at joins
    cases joins
  simp only [nesting] at fits
  obtain ⟨bound, enough, behind⟩ := first room level parser operator
    (right.tokens ++ next :: after) reads (Nat.le_of_eq (by rw [binding])) operatorClean
    (by omega) (by simpa [Expr.tokens] using upcoming)
  let reader := parser.past left operator (right.tokens ++ next :: after)
  have advanced : reader.advance =
      ⟨operator, start, more ++ next :: after, parser.directives ++ left.directives.toArray⟩ :=
    advance_eq (by simp only [reader, past, tokens, List.cons_append]) startClean
  have read : expression room layer.precedence.next reader.advance =
      reader.advance.past right next after :=
    second.read _ tight
      ((Layer.not_next_le_iff (Layer.rank_of_ofOperator? joins)).mpr looser) clean (by omega)
      (by rw [advanced]; simp [Parser.upcoming, tokens])
  rw [advanced] at read
  cases bound with
  | nil => simp [tokens] at enough
  | cons token bound =>
    refine ⟨bound, by simp at enough; omega, ?_⟩
    rw [behind, climb_operator joins reads]
    change climb _ _ _ (apply _ reader.advance .binary) = _
    simp only [apply, advanced, binding, read, emit_eq, past]
    simp [directives, last, lastLine]

private theorem In.begins {layer : Layer} {expr : Expr} (inside : In layer expr) :
    ∃ first more, expr.tokens = first :: more ∧ first.kind ≠ .error := by
  obtain ⟨first, more, tokens, starts⟩ := inside.tokens_eq_cons
  refine ⟨first, more, tokens, ?_⟩
  intro error
  rw [error] at starts
  exact starts rfl

theorem In.reached {layer : Layer} {expr : Expr} (inside : In layer expr) :
    Reached layer expr := by
  induction inside with
  | literal kind => exact reached_literal kind
  | group left right inside ih => exact ih.group inside.begins left right
  | unary kind inside ih => exact ih.unary (by decide) inside.begins kind
  | binary joins first second ihFirst ihSecond =>
    exact ihFirst.binary ihSecond joins
      (Layer.next_precedence_le (Layer.rank_of_ofOperator? joins)) second.begins
  | @looser layer expr inside ih =>
    intro room level parser next after reads looser
    have below := layer.precedence_le_tighter
    exact ih room level parser next after (Nat.le_trans reads below) (Nat.le_trans looser below)

private theorem numbers_operations (operations : List Operation) (line : Nat) :
    Directive.numbers (operations.map (.operation · line)) = [] := by
  induction operations with
  | nil => rfl
  | cons operation operations ih => exact ih

theorem In.numbers_directives {layer : Layer} {expr : Expr} (inside : In layer expr) :
    Directive.numbers expr.directives = expr.numbers := by
  induction inside with
  | @literal token kind =>
    by_cases number : token.kind = .number
    · simp [directives, numbers, tokens, number, Directive.numbers]
    · simp [directives, numbers, tokens, number, numbers_operations]
  | group left right inside ih => rwa [numbers_group left right]
  | unary kind inside ih =>
    rw [numbers_unary kind, directives, Directive.numbers_append, ih, numbers_operations,
      List.append_nil]
  | binary joins first second ihFirst ihSecond =>
    rw [numbers_binary joins, directives, Directive.numbers_append, Directive.numbers_append,
      ihFirst, ihSecond, numbers_operations, List.append_nil]
  | looser inside ih => exact ih

theorem report_not_mem_directives (expr : Expr) (error : CompileError) :
    .report error ∉ expr.directives := by
  induction expr with
  | literal token =>
    simp only [directives]
    split <;> simp
  | group opening inner closing ih => exact ih
  | unary operator operand ih => simp [directives, ih]
  | binary left operator right ihLeft ihRight => simp [directives, ihLeft, ihRight]

end Expr

end StackCalc
