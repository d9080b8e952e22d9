import StackCalc.Proofs.Impasse
import StackCalc.Proofs.Reading

/-! The parser reports an impasse as such. What it asked for before is code, with a
number for each number token it has passed, and whatever it does afterwards comes
behind the report. -/

namespace StackCalc

open StackCalc.Expr StackCalc.Parser

theorem Impasse.clean {room : Nat} {level : Precedence} {before : List Token} {token : Token}
    {objection : Objection} (impasse : Impasse room level before token objection) :
    ∀ other ∈ before, other.kind ≠ .error := by
  induction impasse with
  | depth => simp
  | start => simp
  | group left inner ih => simpa [left] using ih
  | closing left inside => simpa [left] using inside.clean
  | unary kind operand ih =>
    simp only [List.forall_mem_cons]
    refine ⟨?_, ih⟩
    intro error
    exact TokenKind.inner_of_atStart (TokenKind.atStart_of_unary kind) (by simp [error])
  | binary joins binds first fits second ih =>
    simp only [List.forall_mem_append, List.forall_mem_cons]
    refine ⟨first.clean, fun error => ?_, ih⟩
    exact TokenKind.inner_of_ofOperator? joins (by simp [error])

/-- The reports that come first although their tokens come later: a token is consumed
before it is found unfit to start an expression. -/
def overtaking (objection : Objection) (after : List Token) : List Directive :=
  if objection = .expectExpression then
    (after.takeWhile (·.kind = .error)).map Directive.lexical
  else []

/-- Between two states of the parser there is code and then a report. -/
def Objects (start : Parser) (before : List Token) (token : Token) (objection : Objection)
    (after : List Token) (done : Parser) : Prop :=
  ∃ codes, (∀ error, .report error ∉ codes) ∧
    Directive.numbers codes = before.filter (·.kind = .number) ∧
    start.directives.toList ++ codes ++ overtaking objection after ++
      [.report (.atToken token objection.message)] <+: done.directives.toList

theorem Objects.later {start middle done : Parser} {before after : List Token} {token : Token}
    {objection : Objection} (objects : Objects start before token objection after middle)
    (steps : Steps middle done) : Objects start before token objection after done := by
  obtain ⟨codes, silent, numbers, reported⟩ := objects
  exact ⟨codes, silent, numbers, reported.trans steps.directives_kept⟩

theorem Objects.mem {start done : Parser} {before after : List Token} {token : Token}
    {objection : Objection} (objects : Objects start before token objection after done) :
    .report (.atToken token objection.message) ∈ done.directives := by
  obtain ⟨codes, _, _, reported⟩ := objects
  exact Array.mem_toList_iff.mp
    (reported.subset (List.mem_append_right _ (List.mem_singleton.mpr rfl)))

theorem Objects.earlier {middle done : Parser} {before after : List Token} {token : Token}
    {objection : Objection} (objects : Objects middle before token objection after done)
    (start : Parser) (front : List Token) (codes : List Directive)
    (directives : middle.directives.toList = start.directives.toList ++ codes)
    (silent : ∀ error, .report error ∉ codes)
    (numbers : Directive.numbers codes = front.filter (·.kind = .number)) :
    Objects start (front ++ before) token objection after done := by
  obtain ⟨more, others, counted, reported⟩ := objects
  refine ⟨codes ++ more, ?_, ?_, ?_⟩
  · intro error member
    exact (List.mem_append.mp member).elim (silent error) (others error)
  · rw [Directive.numbers_append, numbers, counted, List.filter_append]
  · simpa [directives] using reported

/-- An objection by the parselet of the first token is one by the whole expression. -/
theorem Objects.atStart {parser : Parser} {before after : List Token} {token : Token}
    {objection : Objection} {room : Nat} {parselet : Parselet}
    (objects : Objects parser.advance before token objection after
      (apply (expression room) parser.advance parselet))
    (starts : parser.current.kind.rule.atStart = some parselet)
    (same : parser.advance.directives = parser.directives)
    (other : parser.current.kind ≠ .number) (level : Precedence) :
    Objects parser (parser.current :: before) token objection after
      (expression (room + 1) level parser) := by
  rw [expression_succ starts]
  have climbed := objects.later (climb_steps (expression_steps room) level
    (apply (expression room) parser.advance parselet).rest _)
  apply climbed.earlier parser [parser.current] []
  · simp [same]
  · simp
  · simp [Directive.numbers, other]

/-- An objection in the right operand is one by the operator. -/
theorem Objects.operand {reader : Parser} {before after : List Token} {token : Token}
    {objection : Objection} {room : Nat} {layer : Layer}
    (objects : Objects reader.advance before token objection after
      (expression room layer.precedence.next reader.advance))
    (joins : Layer.ofOperator? reader.current.kind = some layer) :
    Objects reader.advance before token objection after
      (apply (expression room) reader.advance .binary) := by
  have level : reader.advance.previous.kind.rule.precedence.next = layer.precedence.next := by
    rw [previous_advance, Layer.precedence_of_ofOperator? joins]
  rw [← level] at objects
  exact objects.later (emit_steps _ (TokenKind.return_not_mem_binaryOperations _))

theorem Impasse.reports {room : Nat} {level : Precedence} {before : List Token} {token : Token}
    {objection : Objection} (impasse : Impasse room level before token objection)
    (clean : token.kind ≠ .error) (parser : Parser) (after : List Token)
    (upcoming : parser.upcoming = before ++ token :: after) :
    Objects parser before token objection after (expression room level parser) := by
  induction impasse generalizing parser with
  | depth =>
    obtain ⟨current, _⟩ := List.cons.inj upcoming
    refine ⟨[], by simp, rfl, ?_⟩
    simp [expression, reportAtCurrent, direct, overtaking, current]
  | @start room level token unfit =>
    obtain ⟨current, rest⟩ := List.cons.inj upcoming
    refine ⟨[], by simp, rfl, ?_⟩
    simp [expression, current, unfit, reportAtPrevious, direct, overtaking, directives_advance, rest]
  | @group room level opening before token objection left inner ih =>
    obtain ⟨rfl, rest⟩ := List.cons.inj upcoming
    obtain ⟨advanced, same⟩ := advance_upcoming rest inner.clean clean
    have objects : Objects parser.advance before token objection after
        (apply (expression room) parser.advance .grouping) :=
      (ih clean parser.advance advanced).later (expect_steps _ .rightParen (by decide))
    exact objects.atStart (TokenKind.atStart_grouping_iff.mpr left) same (by simp [left]) level
  | @closing room level opening inner token left inside fits stops other =>
    obtain ⟨rfl, rest⟩ := List.cons.inj upcoming
    obtain ⟨advanced, same⟩ := advance_upcoming rest inside.clean clean
    have read : expression room .assignment parser.advance = parser.advance.past inner token after :=
      inside.reached.read _ (by decide) stops clean fits advanced
    have objects : Objects parser.advance inner.tokens token .expectRightParen after
        (apply (expression room) parser.advance .grouping) := by
      refine ⟨inner.directives, report_not_mem_directives inner, inside.numbers_directives, ?_⟩
      simp [apply, read, expect, past, other, reportAtCurrent, direct, overtaking]
    exact objects.atStart (TokenKind.atStart_grouping_iff.mpr left) same (by simp [left]) level
  | @unary room level operator before token objection kind operand ih =>
    obtain ⟨rfl, rest⟩ := List.cons.inj upcoming
    obtain ⟨advanced, same⟩ := advance_upcoming rest operand.clean clean
    have objects : Objects parser.advance before token objection after
        (apply (expression room) parser.advance .unary) :=
      (ih clean parser.advance advanced).later
        (emit_steps _ (TokenKind.return_not_mem_unaryOperations _))
    exact objects.atStart (TokenKind.atStart_unary_iff.mpr kind) same
      (TokenKind.ne_number_of_unary kind) level
  | @binary room level layer left operator before token objection joins binds first fits second ih =>
    -- The left operand is read first, and the climb behind it takes the operator.
    have looser : operator.kind.rule.precedence ≤ layer.precedence :=
      Nat.le_of_eq (by rw [Layer.precedence_of_ofOperator? joins])
    have operatorClean : operator.kind ≠ .error := by
      intro error
      exact TokenKind.inner_of_ofOperator? joins (by simp [error])
    obtain ⟨bound, enough, behind⟩ := first.reached room level parser operator
      (before ++ token :: after) binds looser operatorClean fits (by simpa using upcoming)
    let reader := parser.past left operator (before ++ token :: after)
    obtain ⟨advanced, same⟩ := advance_upcoming (show reader.rest = before ++ token :: after from rfl)
      second.clean clean
    have objects := (ih clean reader.advance advanced).operand joins
    cases bound with
    | nil => simp at enough
    | cons spare bound =>
      rw [behind, climb_operator joins binds]
      have whole := (objects.later (climb_steps (expression_steps room) level bound _)).earlier
        parser (left.tokens ++ [operator]) left.directives (by rw [same]; simp [reader, past])
        (report_not_mem_directives left)
        (by simp [first.numbers_directives, numbers, TokenKind.ne_number_of_ofOperator? joins])
      simpa using whole

end StackCalc
