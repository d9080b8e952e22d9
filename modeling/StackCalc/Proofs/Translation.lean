import StackCalc.Proofs.Reading

/-! Two parsers in step. A change of the parser that goes together with each single action
goes together with reading as a whole, so that the two readings never come apart. The one
thing the parser measures, the tokens that are left, may get less by the change: rounds
that are not needed make no difference. -/

namespace StackCalc

open Relation

theorem Ended.of_suffix {front rest : List Token} {token : Token}
    (ended : Ended (front ++ token :: rest)) : Ended (token :: rest) := by
  obtain ⟨body, eof, split, kind, inner⟩ := ended
  rcases List.eq_nil_or_concat (token :: rest) with empty | ⟨middle, last, whole⟩
  · cases empty
  · rw [whole, List.concat_eq_append, ← List.append_assoc] at split
    obtain ⟨rfl, same⟩ := List.append_inj' split rfl
    obtain ⟨rfl, _⟩ := List.cons.inj same
    refine ⟨middle, last, by rw [whole, List.concat_eq_append], kind, ?_⟩
    intro other member
    exact inner other (List.mem_append_right _ member)

theorem Ended.eq_nil_of_errors {token : Token} {rest : List Token} (ended : Ended (token :: rest))
    (errors : ∀ error ∈ rest, error.kind = .error) : rest = [] := by
  obtain ⟨body, eof, split, kind, _⟩ := ended
  rcases List.eq_nil_or_concat rest with empty | ⟨front, last, whole⟩
  · exact empty
  · have error := errors last (by simp [whole])
    rw [whole, List.concat_eq_append, ← List.cons_append] at split
    obtain ⟨_, same⟩ := List.append_inj' split rfl
    obtain ⟨rfl, _⟩ := List.cons.inj same
    rw [kind] at error
    cases error

theorem Precedence.assignment_le_next (level : Precedence) : .assignment ≤ level.next := by
  cases level <;> decide

namespace Parser

/-- The tokens to come end with `eof`, and neither token in view is an error. -/
structure Ready (parser : Parser) : Prop where
  ended : Ended parser.upcoming
  current : parser.current.kind ≠ .error
  previous : parser.previous.kind ≠ .error

variable {parser : Parser}

theorem Ready.direct (ready : parser.Ready) (directive : Directive) :
    (parser.direct directive).Ready :=
  ⟨ready.ended, ready.current, ready.previous⟩

theorem Ready.rest_eq_nil_iff (ready : parser.Ready) :
    parser.rest = [] ↔ parser.current.kind = .eof := by
  constructor
  · intro empty
    obtain ⟨body, eof, split, kind, _⟩ := ready.ended
    rw [upcoming, empty] at split
    have single := congrArg List.getLast? split
    simp at single
    rwa [single]
  · intro last
    exact ready.ended.rest_eq_nil (show parser.upcoming = [parser.current] ++ parser.rest from rfl)
      (List.mem_singleton.mpr rfl) last

/-- Either `eof` is in view and stays, or the tokens that are left get fewer. -/
theorem Ready.advance_cases (ready : parser.Ready) :
    (parser.rest = [] ∧ parser.advance = { parser with previous := parser.current }) ∨
      ∃ skipped token rest, parser.rest = skipped ++ token :: rest ∧
        (∀ error ∈ skipped, error.kind = .error) ∧ token.kind ≠ .error ∧
        parser.advance = ⟨parser.current, token, rest,
          parser.directives ++ (skipped.map Directive.lexical).toArray⟩ := by
  rcases pull_cases { parser with previous := parser.current } parser.rest with
    ⟨skipped, token, rest, split, errors, clean, result⟩ | ⟨errors, result⟩
  · exact .inr ⟨skipped, token, rest, split, errors, clean, result⟩
  · have empty := ready.ended.eq_nil_of_errors errors
    refine .inl ⟨empty, ?_⟩
    simp [advance, empty, pull]

theorem Ready.advance (ready : parser.Ready) : parser.advance.Ready := by
  rcases ready.advance_cases with
    ⟨empty, result⟩ | ⟨skipped, token, rest, split, errors, clean, result⟩
  · rw [result]
    exact ⟨ready.ended, ready.current, ready.current⟩
  · have ended := ready.ended
    rw [upcoming, split, ← List.cons_append] at ended
    rw [result]
    exact ⟨ended.of_suffix, clean, ready.current⟩

private theorem Ready.length_rest_advance (ready : parser.Ready) (more : parser.rest ≠ []) :
    parser.advance.rest.length < parser.rest.length := by
  rcases ready.advance_cases with
    ⟨empty, result⟩ | ⟨skipped, token, rest, split, errors, clean, result⟩
  · exact absurd empty more
  · rw [result, split, List.length_append, List.length_cons]
    dsimp only
    omega

private theorem Ready.step {before after : Parser} (ready : before.Ready)
    (step : Step before after) : after.Ready ∧ after.rest.length ≤ before.rest.length := by
  cases step with
  | advance =>
    refine ⟨ready.advance, ?_⟩
    by_cases empty : before.rest = []
    · simp [Parser.advance, empty, pull]
    · exact Nat.le_of_lt (ready.length_rest_advance empty)
  | operation => exact ⟨ready.direct _, Nat.le_refl _⟩
  | number => exact ⟨ready.direct _, Nat.le_refl _⟩
  | unfit => exact ⟨ready.direct _, Nat.le_refl _⟩
  | blocked => exact ⟨ready.direct _, Nat.le_refl _⟩

theorem Ready.steps {before after : Parser} (ready : before.Ready) (steps : Steps before after) :
    after.Ready ∧ after.rest.length ≤ before.rest.length := by
  induction steps with
  | refl => exact ⟨ready, Nat.le_refl _⟩
  | tail _ step ih =>
    obtain ⟨kept, shorter⟩ := ih.1.step step
    exact ⟨kept, Nat.le_trans shorter ih.2⟩

theorem Ready.ofTokens {tokens : List Token} (ended : Ended tokens) :
    (ofTokens tokens).advance.Ready := by
  rcases pull_cases { Parser.ofTokens tokens with previous := (Parser.ofTokens tokens).current }
      tokens with ⟨skipped, token, rest, split, errors, clean, result⟩ | ⟨errors, result⟩
  · have advanced : (Parser.ofTokens tokens).advance = _ := result
    rw [advanced]
    rw [split] at ended
    exact ⟨ended.of_suffix, clean, by simp [Parser.ofTokens]⟩
  · obtain ⟨body, eof, rfl, kind, _⟩ := ended
    have error := errors eof (by simp)
    rw [kind] at error
    cases error

section Operator

variable {layer : Layer} (joins : Layer.ofOperator? parser.current.kind = some layer)

include joins

private theorem Ready.rest_ne_nil (ready : parser.Ready) : parser.rest ≠ [] := by
  intro empty
  rw [ready.rest_eq_nil_iff.mp empty] at joins
  cases joins

/-- An operator is used up, whatever is read behind it. -/
theorem Ready.steps_operator (ready : parser.Ready) {after : Parser}
    (steps : Steps parser.advance after) :
    after.Ready ∧ after.rest.length < parser.rest.length := by
  have fewer := ready.length_rest_advance (ready.rest_ne_nil joins)
  obtain ⟨kept, shorter⟩ := ready.advance.steps steps
  exact ⟨kept, Nat.lt_of_le_of_lt shorter fewer⟩

end Operator

section Bound

variable {operand : Precedence → Parser → Parser}
  (operands : ∀ level parser, Steps parser (operand level parser))

include operands

theorem binary_steps (parser : Parser) : Steps parser (apply operand parser .binary) :=
  apply_steps operands parser nofun

/-- The rounds are bounded by the tokens that are left, and any larger bound does as well. -/
theorem climb_bound {level : Precedence} (tight : .assignment ≤ level) {first second : List Token}
    {parser : Parser} (ready : parser.Ready) (enough : parser.rest.length ≤ first.length)
    (also : parser.rest.length ≤ second.length) :
    climb operand level first parser = climb operand level second parser := by
  induction first generalizing second parser with
  | nil =>
    have empty := List.length_eq_zero_iff.mp (Nat.le_zero.mp enough)
    have stops : ¬ level ≤ parser.current.kind.rule.precedence := by
      intro binds
      obtain ⟨layer, joins⟩ := TokenKind.ofOperator?_of_le tight binds
      exact ready.rest_ne_nil joins empty
    rw [climb_stop stops, climb_stop stops]
  | cons token first ih =>
    by_cases binds : level ≤ parser.current.kind.rule.precedence
    · obtain ⟨layer, joins⟩ := TokenKind.ofOperator?_of_le tight binds
      obtain ⟨kept, fewer⟩ := ready.steps_operator joins (binary_steps operands parser.advance)
      cases second with
      | nil =>
        have empty := List.length_eq_zero_iff.mp (Nat.le_zero.mp also)
        exact absurd empty (ready.rest_ne_nil joins)
      | cons other second =>
        have reads : level ≤ layer.precedence := by
          rwa [← Layer.precedence_of_ofOperator? joins]
        simp only [List.length_cons] at enough also
        rw [climb_operator joins reads, climb_operator joins reads]
        exact ih kept (by omega) (by omega)
    · rw [climb_stop binds, climb_stop binds]

/-- Behind an operator and its operand, the tokens that are left bound the rounds again. -/
theorem climb_rest {level : Precedence} (tight : .assignment ≤ level) {parser : Parser}
    (ready : parser.Ready) {layer : Layer}
    (joins : Layer.ofOperator? parser.current.kind = some layer)
    (reads : level ≤ layer.precedence) :
    climb operand level parser.rest parser =
      climb operand level (apply operand parser.advance .binary).rest
        (apply operand parser.advance .binary) := by
  obtain ⟨kept, fewer⟩ := ready.steps_operator joins (binary_steps operands parser.advance)
  obtain ⟨token, bound, split⟩ := List.exists_cons_of_ne_nil (ready.rest_ne_nil joins)
  rw [split, List.length_cons] at fewer
  rw [split, climb_operator joins reads]
  exact climb_bound operands tight kept (Nat.le_of_lt_succ fewer) (Nat.le_refl _)

end Bound

/-- A change of the parser that goes together with all that the parser does. -/
structure Translates (change : Parser → Parser) : Prop where
  ready : ∀ parser, Ready parser → (change parser).Ready
  current : ∀ parser, Ready parser → (change parser).current.kind = parser.current.kind
  previous : ∀ parser, Ready parser → (change parser).previous.kind = parser.previous.kind
  shorter : ∀ parser, (change parser).rest.length ≤ parser.rest.length
  advance : ∀ parser, Ready parser → change parser.advance = (change parser).advance
  operation : ∀ parser operation,
    change (parser.direct (.operation operation parser.previous.line)) =
      (change parser).direct (.operation operation (change parser).previous.line)
  number : ∀ parser, change (parser.direct (.number parser.previous)) =
    (change parser).direct (.number (change parser).previous)
  atPrevious : ∀ parser objection, Ready parser →
    change (parser.reportAtPrevious objection) = (change parser).reportAtPrevious objection
  atCurrent : ∀ parser objection, Ready parser →
    change (parser.reportAtCurrent objection) = (change parser).reportAtCurrent objection

namespace Translates

variable {change : Parser → Parser} (translates : Translates change)

include translates

private theorem emit (parser : Parser) (operations : List Operation) :
    change (parser.emit operations) = (change parser).emit operations := by
  induction operations generalizing parser with
  | nil => rfl
  | cons operation operations ih => rw [emit_cons, emit_cons, ih, translates.operation]

private theorem expect (ready : parser.Ready) (kind : TokenKind) (objection : Objection) :
    change (parser.expect kind objection) = (change parser).expect kind objection := by
  unfold Parser.expect
  rw [translates.current parser ready]
  split
  · exact translates.advance parser ready
  · exact translates.atCurrent parser objection ready

section Operands

variable {operand : Precedence → Parser → Parser}
  (operands : ∀ level parser, Steps parser (operand level parser))
  (together : ∀ level parser, .assignment ≤ level → Ready parser →
    change (operand level parser) = operand level (change parser))

include operands together

private theorem apply (ready : parser.Ready) (parselet : Parselet) :
    change (Parser.apply operand parser parselet) =
      Parser.apply operand (change parser) parselet := by
  cases parselet with
  | grouping =>
    have kept := (ready.steps (operands .assignment parser)).1
    simp only [Parser.apply]
    rw [translates.expect kept, together _ _ (by decide) ready]
  | unary =>
    simp only [Parser.apply]
    rw [translates.emit, together _ _ (by decide) ready, translates.previous parser ready]
  | binary =>
    simp only [Parser.apply]
    rw [translates.emit, together _ _ (Precedence.assignment_le_next _) ready,
      translates.previous parser ready]
  | number => exact translates.number parser
  | literal =>
    simp only [Parser.apply]
    rw [translates.emit, translates.previous parser ready]

private theorem climb {level : Precedence} (tight : .assignment ≤ level) (bound : List Token)
    (ready : parser.Ready) : change (Parser.climb operand level bound parser) =
      Parser.climb operand level bound (change parser) := by
  induction bound generalizing parser with
  | nil => rfl
  | cons token bound ih =>
    have kind := translates.current parser ready
    by_cases binds : level ≤ parser.current.kind.rule.precedence
    · obtain ⟨layer, joins⟩ := TokenKind.ofOperator?_of_le tight binds
      have reads : level ≤ layer.precedence := by
        rwa [← Layer.precedence_of_ofOperator? joins]
      have kept := (ready.advance.steps (binary_steps operands parser.advance)).1
      rw [climb_operator joins reads, climb_operator (by rwa [kind]) reads, ih kept,
        translates.apply operands together ready.advance, translates.advance parser ready]
    · rw [climb_stop binds, climb_stop (by rwa [kind])]

end Operands

/-- Nothing of a parser but its next advance has a part in reading an expression. -/
theorem expression_of_advance {room : Nat} {level : Precedence} {other : Parser}
    (tight : .assignment ≤ level)
    (together : ∀ level parser, .assignment ≤ level → Ready parser →
      change (expression room level parser) = expression room level (change parser))
    (ready : parser.Ready) (advance : change parser.advance = other.advance) :
    change (expression (room + 1) level parser) = expression (room + 1) level other := by
  have kind : other.current.kind = parser.current.kind := by
    rw [← previous_advance other, ← advance, translates.previous _ ready.advance, previous_advance]
  cases starts : parser.current.kind.rule.atStart with
  | none =>
    simp only [expression, previous_advance, kind, starts]
    rw [translates.atPrevious _ _ ready.advance, advance]
  | some parselet =>
    have numbers : parselet = .number → parser.advance.previous.kind = .number := by
      rintro rfl
      rw [previous_advance]
      exact TokenKind.atStart_number_iff.mp starts
    have kept := (ready.advance.steps (apply_steps (expression_steps room) _ numbers)).1
    have applied := translates.apply (expression_steps room) together ready.advance parselet
    rw [Expr.expression_succ starts, Expr.expression_succ (by rwa [kind]), ← advance, ← applied,
      translates.climb (expression_steps room) together tight _ kept]
    exact climb_bound (expression_steps room) tight (translates.ready _ kept)
      (translates.shorter _) (Nat.le_refl _)

theorem expression (room : Nat) {level : Precedence} (tight : .assignment ≤ level)
    (ready : parser.Ready) :
    change (Parser.expression room level parser) = Parser.expression room level (change parser) := by
  induction room generalizing level parser with
  | zero => exact translates.atCurrent parser _ ready
  | succ room ih =>
    exact translates.expression_of_advance tight (fun _ _ tight ready => ih tight ready) ready
      (translates.advance parser ready)

/-- Two readings that are in step after two tokens are in step to the end. -/
theorem readAll {tokens others : List Token} (ended : Ended tokens)
    (start : change (ofTokens tokens).advance.advance = (ofTokens others).advance.advance) :
    change ((Parser.readAll tokens).emit [.return]) =
      (Parser.readAll others).emit [.return] := by
  have ready := Ready.ofTokens ended
  have read : change (Parser.expression maxNesting .assignment (ofTokens tokens).advance) =
      Parser.expression maxNesting .assignment (ofTokens others).advance :=
    translates.expression_of_advance (by decide)
      (fun _ _ tight ready => translates.expression _ tight ready) ready start
  rw [translates.emit, Parser.readAll, Parser.readAll,
    translates.expect (ready.steps (expression_steps _ _ _)).1, read]

end Translates

end Parser

end StackCalc
