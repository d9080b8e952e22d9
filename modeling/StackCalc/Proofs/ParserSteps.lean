import Mathlib.Logic.Relation
import StackCalc.Proofs.Grammar

/-! Everything the parser does is a sequence of five kinds of steps, on every token
list and also after an error. What the steps keep, a whole reading keeps: directives
are only added, every consumed error token has been reported, and each directive
goes back to a token. -/

namespace StackCalc

open Relation

namespace TokenKind

private theorem return_not_mem_literalOperations (kind : TokenKind) :
    .return ∉ kind.literalOperations := by
  cases kind <;> decide

theorem return_not_mem_unaryOperations (kind : TokenKind) : .return ∉ kind.unaryOperations := by
  cases kind <;> decide

theorem return_not_mem_binaryOperations (kind : TokenKind) :
    .return ∉ kind.binaryOperations := by
  cases kind <;> decide

end TokenKind

def Directive.lexical (token : Token) : Directive := .report (.ofErrorToken token)

namespace Parser

/-- A single action of the parser. Only a token that was consumed is found unfit to
start an expression; all other objections are to the token that comes next. -/
inductive Step : Parser → Parser → Prop where
  | advance (parser : Parser) : Step parser parser.advance
  | operation (parser : Parser) {operation : Operation} (inner : operation ≠ .return) :
      Step parser (parser.direct (.operation operation parser.previous.line))
  | number (parser : Parser) (kind : parser.previous.kind = .number) :
      Step parser (parser.direct (.number parser.previous))
  | unfit (parser : Parser) : Step parser (parser.reportAtPrevious .expectExpression)
  | blocked (parser : Parser) {objection : Objection}
      (syntactic : objection ∈ [.expectRightParen, .expectEnd, .nestedTooDeeply]) :
      Step parser (parser.reportAtCurrent objection)

abbrev Steps : Parser → Parser → Prop := ReflTransGen Step

theorem emit_cons (parser : Parser) (operation : Operation) (operations : List Operation) :
    parser.emit (operation :: operations) =
      (parser.direct (.operation operation parser.previous.line)).emit operations := rfl

theorem emit_steps (parser : Parser) {operations : List Operation}
    (inner : .return ∉ operations) : Steps parser (parser.emit operations) := by
  induction operations generalizing parser with
  | nil => exact .refl
  | cons operation operations ih =>
    simp only [List.mem_cons, not_or] at inner
    rw [emit_cons]
    exact .head (.operation parser fun same => inner.1 same.symm) (ih _ inner.2)

theorem expect_steps (parser : Parser) (kind : TokenKind) {objection : Objection}
    (syntactic : objection ∈ [.expectRightParen, .expectEnd, .nestedTooDeeply]) :
    Steps parser (parser.expect kind objection) := by
  unfold expect
  split
  · exact .single (.advance parser)
  · exact .single (.blocked parser syntactic)

variable {operand : Precedence → Parser → Parser}

theorem apply_steps (operands : ∀ level parser, Steps parser (operand level parser))
    (parser : Parser) {parselet : Parselet}
    (number : parselet = .number → parser.previous.kind = .number) :
    Steps parser (apply operand parser parselet) := by
  cases parselet with
  | grouping => exact (operands _ _).trans (expect_steps _ _ (by decide))
  | unary =>
    exact (operands _ _).trans (emit_steps _ (TokenKind.return_not_mem_unaryOperations _))
  | binary =>
    exact (operands _ _).trans (emit_steps _ (TokenKind.return_not_mem_binaryOperations _))
  | number => exact .single (.number parser (number rfl))
  | literal => exact emit_steps _ (TokenKind.return_not_mem_literalOperations _)

theorem climb_steps (operands : ∀ level parser, Steps parser (operand level parser))
    (level : Precedence) (bound : List Token) (parser : Parser) :
    Steps parser (climb operand level bound parser) := by
  induction bound generalizing parser with
  | nil => exact .refl
  | cons token bound ih =>
    simp only [climb]
    split
    · refine .head (.advance parser) ?_
      split
      next parselet found =>
        have binary := TokenKind.afterOperand_eq found
        refine (apply_steps operands _ fun number => ?_).trans (ih _)
        rw [binary] at number
        cases number
      next => exact ih _
    · exact .refl

theorem expression_steps_succ {room : Nat}
    (operands : ∀ level parser, Steps parser (expression room level parser))
    (level : Precedence) (parser : Parser) :
    Steps parser.advance (expression (room + 1) level parser) := by
  simp only [expression]
  split
  next parselet found =>
    refine (apply_steps operands _ fun number => ?_).trans (climb_steps operands _ _ _)
    rw [number] at found
    exact TokenKind.atStart_number_iff.mp found
  next => exact .single (.unfit _)

theorem expression_steps (room : Nat) (level : Precedence) (parser : Parser) :
    Steps parser (expression room level parser) := by
  induction room generalizing level parser with
  | zero => exact .single (.blocked parser (by decide))
  | succ room ih => exact .head (.advance parser) (expression_steps_succ ih level parser)

theorem readAll_steps (tokens : List Token) :
    Steps (ofTokens tokens).advance (readAll tokens) :=
  (expression_steps _ _ _).trans (expect_steps _ _ (by decide))

/-- Bringing up a token reports the error tokens in front of it. -/
theorem pull_cases (parser : Parser) (tokens : List Token) :
    (∃ skipped token rest, tokens = skipped ++ token :: rest ∧
      (∀ error ∈ skipped, error.kind = .error) ∧ token.kind ≠ .error ∧
      parser.pull tokens = { parser with
        current := token, rest
        directives := parser.directives ++ (skipped.map .lexical).toArray }) ∨
    ((∀ error ∈ tokens, error.kind = .error) ∧
      parser.pull tokens = { parser with
        rest := []
        directives := parser.directives ++ (tokens.map .lexical).toArray }) := by
  induction tokens generalizing parser with
  | nil => exact .inr ⟨by simp, by simp [pull]⟩
  | cons first tokens ih =>
    by_cases error : first.kind = .error
    · have pulled : parser.pull (first :: tokens) = (parser.direct (.lexical first)).pull tokens := by
        simp only [pull, error, if_true, Directive.lexical]
      rw [pulled]
      rcases ih (parser.direct (.lexical first)) with
        ⟨skipped, token, rest, whole, errors, clean, result⟩ | ⟨errors, result⟩
      · refine .inl ⟨first :: skipped, token, rest, by rw [whole]; rfl, ?_, clean, ?_⟩
        · simpa [error] using errors
        · rw [result]; simp [direct]
      · refine .inr ⟨by simpa [error] using errors, ?_⟩
        rw [result]; simp [direct]
    · refine .inl ⟨[], first, tokens, rfl, by simp, error, ?_⟩
      simp [pull, error]

theorem directives_advance (parser : Parser) :
    parser.advance.directives = parser.directives ++
      ((parser.rest.takeWhile (·.kind = .error)).map Directive.lexical).toArray := by
  rcases pull_cases { parser with previous := parser.current } parser.rest with
    ⟨skipped, token, rest, split, errors, clean, result⟩ | ⟨errors, result⟩
  · have front : parser.rest.takeWhile (·.kind = .error) = skipped := by
      rw [split, List.takeWhile_append_of_pos (by simpa using errors),
        List.takeWhile_cons_of_neg (by simpa using clean), List.append_nil]
    rw [advance, result, front]
  · have all : parser.rest.takeWhile (·.kind = .error) = parser.rest := by
      simpa using @List.takeWhile_append_of_pos _ (fun token : Token => decide (token.kind = .error))
        parser.rest [] (by simpa using errors)
    rw [advance, result, all]

theorem Step.directives_kept {before after : Parser} (step : Step before after) :
    before.directives.toList <+: after.directives.toList := by
  cases step with
  | advance => simp [directives_advance]
  | operation => simp [direct]
  | number => simp [direct]
  | unfit => simp [reportAtPrevious, direct]
  | blocked => simp [reportAtCurrent, direct]

theorem Steps.directives_kept {before after : Parser} (steps : Steps before after) :
    before.directives.toList <+: after.directives.toList := by
  induction steps with
  | refl => exact List.prefix_rfl
  | tail _ step ih => exact ih.trans step.directives_kept

/-- A directive goes back to a token: it loads a number, or it reports an error token
or an objection of the grammar. -/
inductive Justified (tokens : List Token) : Directive → Prop where
  | operation {operation : Operation} {line : Nat} (inner : operation ≠ .return) :
      Justified tokens (.operation operation line)
  | number {token : Token} (member : token ∈ tokens) (kind : token.kind = .number) :
      Justified tokens (.number token)
  | lexical {token : Token} (member : token ∈ tokens) (error : token.kind = .error) :
      Justified tokens (.lexical token)
  | objection (token : Token) {objection : Objection}
      (syntactic : objection ∈
        [.expectExpression, .expectRightParen, .expectEnd, .nestedTooDeeply]) :
      Justified tokens (.report (.atToken token objection.message))

/-- A parser in the middle of a token list, of which it has consumed a part. -/
structure Tracks (tokens consumed : List Token) (parser : Parser) : Prop where
  whole : tokens = consumed ++ parser.rest
  current : parser.current ∈ consumed
  previous : parser.previous.kind = .number → parser.previous ∈ consumed
  reported : ∀ token ∈ consumed, token.kind = .error → .lexical token ∈ parser.directives
  justified : ∀ directive ∈ parser.directives, Justified tokens directive

private theorem Tracks.direct {tokens consumed : List Token} {parser : Parser}
    {directive : Directive}
    (tracks : Tracks tokens consumed parser) (justified : Justified tokens directive) :
    Tracks tokens consumed (parser.direct directive) where
  whole := tracks.whole
  current := tracks.current
  previous := tracks.previous
  reported token member error := Array.mem_push.mpr (.inl (tracks.reported token member error))
  justified other member := by
    rcases Array.mem_push.mp member with member | rfl
    · exact tracks.justified other member
    · exact justified

private theorem justified_skipped {tokens skipped : List Token} {directives : Array Directive}
    (justified : ∀ directive ∈ directives, Justified tokens directive)
    (inside : ∀ token ∈ skipped, token ∈ tokens)
    (errors : ∀ token ∈ skipped, token.kind = .error) :
    ∀ directive ∈ directives ++ (skipped.map .lexical).toArray, Justified tokens directive := by
  intro directive member
  simp only [Array.mem_append, List.mem_toArray, List.mem_map] at member
  rcases member with member | ⟨token, member, rfl⟩
  · exact justified directive member
  · exact .lexical (inside token member) (errors token member)

private theorem reported_skipped {consumed skipped : List Token} {directives : Array Directive}
    (reported : ∀ token ∈ consumed, token.kind = .error → .lexical token ∈ directives) :
    ∀ token ∈ consumed ++ skipped, token.kind = .error →
      .lexical token ∈ directives ++ (skipped.map Directive.lexical).toArray := by
  intro token member error
  rcases List.mem_append.mp member with member | member
  · exact Array.mem_append_left _ (reported token member error)
  · exact Array.mem_append_right _ (by simpa using ⟨token, member, rfl⟩)

private theorem Tracks.advance {tokens consumed : List Token} {parser : Parser}
    (tracks : Tracks tokens consumed parser) :
    ∃ more, Tracks tokens (consumed ++ more) parser.advance := by
  have whole := tracks.whole
  rcases pull_cases { parser with previous := parser.current } parser.rest with
    ⟨skipped, token, rest, split, errors, clean, result⟩ | ⟨errors, result⟩
  · refine ⟨skipped ++ [token], ?_⟩
    rw [Parser.advance, result]
    refine ⟨by simp [whole, split], by simp, fun _ => by simp [tracks.current], ?_, ?_⟩
    · intro other member error
      rw [← List.append_assoc] at member
      rcases List.mem_append.mp member with member | member
      · exact reported_skipped tracks.reported other member error
      · rw [List.mem_singleton.mp member] at error
        exact absurd error clean
    · exact justified_skipped tracks.justified
        (fun other member => by simp [whole, split, member]) errors
  · refine ⟨parser.rest, ?_⟩
    rw [Parser.advance, result]
    exact ⟨by simp [whole], by simp [tracks.current], fun _ => by simp [tracks.current],
      reported_skipped tracks.reported,
      justified_skipped tracks.justified (fun other member => by simp [whole, member]) errors⟩

private theorem Tracks.step {tokens consumed : List Token} {before after : Parser}
    (tracks : Tracks tokens consumed before) (step : Step before after) :
    ∃ more, Tracks tokens (consumed ++ more) after := by
  cases step with
  | advance => exact tracks.advance
  | operation inner => exact ⟨[], by simpa using tracks.direct (.operation inner)⟩
  | number kind =>
    have member : before.previous ∈ tokens := by
      rw [tracks.whole]
      exact List.mem_append_left _ (tracks.previous kind)
    exact ⟨[], by simpa using tracks.direct (.number member kind)⟩
  | unfit =>
    exact ⟨[], by
      simpa [reportAtPrevious] using tracks.direct (.objection before.previous (by decide))⟩
  | blocked syntactic =>
    exact ⟨[], by
      simpa [reportAtCurrent] using tracks.direct (.objection before.current (.tail _ syntactic))⟩

private theorem Tracks.steps {tokens consumed : List Token} {before after : Parser}
    (tracks : Tracks tokens consumed before) (steps : Steps before after) :
    ∃ more, Tracks tokens (consumed ++ more) after := by
  induction steps with
  | refl => exact ⟨[], by simpa using tracks⟩
  | tail _ step ih =>
    obtain ⟨more, tracks⟩ := ih
    obtain ⟨last, tracks⟩ := tracks.step step
    exact ⟨more ++ last, by simpa using tracks⟩

private theorem tracks_start {tokens : List Token} {token : Token} (member : token ∈ tokens)
    (clean : token.kind ≠ .error) :
    ∃ consumed, Tracks tokens consumed (ofTokens tokens).advance := by
  rcases pull_cases { ofTokens tokens with previous := (ofTokens tokens).current } tokens with
    ⟨skipped, first, rest, split, errors, firstClean, result⟩ | ⟨errors, _⟩
  · refine ⟨skipped ++ [first], ?_⟩
    have advanced : (ofTokens tokens).advance = _ := result
    rw [advanced]
    refine ⟨by simp [split], by simp, fun number => by simp [ofTokens] at number, ?_, ?_⟩
    · intro other member error
      rcases List.mem_append.mp member with member | member
      · exact @reported_skipped [] skipped #[] (by simp) other member error
      · rw [List.mem_singleton.mp member] at error
        exact absurd error firstClean
    · exact justified_skipped (by simp [ofTokens])
        (fun other member => by simp [split, member]) errors
  · exact absurd (errors token member) clean

theorem directivesOf_eq (tokens : List Token) :
    directivesOf tokens = (readAll tokens).directives.toList ++
      [.operation .return (readAll tokens).previous.line] := by
  simp [directivesOf, emit, direct]

private theorem Ended.tracks {tokens : List Token} (ended : Ended tokens) {parser : Parser}
    (steps : Steps (ofTokens tokens).advance parser) :
    ∃ consumed, Tracks tokens consumed parser := by
  obtain ⟨body, eof, split, kind, _⟩ := ended
  have member : eof ∈ tokens := by simp [split]
  obtain ⟨consumed, start⟩ := tracks_start member (by simp [kind])
  obtain ⟨more, tracks⟩ := start.steps steps
  exact ⟨consumed ++ more, tracks⟩

theorem justified_readAll {tokens : List Token} (ended : Ended tokens) :
    ∀ directive ∈ (readAll tokens).directives, Justified tokens directive := by
  obtain ⟨consumed, tracks⟩ := Ended.tracks ended (readAll_steps tokens)
  exact tracks.justified

/-- The parser is only silent if there are no error tokens, since it does not stop
before the end of the tokens. -/
theorem clean_of_silent {tokens : List Token} (ended : Ended tokens)
    (silent : ∀ error, .report error ∉ (readAll tokens).directives) :
    ∀ token ∈ tokens, token.kind ≠ .error := by
  let reader := expression maxNesting .assignment (ofTokens tokens).advance
  have whole : readAll tokens = reader.expect .eof .expectEnd := rfl
  obtain ⟨consumed, tracks⟩ := Ended.tracks ended (expression_steps _ _ _ : Steps _ reader)
  have kept : reader.directives.toList <+: (readAll tokens).directives.toList :=
    (expect_steps reader .eof (by decide)).directives_kept
  by_cases atEnd : reader.current.kind = .eof
  · intro token member error
    have rest := ended.rest_eq_nil tracks.whole tracks.current atEnd
    rw [tracks.whole, rest, List.append_nil] at member
    have reported := Array.mem_toList_iff.mpr (tracks.reported token member error)
    exact silent _ (Array.mem_toList_iff.mp (kept.subset reported))
  · have reported : readAll tokens = reader.reportAtCurrent .expectEnd := by
      simp only [whole, expect, atEnd, if_false]
    exact absurd (by simp [reported, reportAtCurrent, direct])
      (silent (.atToken reader.current Objection.expectEnd.message))

end Parser

end StackCalc
