import StackCalc.Proofs.Reporting

/-! What becomes of a whole token list. Without error tokens it denotes an expression,
up to the bound on nesting, or it is rejected at one of its tokens, and the parser
tells the two apart. -/

namespace StackCalc

open StackCalc.Expr StackCalc.Parser

/-- After the tokens `before`, what comes next is objected to. -/
inductive Rejects : (before : List Token) → Token → Objection → Prop where
  | impasse {before token objection}
      (impasse : Impasse maxNesting .assignment before token objection) :
      Rejects before token objection
  | trailing {expr token} (inside : In .equality expr) (fits : expr.nesting ≤ maxNesting)
      (stops : ¬ .assignment ≤ token.kind.rule.precedence) (more : token.kind ≠ .eof) :
      Rejects expr.tokens token .expectEnd

private theorem Rejects.clean {before : List Token} {token : Token} {objection : Objection}
    (rejects : Rejects before token objection) : ∀ other ∈ before, other.kind ≠ .error := by
  cases rejects with
  | impasse impasse => exact impasse.clean
  | trailing inside => exact inside.clean

theorem denotes_or_rejects {tokens : List Token} (ended : Ended tokens) :
    (∃ expr, Denotes tokens expr ∧ expr.nesting ≤ maxNesting) ∨
      ∃ before token after objection, tokens = before ++ token :: after ∧
        Rejects before token objection := by
  rcases readable_or_blocked maxNesting .assignment tokens (by decide) ended with
    ⟨layer, expr, next, after, inside, reads, fits, stops, rfl⟩ |
    ⟨before, token, after, objection, impasse, split⟩
  · by_cases last : next.kind = .eof
    · have rest : after = [] :=
        ended.rest_eq_nil (show _ = (expr.tokens ++ [next]) ++ after by simp) (by simp) last
      exact .inl ⟨expr, ⟨inside.equality, next, last, by rw [rest]⟩, fits⟩
    · exact .inr ⟨expr.tokens, next, after, .expectEnd, rfl, .trailing inside.equality fits stops last⟩
  · exact .inr ⟨before, token, after, objection, split, .impasse impasse⟩

/-- The directives for an expression, with the final `return` on the line of `eof`. -/
theorem directivesOf_tokens {expr : Expr} {eof : Token} (inside : In .equality expr)
    (fits : expr.nesting ≤ maxNesting) (last : eof.kind = .eof) :
    directivesOf (expr.tokens ++ [eof]) = expr.directives ++ [.operation .return eof.line] := by
  have clean : eof.kind ≠ .error := by simp [last]
  obtain ⟨upcoming, same⟩ := advance_upcoming
    (show (ofTokens (expr.tokens ++ [eof])).rest = expr.tokens ++ eof :: [] from rfl)
    inside.clean clean
  have read := inside.reached.read _ (show .assignment ≤ Layer.equality.precedence by decide)
    (by rw [last]; decide) clean fits upcoming
  have whole : readAll (expr.tokens ++ [eof]) =
      ⟨eof, eof, [], #[] ++ expr.directives.toArray⟩ := by
    simp only [readAll, read, expect, past, last, if_true, same]
    rfl
  simp [directivesOf_eq, whole]

theorem Rejects.reports {before : List Token} {token : Token} {objection : Objection}
    (rejects : Rejects before token objection) (clean : token.kind ≠ .error)
    (after : List Token) :
    Objects (ofTokens []) before token objection after (readAll (before ++ token :: after)) := by
  obtain ⟨upcoming, same⟩ := advance_upcoming
    (show (ofTokens (before ++ token :: after)).rest = before ++ token :: after from rfl)
    rejects.clean clean
  have start : (ofTokens (before ++ token :: after)).advance.directives.toList =
      (ofTokens []).directives.toList ++ [] := by rw [same]; rfl
  cases rejects with
  | impasse impasse =>
    have objects := (impasse.reports clean _ after upcoming).later
      (expect_steps _ .eof (show .expectEnd ∈ _ by decide))
    exact objects.earlier (ofTokens []) [] [] start (by simp) rfl
  | @trailing expr _ inside fits stops more =>
    have read := inside.reached.read _ (show .assignment ≤ Layer.equality.precedence by decide)
      stops clean fits upcoming
    refine ⟨expr.directives, report_not_mem_directives expr, inside.numbers_directives, ?_⟩
    simp [readAll, read, expect, past, more, reportAtCurrent, direct, start, overtaking]

end StackCalc
