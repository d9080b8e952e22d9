import StackCalc.Proofs.Grammar

/-! Where a token list stops being the beginning of an expression. Every list either
begins with an expression that is followed by something looser, or leads to an impasse.
But for the bound on nesting, the tokens before an impasse can always be completed. -/

namespace StackCalc

open StackCalc.Expr

/-- Reading an expression at a level, with room for so many nested ones, takes the
tokens `before` and objects to the one that comes next. -/
inductive Impasse : (room : Nat) → (level : Precedence) → (before : List Token) → Token →
    Objection → Prop where
  | depth {level token} : Impasse 0 level [] token .nestedTooDeeply
  | start {room level token} (unfit : token.kind.rule.atStart = none) :
      Impasse (room + 1) level [] token .expectExpression
  | group {room level opening before token objection} (left : opening.kind = .leftParen)
      (inner : Impasse room .assignment before token objection) :
      Impasse (room + 1) level (opening :: before) token objection
  | closing {room level opening inner token} (left : opening.kind = .leftParen)
      (inside : In .equality inner) (fits : inner.nesting ≤ room)
      (stops : ¬ .assignment ≤ token.kind.rule.precedence) (other : token.kind ≠ .rightParen) :
      Impasse (room + 1) level (opening :: inner.tokens) token .expectRightParen
  | unary {room level operator before token objection}
      (kind : operator.kind = .minus ∨ operator.kind = .bang)
      (operand : Impasse room .unary before token objection) :
      Impasse (room + 1) level (operator :: before) token objection
  | binary {room level layer left operator before token objection}
      (joins : Layer.ofOperator? operator.kind = some layer) (binds : level ≤ layer.precedence)
      (first : In layer left) (fits : left.nesting ≤ room + 1)
      (second : Impasse room layer.precedence.next before token objection) :
      Impasse (room + 1) level (left.tokens ++ operator :: before) token objection

/-- The list begins with an expression that ends where something looser follows. -/
def Readable (room : Nat) (level : Precedence) (tokens : List Token) : Prop :=
  ∃ layer expr next after, In layer expr ∧ level ≤ layer.precedence ∧ expr.nesting ≤ room ∧
    ¬ level ≤ next.kind.rule.precedence ∧ tokens = expr.tokens ++ next :: after

def Blocked (room : Nat) (level : Precedence) (tokens : List Token) : Prop :=
  ∃ before token after objection, Impasse room level before token objection ∧
    tokens = before ++ token :: after

section Operands

variable {room : Nat} (operands : ∀ level tokens, .assignment ≤ level → Ended tokens →
  Readable room level tokens ∨ Blocked room level tokens)

include operands

/-- With an expression already read, either it is the whole, or an operator follows, and
the operand to its right decides. The tokens that are left get fewer each time. -/
theorem readable_or_blocked_behind {level : Precedence} {layer : Layer} {expr : Expr}
    {next : Token} {after : List Token} (tight : .assignment ≤ level) (inside : In layer expr)
    (reads : level ≤ layer.precedence) (fits : expr.nesting ≤ room + 1)
    (looser : next.kind.rule.precedence ≤ layer.precedence)
    (ended : Ended (expr.tokens ++ next :: after)) :
    Readable (room + 1) level (expr.tokens ++ next :: after) ∨
      Blocked (room + 1) level (expr.tokens ++ next :: after) := by
  by_cases binds : level ≤ next.kind.rule.precedence
  · obtain ⟨joint, joins⟩ := TokenKind.ofOperator?_of_le tight binds
    have outer := Layer.rank_of_ofOperator? joins
    rw [Layer.precedence_of_ofOperator? joins] at binds looser
    have first : In joint expr :=
      inside.loosen joint (Layer.rank_le_of_precedence_le (by omega) looser)
    have inner : next.kind ≠ .eof := by
      intro kind
      rw [kind] at joins
      cases joins
    rcases operands joint.precedence.next after (Layer.assignment_le_next outer)
      (ended.of_append inner) with
      ⟨tighter, right, last, rest, second, rightReads, rightFits, stops, split⟩ |
      ⟨before, token, rest, objection, impasse, rfl⟩
    · have whole : In joint (.binary expr next right) :=
        .binary joins first (second.loosen _ (Layer.rank_tighter_le outer rightReads))
      have shape : expr.tokens ++ next :: after =
          (Expr.binary expr next right).tokens ++ last :: rest := by simp [Expr.tokens, split]
      have shorter : rest.length < after.length := by
        rw [split, List.length_append, List.length_cons]
        omega
      rw [shape] at ended ⊢
      exact readable_or_blocked_behind tight whole binds
        (by simp only [nesting]; omega) ((Layer.not_next_le_iff outer).mp stops) ended
    · exact .inr ⟨expr.tokens ++ next :: before, token, rest, objection,
        .binary joins binds first fits impasse, by simp⟩
  · exact .inl ⟨layer, expr, next, after, inside, reads, fits, binds, rfl⟩
termination_by after.length
decreasing_by exact shorter

private theorem readable_or_blocked_unary {level : Precedence} {expr : Expr} {next : Token}
    {after : List Token} (tight : .assignment ≤ level) (inside : In .unary expr)
    (fits : expr.nesting ≤ room + 1) (ended : Ended (expr.tokens ++ next :: after)) :
    Readable (room + 1) level (expr.tokens ++ next :: after) ∨
      Blocked (room + 1) level (expr.tokens ++ next :: after) :=
  readable_or_blocked_behind operands tight inside (Layer.le_precedence_unary level) fits
    (Layer.le_precedence_unary _) ended

private theorem readable_or_blocked_literal {level : Precedence} {token : Token} {rest : List Token}
    (tight : .assignment ≤ level) (kind : token.kind ∈ [.number, .kwTrue, .kwFalse, .kwNil])
    (ended : Ended (token :: rest)) (more : Ended rest) :
    Readable (room + 1) level (token :: rest) ∨ Blocked (room + 1) level (token :: rest) := by
  obtain ⟨next, after, rfl⟩ := more.eq_cons
  exact readable_or_blocked_unary operands tight (.looser (.literal kind))
    (show 1 ≤ room + 1 by omega) ended

private theorem readable_or_blocked_prefix {level : Precedence} {operator : Token}
    {rest : List Token}
    (tight : .assignment ≤ level) (kind : operator.kind = .minus ∨ operator.kind = .bang)
    (ended : Ended (operator :: rest)) (more : Ended rest) :
    Readable (room + 1) level (operator :: rest) ∨ Blocked (room + 1) level (operator :: rest) := by
  rcases operands .unary rest (by decide) more with
    ⟨layer, operand, next, after, inside, reads, fits, stops, rfl⟩ |
    ⟨before, token, after, objection, impasse, rfl⟩
  · have inner : In .unary operand := inside.loosen .unary (Layer.rank_unary_le reads)
    exact readable_or_blocked_unary operands tight (.unary kind inner)
      (by simp only [nesting]; omega) ended
  · exact .inr ⟨operator :: before, token, after, objection, .unary kind impasse, rfl⟩

private theorem readable_or_blocked_group {level : Precedence} {opening : Token} {rest : List Token}
    (tight : .assignment ≤ level) (left : opening.kind = .leftParen)
    (ended : Ended (opening :: rest)) (more : Ended rest) :
    Readable (room + 1) level (opening :: rest) ∨ Blocked (room + 1) level (opening :: rest) := by
  rcases operands .assignment rest (by decide) more with
    ⟨layer, inner, closing, after, inside, reads, fits, stops, rfl⟩ |
    ⟨before, token, after, objection, impasse, rfl⟩
  · by_cases right : closing.kind = .rightParen
    · have further := more.of_append (by simp [right])
      obtain ⟨next, after, rfl⟩ := further.eq_cons
      have shape : opening :: (inner.tokens ++ closing :: next :: after) =
          (Expr.group opening inner closing).tokens ++ next :: after := by simp [Expr.tokens]
      rw [shape] at ended ⊢
      exact readable_or_blocked_unary operands tight
        (.looser (.group left right inside.equality)) (by simp only [nesting]; omega) ended
    · exact .inr ⟨opening :: inner.tokens, closing, after, _,
        .closing left inside.equality fits stops right, rfl⟩
  · exact .inr ⟨opening :: before, token, after, objection, .group left impasse, rfl⟩

end Operands

/-- Tokens that end are an expression up to something looser, or lead to an impasse. -/
theorem readable_or_blocked (room : Nat) (level : Precedence) (tokens : List Token)
    (tight : .assignment ≤ level) (ended : Ended tokens) :
    Readable room level tokens ∨ Blocked room level tokens := by
  induction room generalizing level tokens with
  | zero =>
    obtain ⟨first, rest, rfl⟩ := ended.eq_cons
    exact .inr ⟨[], first, rest, _, .depth, rfl⟩
  | succ room ih =>
    obtain ⟨first, rest, rfl⟩ := ended.eq_cons
    cases starts : first.kind.rule.atStart with
    | none => exact .inr ⟨[], first, rest, _, .start starts, rfl⟩
    | some parselet =>
      have inner : first.kind ≠ .eof := by
        intro kind
        rw [kind] at starts
        cases starts
      have more : Ended rest := Ended.of_append (by simpa using ended : Ended ([] ++ _)) inner
      cases parselet with
      | grouping =>
        exact readable_or_blocked_group ih tight (TokenKind.atStart_grouping_iff.mp starts) ended more
      | unary =>
        exact readable_or_blocked_prefix ih tight (TokenKind.atStart_unary_iff.mp starts) ended more
      | binary => exact absurd starts (TokenKind.atStart_ne_binary _)
      | number =>
        have kind := TokenKind.atStart_number_iff.mp starts
        exact readable_or_blocked_literal ih tight (by simp [kind]) ended more
      | literal =>
        have kind := TokenKind.atStart_literal_iff.mp starts
        exact readable_or_blocked_literal ih tight (.tail _ kind) ended more

end StackCalc
