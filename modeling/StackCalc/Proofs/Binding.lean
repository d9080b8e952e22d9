import StackCalc.Proofs.Unambiguity

/-! Trees and token lists by how tightly their operators bind. A tree of the grammar is one
in which tighter operators come first and equal ones are taken from left to right; its tokens
are a run of operands with operators between them, and a run ends only where something looser
follows. -/

namespace StackCalc

private theorem TokenKind.ofOperator?_of_rule {kind : TokenKind}
    (binary : kind.rule.afterOperand = some .binary) :
    ∃ layer, Layer.ofOperator? kind = some layer := by
  cases kind <;> first | exact ⟨_, rfl⟩ | cases binary

namespace Expr

/-- How tightly the parts of an expression are held together. Only a binary operator holds
them less than as tightly as possible. -/
def grip : Expr → Precedence
  | .binary _ operator _ => operator.kind.rule.precedence
  | .literal _ | .group _ _ _ | .unary _ _ => .primary

/-- Tighter operators bind first, and of equal ones the one on the left. Parentheses hold
together whatever they enclose. -/
inductive Ordered : Expr → Prop where
  | literal {token} (kind : token.kind ∈ [.number, .kwTrue, .kwFalse, .kwNil]) :
      Ordered (.literal token)
  | group {opening inner closing} (left : opening.kind = .leftParen)
      (right : closing.kind = .rightParen) (inside : Ordered inner) :
      Ordered (.group opening inner closing)
  | unary {operator operand} (kind : operator.kind = .minus ∨ operator.kind = .bang)
      (inside : Ordered operand) (tight : .unary ≤ operand.grip) :
      Ordered (.unary operator operand)
  | binary {left operator right} (joins : operator.kind.rule.afterOperand = some .binary)
      (first : Ordered left) (second : Ordered right)
      (loose : operator.kind.rule.precedence ≤ left.grip)
      (tight : operator.kind.rule.precedence.rank < right.grip.rank) :
      Ordered (.binary left operator right)

theorem In.ordered {layer : Layer} {expr : Expr} (inside : In layer expr) :
    Ordered expr ∧ layer.precedence ≤ expr.grip := by
  induction inside with
  | literal kind => exact ⟨.literal kind, Nat.le_refl _⟩
  | group left right inside ih => exact ⟨.group left right ih.1, Nat.le_refl _⟩
  | unary kind inside ih =>
    exact ⟨.unary kind ih.1 (Nat.le_trans (by decide) ih.2), Nat.le_refl _⟩
  | @binary layer left operator right joins first second ihFirst ihSecond =>
    have binding := Layer.precedence_of_ofOperator? joins
    have outer := Layer.rank_of_ofOperator? joins
    have next : layer.precedence.next ≤ right.grip :=
      Nat.le_trans (Layer.next_precedence_le outer) ihSecond.2
    have tight : ¬ right.grip ≤ layer.precedence := fun below =>
      (Layer.not_next_le_iff outer).mpr below next
    refine ⟨.binary (TokenKind.rule_of_ofOperator? joins) ihFirst.1 ihSecond.1 ?_ ?_, ?_⟩
    · rw [binding]
      exact ihFirst.2
    · rw [binding]
      exact Nat.lt_of_not_le tight
    · exact Nat.le_of_eq (by rw [grip, binding])
  | @looser layer expr inside ih =>
    exact ⟨ih.1, Nat.le_trans layer.precedence_le_tighter ih.2⟩

/-- The layer is the one of the operator that comes last. -/
theorem Ordered.inside {expr : Expr} (ordered : Ordered expr) :
    ∃ layer, In layer expr ∧ layer.precedence = expr.grip := by
  induction ordered with
  | literal kind => exact ⟨.primary, .literal kind, rfl⟩
  | group left right inside ih =>
    obtain ⟨layer, inner, _⟩ := ih
    exact ⟨.primary, .group left right inner.equality, rfl⟩
  | unary kind inside tight ih =>
    obtain ⟨layer, operand, same⟩ := ih
    rw [← same] at tight
    exact ⟨.unary, .unary kind (operand.loosen .unary (Layer.rank_unary_le tight)), rfl⟩
  | @binary left operator right joins first second loose tight ihFirst ihSecond =>
    obtain ⟨layer, joins⟩ := TokenKind.ofOperator?_of_rule joins
    obtain ⟨leftLayer, leftIn, leftGrip⟩ := ihFirst
    obtain ⟨rightLayer, rightIn, rightGrip⟩ := ihSecond
    have binding := Layer.precedence_of_ofOperator? joins
    have outer := Layer.rank_of_ofOperator? joins
    rw [binding, ← leftGrip] at loose
    rw [binding, ← rightGrip] at tight
    have next : layer.precedence.next ≤ rightLayer.precedence := by
      apply Classical.byContradiction
      intro below
      exact absurd tight (Nat.not_lt_of_le ((Layer.not_next_le_iff outer).mp below))
    refine ⟨layer, .binary joins ?_ ?_, by rw [grip, binding]⟩
    · exact leftIn.loosen layer (Layer.rank_le_of_precedence_le (by omega) loose)
    · exact rightIn.loosen layer.tighter (Layer.rank_tighter_le outer next)

theorem Ordered.equality {expr : Expr} (ordered : Ordered expr) : In .equality expr := by
  obtain ⟨layer, inside, _⟩ := ordered.inside
  exact inside.equality

/-- Tokens are those of at most one such tree. -/
theorem Ordered.unique {first second : Expr} (ordered : Ordered first) (also : Ordered second)
    (same : first.tokens = second.tokens) : first = second := by
  have ends : Stops .equality [] := nofun
  exact (Expr.unique first.tokens.length .equality first second [] [] ordered.equality
    also.equality (Nat.le_refl _) (Nat.le_of_eq (by rw [same])) ends ends (by rw [same])).1

/-- The token joins two operands, at least as tightly as the level. -/
def Joins (level : Precedence) (token : Token) : Prop :=
  token.kind.rule.afterOperand = some .binary ∧ level ≤ token.kind.rule.precedence

/-- Unary expressions, joined by operators that bind at least as tightly as the level. -/
def Run (level : Precedence) (tokens : List Token) : Prop :=
  ∃ first links, In .unary first ∧ (∀ link ∈ links, Joins level link.1 ∧ In .unary link.2) ∧
    tokens = first.tokens ++ linkTokens links

variable {level : Precedence}

private theorem Run.single {expr : Expr} (inside : In .unary expr) : Run level expr.tokens :=
  ⟨expr, [], inside, by simp, by simp [linkTokens]⟩

private theorem Run.append {front back : List Token} {operator : Token} (before : Run level front)
    (behind : Run level back) (joins : Joins level operator) :
    Run level (front ++ operator :: back) := by
  obtain ⟨first, links, firstIn, linked, rfl⟩ := before
  obtain ⟨second, others, secondIn, chained, rfl⟩ := behind
  refine ⟨first, links ++ (operator, second) :: others, firstIn, ?_, by simp [linkTokens]⟩
  rw [List.forall_mem_append, List.forall_mem_cons]
  exact ⟨linked, ⟨joins, secondIn⟩, chained⟩

theorem In.run {layer : Layer} {expr : Expr} (inside : In layer expr)
    (reads : level ≤ layer.precedence) : Run level expr.tokens := by
  induction inside with
  | literal kind => exact .single (.looser (.literal kind))
  | group left right inside => exact .single (.looser (.group left right inside))
  | unary kind inside => exact .single (.unary kind inside)
  | @binary layer left operator right joins first second ihFirst ihSecond =>
    have behind := ihSecond (Nat.le_trans reads layer.precedence_le_tighter)
    refine (ihFirst reads).append behind ⟨TokenKind.rule_of_ofOperator? joins, ?_⟩
    rwa [Layer.precedence_of_ofOperator? joins]
  | @looser layer expr inside ih => exact ih (Nat.le_trans reads layer.precedence_le_tighter)

private theorem unary_unique {first second : Expr} {front back : List Token}
    (inside : In .unary first)
    (within : In .unary second) (same : first.tokens ++ front = second.tokens ++ back) :
    first = second ∧ front = back := by
  have stops (tokens : List Token) : Stops .unary tokens :=
    fun _ _ _ _ joins => Layer.rank_of_ofOperator? joins
  exact Expr.unique (max first.tokens.length second.tokens.length) .unary first second front back
    inside within (Nat.le_max_left _ _) (Nat.le_max_right _ _) (stops front) (stops back) same

/-- Operands and operators are the same from left to right, up to where something looser
follows. -/
theorem length_linkTokens_le {links others : List (Token × Expr)} {next : Token}
    {rest behind : List Token} (operands : ∀ link ∈ links, In .unary link.2)
    (chained : ∀ link ∈ others, Joins level link.1 ∧ In .unary link.2)
    (stops : next.kind.rule.precedence.rank < level.rank)
    (same : linkTokens links ++ next :: rest = linkTokens others ++ behind) :
    (linkTokens others).length ≤ (linkTokens links).length := by
  induction others generalizing links with
  | nil => exact Nat.zero_le _
  | cons other others ih =>
    obtain ⟨⟨joins, within⟩, tail⟩ := List.forall_mem_cons.mp chained
    cases links with
    | nil =>
      obtain ⟨rfl, _⟩ := List.cons.inj same
      exact absurd joins.2 (Nat.not_le_of_lt stops)
    | cons link links =>
      obtain ⟨inside, operands⟩ := List.forall_mem_cons.mp operands
      simp only [linkTokens, List.flatMap_cons, List.cons_append, List.append_assoc,
        List.cons.injEq, List.length_cons, List.length_append] at same ⊢
      obtain ⟨operand, left⟩ := unary_unique inside within same.2
      have fewer := ih operands tail left
      simp only [linkTokens] at fewer
      rw [operand]
      omega

/-- Nothing that something looser follows can be part of a longer run. -/
theorem Run.length_le {tokens other rest behind : List Token} {next : Token}
    (run : Run level tokens) (also : Run level other)
    (stops : next.kind.rule.precedence.rank < level.rank)
    (same : tokens ++ next :: rest = other ++ behind) : other.length ≤ tokens.length := by
  obtain ⟨first, links, inside, linked, rfl⟩ := run
  obtain ⟨second, others, within, chained, rfl⟩ := also
  simp only [List.append_assoc] at same
  obtain ⟨rfl, left⟩ := unary_unique inside within same
  have fewer := length_linkTokens_le (fun link member => (linked link member).2) chained stops left
  simp only [List.length_append]
  omega

end Expr

end StackCalc
