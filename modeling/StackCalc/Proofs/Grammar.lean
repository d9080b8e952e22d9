import StackCalc.Expr

/-! How the layers of the grammar lie along the binding levels, and what the tokens
of an expression are. -/

namespace StackCalc

/-- Exactly the last token is `eof`, as in all that the scanner hands out. -/
def Ended (tokens : List Token) : Prop :=
  ∃ body eof, tokens = body ++ [eof] ∧ eof.kind = .eof ∧ ∀ token ∈ body, token.kind ≠ .eof

theorem Ended.eq_cons {tokens : List Token} (ended : Ended tokens) :
    ∃ first rest, tokens = first :: rest := by
  obtain ⟨body, eof, rfl, _⟩ := ended
  cases body with
  | nil => exact ⟨eof, [], rfl⟩
  | cons first body => exact ⟨first, body ++ [eof], rfl⟩

theorem Ended.cons {tokens : List Token} {token : Token} (ended : Ended tokens)
    (inner : token.kind ≠ .eof) : Ended (token :: tokens) := by
  obtain ⟨body, eof, rfl, kind, others⟩ := ended
  exact ⟨token :: body, eof, rfl, kind, List.forall_mem_cons.mpr ⟨inner, others⟩⟩

theorem Ended.rest_eq_nil {tokens consumed rest : List Token} {token : Token}
    (ended : Ended tokens) (whole : tokens = consumed ++ rest) (member : token ∈ consumed)
    (kind : token.kind = .eof) : rest = [] := by
  obtain ⟨body, eof, split, _, inner⟩ := ended
  rcases List.eq_nil_or_concat rest with empty | ⟨front, last, rfl⟩
  · exact empty
  · rw [whole, List.concat_eq_append, ← List.append_assoc] at split
    have same := (List.append_inj' split rfl).1
    have inside : token ∈ body := by rw [← same]; exact List.mem_append_left _ member
    exact absurd kind (inner token inside)

theorem Ended.of_append {front rest : List Token} {token : Token}
    (ended : Ended (front ++ token :: rest)) (inner : token.kind ≠ .eof) : Ended rest := by
  obtain ⟨body, eof, split, kind, others⟩ := ended
  rcases List.eq_nil_or_concat rest with rfl | ⟨middle, last, rfl⟩
  · obtain ⟨_, rfl⟩ := List.concat_inj.mp (by simpa using split : front.concat token = body.concat eof)
    exact absurd kind inner
  · have same : (front ++ token :: middle) ++ [last] = body ++ [eof] := by simpa using split
    obtain ⟨rfl, lasts⟩ := List.append_inj' same rfl
    obtain ⟨rfl, _⟩ := List.cons.inj lasts
    exact ⟨middle, last, by simp, kind, fun token member => others token (by simp [member])⟩

namespace TokenKind

theorem rule_of_ofOperator? {kind : TokenKind} {layer : Layer}
    (joins : Layer.ofOperator? kind = some layer) : kind.rule.afterOperand = some .binary := by
  cases kind <;> simp [Layer.ofOperator?] at joins <;> rfl

theorem inner_of_ofOperator? {kind : TokenKind} {layer : Layer}
    (joins : Layer.ofOperator? kind = some layer) : kind ∉ [.error, .eof] := by
  cases kind <;> first | decide | cases joins

theorem ne_number_of_ofOperator? {kind : TokenKind} {layer : Layer}
    (joins : Layer.ofOperator? kind = some layer) : kind ≠ .number := by
  rintro rfl
  cases joins

theorem ofOperator?_of_le {level : Precedence} {kind : TokenKind} (some : .assignment ≤ level)
    (binds : level ≤ kind.rule.precedence) : ∃ layer, Layer.ofOperator? kind = .some layer := by
  have binding : Precedence.assignment.rank ≤ kind.rule.precedence.rank := Nat.le_trans some binds
  cases kind
  all_goals first | exact ⟨_, rfl⟩ | exact absurd binding (by decide)

/-- No token binds as tightly as a unary operator holds its operand. -/
theorem not_unary_le (kind : TokenKind) : ¬ .unary ≤ kind.rule.precedence := by
  cases kind <;> decide

theorem atStart_number_iff {kind : TokenKind} :
    kind.rule.atStart = some .number ↔ kind = .number := by
  cases kind <;> decide

theorem atStart_grouping_iff {kind : TokenKind} :
    kind.rule.atStart = some .grouping ↔ kind = .leftParen := by
  cases kind <;> decide

theorem atStart_unary_iff {kind : TokenKind} :
    kind.rule.atStart = some .unary ↔ kind = .minus ∨ kind = .bang := by
  cases kind <;> decide

theorem atStart_literal_iff {kind : TokenKind} :
    kind.rule.atStart = some .literal ↔ kind ∈ [.kwTrue, .kwFalse, .kwNil] := by
  cases kind <;> decide

private theorem atStart_of_literal {kind : TokenKind}
    (literal : kind ∈ [.number, .kwTrue, .kwFalse, .kwNil]) : kind.rule.atStart ≠ none := by
  rcases List.mem_cons.mp literal with number | word
  · rw [atStart_number_iff.mpr number]
    exact Option.some_ne_none _
  · rw [atStart_literal_iff.mpr word]
    exact Option.some_ne_none _

theorem atStart_of_unary {kind : TokenKind} (unary : kind = .minus ∨ kind = .bang) :
    kind.rule.atStart ≠ none := by
  rw [atStart_unary_iff.mpr unary]
  exact Option.some_ne_none _

theorem ne_number_of_unary {kind : TokenKind} (unary : kind = .minus ∨ kind = .bang) :
    kind ≠ .number := by
  rintro rfl
  cases unary <;> contradiction

theorem inner_of_atStart {kind : TokenKind} (starts : kind.rule.atStart ≠ none) :
    kind ∉ [.error, .eof] := by
  cases kind <;> first | decide | exact absurd rfl starts

theorem atStart_ne_binary (kind : TokenKind) : kind.rule.atStart ≠ some .binary := by
  cases kind <;> decide

theorem afterOperand_eq {kind : TokenKind} {parselet : Parselet}
    (found : kind.rule.afterOperand = some parselet) : parselet = .binary := by
  cases kind <;> simp [rule] at found <;> exact found.symm

end TokenKind

namespace Layer

/-- The tightest level at which expressions of the layer are read. Operators in front
of an operand do not look at the level. -/
def precedence : Layer → Precedence
  | .equality => .equality
  | .comparison => .comparison
  | .term => .term
  | .factor => .factor
  | .unary | .primary => .primary

theorem assignment_le_precedence (layer : Layer) : .assignment ≤ layer.precedence := by
  cases layer <;> decide

theorem precedence_le_tighter (layer : Layer) : layer.precedence ≤ layer.tighter.precedence := by
  cases layer <;> decide

def rank : Layer → Nat
  | .equality => 0
  | .comparison => 1
  | .term => 2
  | .factor => 3
  | .unary => 4
  | .primary => 5

private theorem rank_injective {first second : Layer} (same : first.rank = second.rank) :
    first = second := by
  cases first <;> cases second <;> first | rfl | cases same

private theorem rank_tighter {layer tighter : Layer} (below : layer.rank < tighter.rank) :
    layer.tighter.rank = layer.rank + 1 := by
  cases layer <;> first | rfl | (revert below; cases tighter <;> decide)

theorem rank_le_of_precedence_le {layer tighter : Layer} (loose : layer.rank < 5)
    (below : layer.precedence ≤ tighter.precedence) : layer.rank ≤ tighter.rank := by
  revert loose below
  cases layer <;> cases tighter <;> decide

theorem le_precedence_unary (level : Precedence) : level ≤ Layer.unary.precedence := by
  cases level <;> decide

theorem rank_unary_le {layer : Layer} (reads : .unary ≤ layer.precedence) :
    Layer.unary.rank ≤ layer.rank := by
  revert reads
  cases layer <;> decide

section Joining

variable {kind : TokenKind} {layer : Layer}

theorem precedence_of_ofOperator? (joins : ofOperator? kind = some layer) :
    kind.rule.precedence = layer.precedence := by
  cases kind <;> simp [ofOperator?] at joins <;> subst joins <;> rfl

theorem rank_of_ofOperator? (joins : ofOperator? kind = some layer) : layer.rank < 4 := by
  cases kind <;> simp [ofOperator?] at joins <;> subst joins <;> decide

theorem assignment_le_next (outer : layer.rank < 4) : .assignment ≤ layer.precedence.next := by
  revert outer
  cases layer <;> decide

theorem next_precedence_le (outer : layer.rank < 4) :
    layer.precedence.next ≤ layer.tighter.precedence := by
  revert outer
  cases layer <;> decide

/-- The right operand starts at the next level, where only tighter layers are read. -/
theorem rank_tighter_le {right : Layer} (outer : layer.rank < 4)
    (reads : layer.precedence.next ≤ right.precedence) : layer.tighter.rank ≤ right.rank := by
  revert outer reads
  cases layer <;> cases right <;> decide

theorem not_next_le_iff {binding : Precedence} (outer : layer.rank < 4) :
    ¬ layer.precedence.next ≤ binding ↔ binding ≤ layer.precedence := by
  revert outer
  cases layer <;> cases binding <;> decide

end Joining

end Layer

namespace Expr

theorem In.loosen {layer : Layer} {expr : Expr} (inside : In layer expr) (looser : Layer)
    (below : looser.rank ≤ layer.rank) : In looser expr := by
  by_cases same : looser.rank = layer.rank
  · rwa [Layer.rank_injective same]
  · have step := Layer.rank_tighter (show looser.rank < layer.rank by omega)
    exact .looser (inside.loosen looser.tighter (by omega))
termination_by layer.rank - looser.rank

theorem In.equality {layer : Layer} {expr : Expr} (inside : In layer expr) :
    In .equality expr :=
  inside.loosen .equality (Nat.zero_le _)

theorem In.tokens_eq_cons {layer : Layer} {expr : Expr} (inside : In layer expr) :
    ∃ first more, expr.tokens = first :: more ∧ first.kind.rule.atStart ≠ none := by
  induction inside with
  | @literal token kind =>
    exact ⟨token, [], rfl, TokenKind.atStart_of_literal kind⟩
  | @group opening inner closing left right inside ih =>
    exact ⟨opening, _, rfl, by rw [left]; decide⟩
  | @unary operator operand kind inside ih =>
    exact ⟨operator, _, rfl, TokenKind.atStart_of_unary kind⟩
  | @binary layer left operator right kind first second ihFirst ihSecond =>
    obtain ⟨start, more, tokens, starts⟩ := ihFirst
    exact ⟨start, more ++ operator :: right.tokens, by simp [Expr.tokens, tokens], starts⟩
  | looser inside ih => exact ih

theorem In.inner {layer : Layer} {expr : Expr} (inside : In layer expr) :
    ∀ token ∈ expr.tokens, token.kind ∉ [.error, .eof] := by
  induction inside with
  | @literal token kind =>
    intro other member
    rw [List.mem_singleton.mp member]
    exact TokenKind.inner_of_atStart (TokenKind.atStart_of_literal kind)
  | @group opening inner closing left right inside ih =>
    intro token member
    simp only [tokens, List.cons_append, List.mem_cons, List.mem_append, List.not_mem_nil,
      or_false] at member
    rcases member with rfl | member | rfl
    · simp [left]
    · exact ih token member
    · simp [right]
  | @unary operator operand kind inside ih =>
    intro token member
    rcases List.mem_cons.mp member with rfl | member
    · exact TokenKind.inner_of_atStart (TokenKind.atStart_of_unary kind)
    · exact ih token member
  | @binary layer left operator right joins first second ihFirst ihSecond =>
    intro token member
    simp only [tokens, List.mem_append, List.mem_cons] at member
    rcases member with member | rfl | member
    · exact ihFirst token member
    · exact TokenKind.inner_of_ofOperator? joins
    · exact ihSecond token member
  | looser inside ih => exact ih

theorem In.clean {layer : Layer} {expr : Expr} (inside : In layer expr) :
    ∀ token ∈ expr.tokens, token.kind ≠ .error := by
  intro token member error
  exact inside.inner token member (by simp [error])

theorem getLast?_tokens (expr : Expr) : expr.tokens.getLast? = some expr.last := by
  induction expr with
  | literal token => rfl
  | group opening inner closing => exact List.getLast?_concat
  | unary operator operand ih => simp [tokens, last, List.getLast?_cons, ih]
  | binary left operator right _ ih =>
    simp [tokens, last, List.getLast?_append, List.getLast?_cons, ih]

section Numbers

variable {opening operator closing : Token} {left inner right operand : Expr}

theorem numbers_group (first : opening.kind = .leftParen) (last : closing.kind = .rightParen) :
    (Expr.group opening inner closing).numbers = inner.numbers := by
  simp [numbers, tokens, first, last]

theorem numbers_unary (kind : operator.kind = .minus ∨ operator.kind = .bang) :
    (Expr.unary operator operand).numbers = operand.numbers := by
  rcases kind with kind | kind <;> simp [numbers, tokens, kind]

theorem numbers_binary {layer : Layer} (joins : Layer.ofOperator? operator.kind = some layer) :
    (Expr.binary left operator right).numbers = left.numbers ++ right.numbers := by
  simp [numbers, tokens, TokenKind.ne_number_of_ofOperator? joins]

end Numbers

section Denotes

variable {tokens : List Token} {expr : Expr}

theorem Denotes.clean (denotes : Denotes tokens expr) : ∀ token ∈ tokens, token.kind ≠ .error := by
  obtain ⟨inside, eof, last, rfl⟩ := denotes
  intro token member
  rcases List.mem_append.mp member with member | member
  · exact inside.clean token member
  · rw [List.mem_singleton.mp member, last]
    decide

theorem Denotes.filter_number (denotes : Denotes tokens expr) :
    tokens.filter (·.kind = .number) = expr.numbers := by
  obtain ⟨inside, eof, last, rfl⟩ := denotes
  simp [numbers, last]

end Denotes

end Expr

end StackCalc
