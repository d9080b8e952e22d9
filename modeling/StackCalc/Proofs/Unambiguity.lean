import StackCalc.Proofs.Grammar

/-! The grammar is unambiguous. In each of the four outer layers an expression is a
chain of tighter ones, and tokens fall apart into such a chain in one way only. -/

namespace StackCalc.Expr

/-- Operators, each with its right operand, taken from left to right. -/
def chain (base : Expr) (links : List (Token × Expr)) : Expr :=
  links.foldl (fun left link => .binary left link.1 link.2) base

def linkTokens (links : List (Token × Expr)) : List Token :=
  links.flatMap fun link => link.1 :: link.2.tokens

private theorem tokens_chain (base : Expr) (links : List (Token × Expr)) :
    (chain base links).tokens = base.tokens ++ linkTokens links := by
  induction links generalizing base with
  | nil => simp [chain, linkTokens]
  | cons link links ih =>
    have step : chain base (link :: links) = chain (.binary base link.1 link.2) links := rfl
    rw [step, ih]
    simp [linkTokens, tokens]

def Linked (layer : Layer) (links : List (Token × Expr)) : Prop :=
  ∀ link ∈ links, Layer.ofOperator? link.1.kind = some layer ∧ In layer.tighter link.2

private theorem In.exists_chain {layer : Layer} {expr : Expr} (inside : In layer expr)
    (outer : layer.rank < 4) :
    ∃ base links, expr = chain base links ∧ In layer.tighter base ∧ Linked layer links := by
  induction inside with
  | literal | group | unary => simp [Layer.rank] at outer
  | @binary layer left operator right joins first second ihFirst ihSecond =>
    obtain ⟨base, links, rfl, start, linked⟩ := ihFirst outer
    refine ⟨base, links ++ [(operator, right)], by simp [chain], start, ?_⟩
    intro link member
    rcases List.mem_append.mp member with member | member
    · exact linked link member
    · rw [List.mem_singleton.mp member]
      exact ⟨joins, second⟩
  | @looser layer expr inside ih => exact ⟨expr, [], rfl, inside, by simp [Linked]⟩

private theorem In.unary_cases {expr : Expr} (inside : In .unary expr) :
    (∃ operator operand, expr = .unary operator operand ∧
      (operator.kind = .minus ∨ operator.kind = .bang) ∧ In .unary operand) ∨
    In .primary expr := by
  cases inside with
  | unary kind inside => exact .inl ⟨_, _, rfl, kind, inside⟩
  | binary joins => exact absurd (Layer.rank_of_ofOperator? joins) (by decide)
  | looser inside => exact .inr inside

private theorem In.primary_cases {layer : Layer} {expr : Expr} (inside : In layer expr)
    (innermost : layer = .primary) :
    (∃ token, expr = .literal token ∧ token.kind ∈ [.number, .kwTrue, .kwFalse, .kwNil]) ∨
    ∃ opening inner closing, expr = .group opening inner closing ∧
      opening.kind = .leftParen ∧ closing.kind = .rightParen ∧ In .equality inner := by
  induction inside with
  | literal kind => exact .inl ⟨_, rfl, kind⟩
  | group left right inside => exact .inr ⟨_, _, _, rfl, left, right, inside⟩
  | unary => cases innermost
  | binary joins =>
    rw [innermost] at joins
    exact absurd (Layer.rank_of_ofOperator? joins) (by decide)
  | looser inside ih => exact ih (by rw [innermost]; rfl)

/-- The tokens do not go on with an operator of the layer or a tighter one. -/
def Stops (layer : Layer) (tokens : List Token) : Prop :=
  ∀ token rest, tokens = token :: rest →
    ∀ joint, Layer.ofOperator? token.kind = some joint → joint.rank < layer.rank

/-- Tokens of at most this length are read in one way. -/
def Unique (size : Nat) (layer : Layer) : Prop :=
  ∀ first second front back, In layer first → In layer second →
    first.tokens.length ≤ size → second.tokens.length ≤ size → Stops layer front → Stops layer back →
    first.tokens ++ front = second.tokens ++ back → first = second ∧ front = back

private theorem Linked.stops {layer tighter : Layer} {links : List (Token × Expr)}
    {after : List Token}
    (linked : Linked layer links) (below : layer.rank < tighter.rank) (stops : Stops layer after) :
    Stops tighter (linkTokens links ++ after) := by
  intro token rest split joint joins
  cases links with
  | nil => exact Nat.lt_trans (stops token rest split joint joins) below
  | cons link links =>
    obtain ⟨rfl, _⟩ := List.cons.inj split
    have same := (linked link List.mem_cons_self).1.symm.trans joins
    cases same
    exact below

private theorem unique_links {size : Nat} {layer : Layer} (outer : layer.rank < 4)
    (unique : Unique size layer.tighter) {first second : List (Token × Expr)}
    {front back : List Token} (linked : Linked layer first) (others : Linked layer second)
    (small : (linkTokens first).length ≤ size) (little : (linkTokens second).length ≤ size)
    (stops : Stops layer front) (ends : Stops layer back)
    (same : linkTokens first ++ front = linkTokens second ++ back) :
    first = second ∧ front = back := by
  have below : layer.rank < layer.tighter.rank := by
    revert outer
    cases layer <;> decide
  induction first generalizing second with
  | nil =>
    cases second with
    | nil => exact ⟨rfl, same⟩
    | cons link links =>
      have stuck := stops link.1 _ same layer (others link List.mem_cons_self).1
      exact absurd stuck (Nat.lt_irrefl _)
  | cons link links ih =>
    cases second with
    | nil =>
      have stuck := ends link.1 _ same.symm layer (linked link List.mem_cons_self).1
      exact absurd stuck (Nat.lt_irrefl _)
    | cons other rest' =>
      have tailLinked : Linked layer links := fun link member => linked link (.tail _ member)
      have tailOthers : Linked layer rest' := fun link member => others link (.tail _ member)
      simp only [linkTokens, List.flatMap_cons, List.cons_append, List.append_assoc,
        List.cons.injEq, List.length_cons, List.length_append] at same small little
      obtain ⟨operands, rest⟩ := unique link.2 other.2 _ _
        (linked link List.mem_cons_self).2 (others other List.mem_cons_self).2 (by omega)
        (by omega) (tailLinked.stops below stops) (tailOthers.stops below ends) same.2
      obtain ⟨rfl, rfl⟩ := ih tailLinked tailOthers (by simp only [linkTokens]; omega)
        (by simp only [linkTokens]; omega) rest
      exact ⟨by rw [Prod.ext same.1 operands], rfl⟩

private theorem Unique.chain {size : Nat} {layer : Layer} (outer : layer.rank < 4)
    (unique : Unique size layer.tighter) : Unique size layer := by
  intro first second front back inside within small little stops ends same
  have below : layer.rank < layer.tighter.rank := by
    revert outer
    cases layer <;> decide
  obtain ⟨base, links, rfl, start, linked⟩ := inside.exists_chain outer
  obtain ⟨other, others, rfl, opens, chained⟩ := within.exists_chain outer
  simp only [tokens_chain, List.append_assoc, List.length_append] at same small little
  obtain ⟨rfl, rest⟩ := unique base other _ _ start opens (by omega) (by omega)
    (linked.stops below stops) (chained.stops below ends) same
  obtain ⟨rfl, rfl⟩ := unique_links outer unique linked chained (by omega) (by omega) stops ends rest
  exact ⟨rfl, rfl⟩

/-- The innermost layer: a literal is one token, and a group is what it encloses. -/
theorem unique_primary {size : Nat} (smaller : ∀ less < size, Unique less .equality) :
    Unique size .primary := by
  intro first second front back inside within small little _ _ same
  have literalStart : ∀ {kind : TokenKind}, kind ∈ [.number, .kwTrue, .kwFalse, .kwNil] →
      kind ≠ .leftParen := by
    intro kind member group
    rw [group] at member
    exact absurd member (by decide)
  rcases inside.primary_cases rfl with
    ⟨token, rfl, kind⟩ | ⟨opening, inner, closing, rfl, left, right, inside⟩ <;>
  rcases within.primary_cases rfl with
    ⟨other, rfl, otherKind⟩ | ⟨opening', inner', closing', rfl, left', right', within⟩
  · obtain ⟨rfl, rfl⟩ := List.cons.inj same
    exact ⟨rfl, rfl⟩
  · obtain ⟨rfl, _⟩ := List.cons.inj same
    exact absurd left' (literalStart kind)
  · obtain ⟨rfl, _⟩ := List.cons.inj same
    exact absurd left (literalStart otherKind)
  · simp only [tokens, List.cons_append, List.append_assoc, List.nil_append, List.cons.injEq,
      List.length_cons, List.length_append] at same small little
    have stops : ∀ {closing : Token} {rest : List Token}, closing.kind = .rightParen →
        Stops .equality (closing :: rest) := by
      intro closing rest right token rest' split joint joins
      obtain ⟨rfl, _⟩ := List.cons.inj split
      rw [right] at joins
      cases joins
    obtain ⟨rfl, rest⟩ := smaller (size - 1) (by omega) inner inner' _ _ inside within
      (by omega) (by omega) (stops right) (stops right') same.2
    obtain ⟨rfl, rfl⟩ := List.cons.inj rest
    rw [same.1]
    exact ⟨rfl, rfl⟩

private theorem unique_unary {size : Nat} (smaller : ∀ less < size, Unique less .unary)
    (primary : Unique size .primary) : Unique size .unary := by
  intro first second front back inside within small little stops ends same
  have stopsPrimary : ∀ {tokens : List Token}, Stops .unary tokens → Stops .primary tokens :=
    fun stops token rest split joint joins =>
      Nat.lt_trans (stops token rest split joint joins) (by decide)
  have primaryStart : ∀ {expr : Expr} {operator : Token} {front rest : List Token},
      In .primary expr → operator.kind = .minus ∨ operator.kind = .bang →
      expr.tokens ++ front = operator :: rest → False := by
    intro expr operator front rest inside kind split
    rcases inside.primary_cases rfl with
      ⟨token, rfl, literal⟩ | ⟨opening, inner, closing, rfl, left, _, _⟩
    · obtain ⟨rfl, _⟩ := List.cons.inj split
      rcases kind with kind | kind <;> rw [kind] at literal <;> exact absurd literal (by decide)
    · obtain ⟨rfl, _⟩ := List.cons.inj split
      rcases kind with kind | kind <;> rw [kind] at left <;> cases left
  rcases inside.unary_cases with ⟨operator, operand, rfl, kind, inner⟩ | inner <;>
  rcases within.unary_cases with ⟨operator', operand', rfl, kind', inner'⟩ | inner'
  · simp only [tokens, List.cons_append, List.cons.injEq, List.length_cons] at same small little
    obtain ⟨rfl, rfl⟩ := smaller (size - 1) (by omega) operand operand' _ _ inner inner'
      (by omega) (by omega) stops ends same.2
    rw [same.1]
    exact ⟨rfl, rfl⟩
  · exact (primaryStart inner' kind same.symm).elim
  · exact (primaryStart inner kind' same).elim
  · exact primary first second front back inner inner' small little (stopsPrimary stops)
      (stopsPrimary ends) same

theorem unique (size : Nat) (layer : Layer) : Unique size layer := by
  induction size using Nat.strongRecOn generalizing layer with
  | ind size smaller =>
    have primary := unique_primary fun less below => smaller less below .equality
    have unary := unique_unary (fun less below => smaller less below .unary) primary
    have factor : Unique size .factor := .chain (by decide) unary
    have term : Unique size .term := .chain (by decide) factor
    have comparison : Unique size .comparison := .chain (by decide) term
    have equality : Unique size .equality := .chain (by decide) comparison
    cases layer <;> assumption

/-- Tokens denote at most one expression. -/
theorem Denotes.unique {tokens : List Token} {first second : Expr}
    (denotes : Denotes tokens first) (also : Denotes tokens second) : first = second := by
  obtain ⟨inside, eof, last, rfl⟩ := denotes
  obtain ⟨within, eof', last', same⟩ := also
  have stops : ∀ {eof : Token}, eof.kind = .eof → Stops .equality [eof] := by
    intro eof last token rest split joint joins
    obtain ⟨rfl, _⟩ := List.cons.inj split
    rw [last] at joins
    cases joins
  exact (Expr.unique (max first.tokens.length second.tokens.length) .equality first second
    [eof] [eof'] inside within (Nat.le_max_left _ _) (Nat.le_max_right _ _) (stops last)
    (stops last') same).1

end StackCalc.Expr
