import StackCalc.Proofs.DepthCounter
import StackCalc.Proofs.FirstError
import StackCalc.Proofs.Placement

/-! The bound on nesting. An expression that nests too deeply is rejected where, from left to
right, a part that is too deep begins for the first time. -/

namespace StackCalc

open StackCalc.Expr StackCalc.Parser

namespace Expr

/-- A part of the expression that stands at this depth begins with the token, which has
`before` in front of it. The whole is at depth 1, and left operands are no deeper than what
they are operands of. -/
inductive Opens : (depth : Nat) → Expr → (before : List Token) → Token → Prop where
  | whole {expr first more} (tokens : expr.tokens = first :: more) : Opens 1 expr [] first
  | group {depth opening inner closing before token} (part : Opens depth inner before token) :
      Opens (depth + 1) (.group opening inner closing) (opening :: before) token
  | unary {depth operator operand before token} (part : Opens depth operand before token) :
      Opens (depth + 1) (.unary operator operand) (operator :: before) token
  | left {depth left operator right before token} (part : Opens depth left before token) :
      Opens depth (.binary left operator right) before token
  | right {depth left operator right before token} (part : Opens depth right before token) :
      Opens (depth + 1) (.binary left operator right) (left.tokens ++ operator :: before) token

variable {depth : Nat} {expr : Expr} {before : List Token} {token : Token}

private theorem Opens.depth_le (opens : Opens depth expr before token) : depth ≤ expr.nesting := by
  induction opens with
  | whole => exact Expr.nesting_pos _
  | group part ih =>
    simp only [nesting]
    omega
  | unary part ih =>
    simp only [nesting]
    omega
  | left part ih => exact Nat.le_trans ih (Nat.le_max_left _ _)
  | right part ih =>
    simp only [nesting]
    omega

private theorem Opens.split (opens : Opens depth expr before token) :
    ∃ after, expr.tokens = before ++ token :: after := by
  induction opens with
  | whole tokens => exact ⟨_, tokens⟩
  | @group _ opening _ closing _ _ part ih =>
    obtain ⟨after, same⟩ := ih
    exact ⟨after ++ [closing], by simp [tokens, same]⟩
  | unary part ih =>
    obtain ⟨after, same⟩ := ih
    exact ⟨after, by simp [tokens, same]⟩
  | @left _ _ operator right _ _ part ih =>
    obtain ⟨after, same⟩ := ih
    exact ⟨after ++ operator :: right.tokens, by simp [tokens, same]⟩
  | right part ih =>
    obtain ⟨after, same⟩ := ih
    exact ⟨after, by simp [tokens, same]⟩

/-- Of the parts at this depth, the one that begins here begins first. -/
structure OpensFirst (depth : Nat) (expr : Expr) (before : List Token) (token : Token) : Prop where
  opens : Opens depth expr before token
  leftmost : ∀ {others other}, Opens depth expr others other → before.length ≤ others.length

private theorem In.opens_whole {layer : Layer} (inside : In layer expr) (level : Precedence) :
    ∃ before token, OpensFirst 1 expr before token ∧
      Impasse 0 level before token .nestedTooDeeply := by
  obtain ⟨first, more, tokens, _⟩ := inside.tokens_eq_cons
  exact ⟨[], first, ⟨.whole tokens, fun _ => Nat.zero_le _⟩, .depth⟩

/-- Reading with too little room stops at the first part that has none. Left operands come
first, so that the right one only counts if all of the left one can be read. -/
theorem In.opens_first {layer : Layer} (inside : In layer expr) {room : Nat} {level : Precedence}
    (reads : level ≤ layer.precedence) (deep : room < expr.nesting) :
    ∃ before token, OpensFirst (room + 1) expr before token ∧
      Impasse room level before token .nestedTooDeeply := by
  induction inside generalizing room level with
  | literal kind =>
    obtain rfl : room = 0 := Nat.lt_one_iff.mp deep
    exact (In.literal kind).opens_whole level
  | group left right inside ih =>
    cases room with
    | zero => exact (In.group left right inside).opens_whole level
    | succ room =>
      simp only [nesting] at deep
      obtain ⟨before, token, first, impasse⟩ :=
        ih (show .assignment ≤ Layer.equality.precedence by decide) (show room < _ by omega)
      refine ⟨_, token, ⟨.group first.opens, ?_⟩, .group left impasse⟩
      intro others other opens
      cases opens with
      | group part => exact Nat.succ_le_succ (first.leftmost part)
  | unary kind inside ih =>
    cases room with
    | zero => exact (In.unary kind inside).opens_whole level
    | succ room =>
      simp only [nesting] at deep
      obtain ⟨before, token, first, impasse⟩ :=
        ih (show .unary ≤ Layer.unary.precedence by decide) (show room < _ by omega)
      refine ⟨_, token, ⟨.unary first.opens, ?_⟩, .unary kind impasse⟩
      intro others other opens
      cases opens with
      | unary part => exact Nat.succ_le_succ (first.leftmost part)
  | @binary layer left operator right joins first second ihLeft ihRight =>
    cases room with
    | zero => exact (In.binary joins first second).opens_whole level
    | succ room =>
      by_cases leftDeep : room + 1 < left.nesting
      · obtain ⟨before, token, start, impasse⟩ := ihLeft reads leftDeep
        refine ⟨before, token, ⟨.left start.opens, ?_⟩, impasse⟩
        intro others other opens
        cases opens with
        | left part => exact start.leftmost part
        | right part =>
          obtain ⟨after, split⟩ := start.opens.split
          simp only [split, List.length_append]
          omega
      · have fits := Nat.le_of_not_lt leftDeep
        simp only [nesting] at deep
        obtain ⟨before, token, start, impasse⟩ :=
          ihRight (Layer.next_precedence_le (Layer.rank_of_ofOperator? joins))
            (show room < _ by omega)
        refine ⟨_, token, ⟨.right start.opens, ?_⟩, .binary joins reads first fits impasse⟩
        intro others other opens
        cases opens with
        | left part => exact absurd part.depth_le leftDeep
        | right part =>
          have later := start.leftmost part
          simp only [List.length_append, List.length_cons]
          omega
  | @looser layer expr inside ih =>
    have below := layer.precedence_le_tighter
    exact ih (Nat.le_trans reads below) deep

end Expr

section Source

variable {source : String} {chunk : Chunk} {expr : Expr}

/-- The error is at the part that is too deep, whatever follows it. -/
theorem errors_of_deep (denotes : Denotes (tokensOf source) expr)
    (room : expr.numbers.length ≤ maxConstants - chunk.constants.size)
    (deep : maxNesting < expr.nesting) :
    ∃ before token, OpensFirst (maxNesting + 1) expr before token ∧
      (Assembly.ofTokens (tokensOf source) chunk).errors =
        [⟨token.line, .at token.lexeme, Objection.nestedTooDeeply.message⟩] := by
  have ended := ended_tokensOf source
  have readings := readings_tokensOf source
  have clean := denotes.clean
  obtain ⟨inside, eof, last, whole⟩ := denotes
  obtain ⟨before, token, first, impasse⟩ :=
    inside.opens_first (show .assignment ≤ Layer.equality.precedence by decide) deep
  obtain ⟨after, split⟩ := first.opens.split
  have tokens : tokensOf source = before ++ token :: (after ++ [eof]) := by simp [whole, split]
  have front : (before.filter (·.kind = .number)).length ≤ maxConstants - chunk.constants.size := by
    rw [numbers, split, List.filter_append, List.length_append] at room
    exact Nat.le_trans (Nat.le_add_right _ _) room
  have located : Location.ofToken token = .at token.lexeme := by
    have inner : token.kind ∉ [.error, .eof] := inside.inner token (by simp [split])
    simp only [List.mem_cons, List.not_mem_nil, or_false, not_or] at inner
    simp [Location.ofToken, inner]
  refine ⟨before, token, first, ?_⟩
  rw [tokens] at clean ended readings ⊢
  rw [(Rejects.impasse impasse).errors clean ended readings front, CompileError.atToken, located]

private theorem errors_ne_nil_iff_deep (denotes : Denotes (tokensOf source) expr)
    (room : expr.numbers.length ≤ maxConstants - chunk.constants.size) :
    (Assembly.ofTokens (tokensOf source) chunk).errors ≠ [] ↔ maxNesting < expr.nesting := by
  have accepted := errors_ofTokens_iff (ended_tokensOf source) (readings_tokensOf source) chunk
  constructor
  · intro rejected
    apply Nat.lt_of_not_le
    intro fits
    exact rejected (accepted.mpr
      ⟨denotes.clean, expr, denotes, denotes.filter_number ▸ room, fits⟩)
  · intro deep none
    obtain ⟨before, token, _, one⟩ := errors_of_deep denotes room deep
    exact List.cons_ne_nil _ _ (one.symm.trans none)

end Source

/-- A source that only fails for its nesting fails if and only if it nests deeper than 1024,
and is rejected where a part begins that is too deep. If the depth is counted, the counter
is back where it was behind every expression and never above 1024; and wherever the parser
gets to in a source, with or without errors, counting comes to the same as being told the
room. -/
theorem nesting_limit_at_first_deep_part (config : Config) (source : String) (chunk : Chunk) :
    (∀ expr, Denotes (tokensOf source) expr →
      expr.numbers.length ≤ 256 - chunk.constants.size →
      ((compile config source chunk).errors ≠ [] ↔ 1024 < expr.nesting) ∧
      (1024 < expr.nesting → ∃ before token, OpensFirst 1025 expr before token ∧
        (compile config source chunk).errors =
          [⟨token.line, .at token.lexeme, "Expression nested too deeply."⟩])) ∧
    (∀ level before counts after, Counted.Performs (.read level) before counts after →
      after.depth = before.depth ∧
      (before.depth ≤ 1024 → ∀ depth ∈ counts, depth ≤ 1024)) ∧
    ∀ (level : Precedence) (before : Counted), .assignment ≤ level → before.depth ≤ 1024 →
      Steps (ofTokens (tokensOf source)).advance before.parser →
      ∃ counts after, Counted.Performs (.read level) before counts after ∧
        after.parser = Parser.expression (1024 - before.depth) level before.parser ∧
        ∀ others last, Counted.Performs (.read level) before others last → last = after := by
  refine ⟨?_, ?_, ?_⟩
  · intro expr denotes room
    exact ⟨errors_ne_nil_iff_deep denotes room, errors_of_deep denotes room⟩
  · intro level before counts after performs
    exact ⟨performs.depth_eq, performs.counts_le⟩
  · intro level before tight within steps
    obtain ⟨ready, _⟩ := (Ready.ofTokens (ended_tokensOf source)).steps steps
    obtain ⟨counts, after, performs⟩ := Counted.exists_performs tight ready within
    have parser := performs.parser_eq tight ready within
    refine ⟨counts, after, performs, parser, ?_⟩
    intro others last also
    have same : last.parser = after.parser := (also.parser_eq tight ready within).trans parser.symm
    have depth : last.depth = after.depth := also.depth_eq.trans performs.depth_eq.symm
    cases last
    cases after
    simp_all

/-- A word with minuses in front of it. -/
def negated : Nat → Expr
  | 0 => .literal ⟨.kwNil, "nil", 1⟩
  | times + 1 => .unary ⟨.minus, "-", 1⟩ (negated times)

def negatedText : Nat → List Char
  | 0 => ['n', 'i', 'l']
  | times + 1 => '-' :: negatedText times

private theorem tiling_negatedText (times : Nat) :
    ∃ tiles, Tiling (negatedText times) tiles [] ∧
      Tile.tokens 1 tiles = (negated times).tokens := by
  induction times with
  | zero =>
    have munch : Munch ['n', 'i', 'l'] [] .kwNil "nil" := munch_read 'n' ['i', 'l'] 0
    exact ⟨_, .cons (bare_of_not_mem (by decide) _) munch (.ended (.none bare_nil)), rfl⟩
  | succ times ih =>
    obtain ⟨tiles, tiling, tokens⟩ := ih
    have munch : Munch ['-'] (negatedText times) .minus "-" := munch_read '-' _ 0
    refine ⟨_, .cons (bare_of_not_mem (by decide) _) munch tiling, ?_⟩
    simp [Tile.tokens, Tile.whole, Expr.tokens, negated, tokens]

private theorem in_negated (times : Nat) : In .unary (negated times) := by
  induction times with
  | zero => exact .looser (.literal (by decide))
  | succ times ih => exact .unary (.inl rfl) ih

private theorem denotes_negated (times : Nat) :
    Denotes (tokensOf (String.ofList (negatedText times))) (negated times) := by
  obtain ⟨tiles, tiling, tokens⟩ := tiling_negatedText times
  exact ⟨(in_negated times).equality, _, rfl, tokens ▸ tokensOf_ofList tiling⟩

private theorem nesting_negated (times : Nat) : (negated times).nesting = times + 1 := by
  induction times with
  | zero => rfl
  | succ times ih => rw [negated, nesting, ih, Nat.add_comm]

private theorem numbers_negated (times : Nat) : (negated times).numbers = [] := by
  induction times with
  | zero => rfl
  | succ times ih => exact (numbers_unary (.inl rfl)).trans ih

private theorem opens_negated {times : Nat} {before : List Token} {token : Token}
    (opens : Opens (times + 1) (negated times) before token) : token = ⟨.kwNil, "nil", 1⟩ := by
  induction times generalizing before with
  | zero =>
    cases opens with
    | whole tokens => exact (List.cons.inj tokens).1.symm
  | succ times ih =>
    cases opens with
    | unary part => exact ih part

/-- Behind 1024 minuses the word is too deep, and the counter is at 0 again. -/
theorem nesting_limit_at_negated_word :
    let source := String.ofList (negatedText 1024)
    (compile {} source .empty).errors = [⟨1, .at "nil", "Expression nested too deeply."⟩] ∧
      ∃ counts after, Counted.Performs (.read .assignment) ⟨(ofTokens (tokensOf source)).advance, 0⟩
        counts after ∧ after.depth = 0 ∧ ∀ depth ∈ counts, depth ≤ 1024 := by
  intro source
  let start : Counted := ⟨(ofTokens (tokensOf source)).advance, 0⟩
  obtain ⟨located, balanced, counted⟩ := nesting_limit_at_first_deep_part {} source .empty
  constructor
  · have room : (negated 1024).numbers.length ≤ 256 - Chunk.empty.constants.size := by
      rw [numbers_negated]
      exact Nat.zero_le _
    have deep : 1024 < (negated 1024).nesting := by
      rw [nesting_negated]
      exact Nat.lt_succ_self 1024
    obtain ⟨before, token, first, one⟩ := (located _ (denotes_negated 1024) room).2 deep
    rw [one, opens_negated first.opens]
  · obtain ⟨counts, after, performs, _⟩ :=
      counted .assignment start (by decide) (Nat.zero_le _) .refl
    obtain ⟨depth, within⟩ := balanced _ _ _ _ performs
    exact ⟨counts, after, performs, depth, within (Nat.zero_le _)⟩

end StackCalc
