import StackCalc.Parser

/-! Expressions as trees over the tokens they are written with. The parser builds
no trees; they say what it should have understood. -/

namespace StackCalc

inductive Expr where
  | literal (token : Token)
  | group (opening : Token) (inner : Expr) (closing : Token)
  | unary (operator : Token) (operand : Expr)
  | binary (left : Expr) (operator : Token) (right : Expr)
  deriving DecidableEq, Repr

/-- The layers of the grammar, loosest first. -/
inductive Layer where
  | equality | comparison | term | factor | unary | primary
  deriving DecidableEq, Repr

def Layer.tighter : Layer → Layer
  | .equality => .comparison
  | .comparison => .term
  | .term => .factor
  | .factor => .unary
  | .unary | .primary => .primary

def Layer.ofOperator? : TokenKind → Option Layer
  | .equalEqual | .bangEqual => some .equality
  | .less | .lessEqual | .greater | .greaterEqual => some .comparison
  | .plus | .minus => some .term
  | .star | .slash => some .factor
  | _ => none

namespace Expr

/-- The tree belongs to a layer of the grammar. Operators of one layer associate to
the left, since only the left operand may be of the same layer. -/
inductive In : Layer → Expr → Prop where
  | literal {token} (kind : token.kind ∈ [.number, .kwTrue, .kwFalse, .kwNil]) :
      In .primary (.literal token)
  | group {opening inner closing} (left : opening.kind = .leftParen)
      (right : closing.kind = .rightParen) (inside : In .equality inner) :
      In .primary (.group opening inner closing)
  | unary {operator operand} (kind : operator.kind = .minus ∨ operator.kind = .bang)
      (inside : In .unary operand) : In .unary (.unary operator operand)
  | binary {layer left operator right} (kind : Layer.ofOperator? operator.kind = some layer)
      (first : In layer left) (second : In layer.tighter right) :
      In layer (.binary left operator right)
  | looser {layer expr} (inside : In layer.tighter expr) : In layer expr

def tokens : Expr → List Token
  | .literal token => [token]
  | .group opening inner closing => opening :: inner.tokens ++ [closing]
  | .unary operator operand => operator :: operand.tokens
  | .binary left operator right => left.tokens ++ operator :: right.tokens

/-- How deep the expression nests. A left operand is no deeper than the whole. -/
def nesting : Expr → Nat
  | .literal _ => 1
  | .group _ inner _ => 1 + inner.nesting
  | .unary _ operand => 1 + operand.nesting
  | .binary left _ right => max left.nesting (1 + right.nesting)

def numbers (expr : Expr) : List Token := expr.tokens.filter (·.kind = .number)

def last : Expr → Token
  | .literal token => token
  | .group _ _ closing => closing
  | .unary _ operand => operand.last
  | .binary _ _ right => right.last

def lastLine (expr : Expr) : Nat := expr.last.line

/-- The tokens, with the end after them, are those of the expression. -/
def Denotes (tokens : List Token) (expr : Expr) : Prop :=
  In .equality expr ∧ ∃ eof : Token, eof.kind = .eof ∧ tokens = expr.tokens ++ [eof]

/-- Operands first, then what joins them, on the line of the last token. -/
def directives : Expr → List Directive
  | .literal token =>
    if token.kind = .number then [.number token]
    else token.kind.literalOperations.map (.operation · token.line)
  | .group _ inner _ => inner.directives
  | .unary operator operand =>
    operand.directives ++ operator.kind.unaryOperations.map (.operation · operand.lastLine)
  | .binary left operator right =>
    left.directives ++ right.directives ++
      operator.kind.binaryOperations.map (.operation · right.lastLine)

end Expr

end StackCalc
