import StackCalc.Instruction
import StackCalc.Token

/-! How tightly operators bind, and what each kind of token may do at the start of
an expression or after one. -/

namespace StackCalc

/-- Binding levels, loosest first. Some have no operator yet. -/
inductive Precedence where
  | none | assignment | or | and | equality | comparison
  | term | factor | unary | call | primary
  deriving DecidableEq, Repr

namespace Precedence

def rank : Precedence → Nat
  | .none => 0
  | .assignment => 1
  | .or => 2
  | .and => 3
  | .equality => 4
  | .comparison => 5
  | .term => 6
  | .factor => 7
  | .unary => 8
  | .call => 9
  | .primary => 10

instance : LE Precedence := ⟨fun a b => a.rank ≤ b.rank⟩

instance (a b : Precedence) : Decidable (a ≤ b) := inferInstanceAs (Decidable (a.rank ≤ b.rank))

/-- One level tighter, as far as there is one. -/
def next : Precedence → Precedence
  | .none => .assignment
  | .assignment => .or
  | .or => .and
  | .and => .equality
  | .equality => .comparison
  | .comparison => .term
  | .term => .factor
  | .factor => .unary
  | .unary => .call
  | .call | .primary => .primary

end Precedence

inductive Parselet where
  | grouping | unary | binary | number | literal
  deriving DecidableEq, Repr

/-- What a token does where an expression starts, what it does after an operand,
and how tightly it then binds. -/
structure Rule where
  atStart : Option Parselet := none
  afterOperand : Option Parselet := none
  precedence : Precedence := .none
  deriving DecidableEq, Repr

namespace TokenKind

def rule : TokenKind → Rule
  | .leftParen => { atStart := some .grouping }
  | .minus => { atStart := some .unary, afterOperand := some .binary, precedence := .term }
  | .plus => { afterOperand := some .binary, precedence := .term }
  | .slash | .star => { afterOperand := some .binary, precedence := .factor }
  | .bang => { atStart := some .unary }
  | .bangEqual | .equalEqual => { afterOperand := some .binary, precedence := .equality }
  | .greater | .greaterEqual | .less | .lessEqual =>
    { afterOperand := some .binary, precedence := .comparison }
  | .number => { atStart := some .number }
  | .kwFalse | .kwNil | .kwTrue => { atStart := some .literal }
  | _ => {}

def literalOperations : TokenKind → List Operation
  | .kwFalse => [.false]
  | .kwNil => [.nil]
  | .kwTrue => [.true]
  | _ => []

def unaryOperations : TokenKind → List Operation
  | .bang => [.not]
  | .minus => [.negate]
  | _ => []

/-- Three comparisons have no instruction and negate the opposite one. -/
def binaryOperations : TokenKind → List Operation
  | .bangEqual => [.equal, .not]
  | .equalEqual => [.equal]
  | .greater => [.greater]
  | .greaterEqual => [.less, .not]
  | .less => [.less]
  | .lessEqual => [.greater, .not]
  | .plus => [.add]
  | .minus => [.subtract]
  | .star => [.multiply]
  | .slash => [.divide]
  | _ => []

end TokenKind

end StackCalc
