import StackCalc.Expr
import StackCalc.Machine

/-! What an expression means: evaluation of the tree from left to right, without
any code. -/

namespace StackCalc.Expr

/-- A literal needs a free place besides the operands that are already waiting. -/
def literalValue (token : Token) (waiting : Nat) : Except RuntimeError Value :=
  let value := match token.kind with
    | .number => .number ((Numeral.read? token.lexeme).getD (Float.ofBits 0))
    | .kwTrue => .bool true
    | .kwFalse => .bool false
    | _ => .nil
  if waiting < maxStack then .ok value else .error ⟨.stackOverflow, token.line⟩

def unaryValue (operator : TokenKind) (operand : Value) : Except Fault Value :=
  match operator, operand with
  | .minus, .number x => .ok (.number (-x))
  | .minus, _ => .error .operandMustBeNumber
  | _, operand => .ok (.bool operand.isFalsey)

/-- Any two values have or lack equality; all other operators want numbers. A
comparison that allows for equality denies the opposite one, also for NaN. -/
def binaryValue (operator : TokenKind) (left right : Value) : Except Fault Value :=
  match operator, left, right with
  | .equalEqual, a, b => .ok (.bool (a == b))
  | .bangEqual, a, b => .ok (.bool !(a == b))
  | .less, .number x, .number y => .ok (.bool (x < y))
  | .lessEqual, .number x, .number y => .ok (.bool !decide (x > y))
  | .greater, .number x, .number y => .ok (.bool (x > y))
  | .greaterEqual, .number x, .number y => .ok (.bool !decide (x < y))
  | .plus, .number x, .number y => .ok (.number (x + y))
  | .minus, .number x, .number y => .ok (.number (x - y))
  | .star, .number x, .number y => .ok (.number (x * y))
  | .slash, .number x, .number y => .ok (.number (x / y))
  | _, _, _ => .error .operandsMustBeNumbers

/-- Evaluate while `waiting` operands of the surrounding expression are pending. A
fault is on the line of the last token of the part that fails. -/
def evaluate (waiting : Nat) : Expr → Except RuntimeError Value
  | .literal token => literalValue token waiting
  | .group _ inner _ => inner.evaluate waiting
  | .unary operator operand => do
    let value ← operand.evaluate waiting
    (unaryValue operator.kind value).mapError (⟨·, operand.lastLine⟩)
  | .binary left operator right => do
    let a ← left.evaluate waiting
    let b ← right.evaluate (waiting + 1)
    (binaryValue operator.kind a b).mapError (⟨·, right.lastLine⟩)

end StackCalc.Expr
