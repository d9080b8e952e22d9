import StackCalc.Numeral

/-! Values of the language. -/

namespace StackCalc

inductive Value where
  | nil
  | bool (b : Bool)
  | number (x : Float)

namespace Value

/-- Values of different kinds are never equal. Numbers compare by IEEE 754: zero
equals negative zero, and NaN equals nothing. -/
def equals : Value → Value → Bool
  | .nil, .nil => true
  | .bool a, .bool b => a == b
  | .number x, .number y => x == y
  | _, _ => false

instance : BEq Value := ⟨equals⟩

def asNumber? : Value → Option Float
  | .number x => some x
  | _ => none

/-- Besides `nil` and `false`, zero of either sign counts as false. -/
def isFalsey : Value → Bool
  | .nil => true
  | .bool b => !b
  | .number x => x == Float.ofBits 0

def text : Value → String
  | .nil => "nil"
  | .bool true => "true"
  | .bool false => "false"
  | .number x => Numeral.text x

def json : Value → String
  | .nil => "null"
  | .bool true => "true"
  | .bool false => "false"
  | .number x => Numeral.json x

end Value

end StackCalc
