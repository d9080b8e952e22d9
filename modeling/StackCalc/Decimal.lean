import StackCalc.Binary64

/-! Decimal numbers and the magnitudes they stand for. Written numbers have the
fewest digits that still read back, and of those the digits nearest to the value.
Two of them may be equally near; then the layout of the number has to choose. -/

namespace StackCalc

/-- The number `coefficient * 10 ^ exponent`. -/
structure Decimal where
  coefficient : Nat
  exponent : Int
  deriving DecidableEq, Repr

/-- Which of two equally near neighbours is written. -/
inductive Tie where
  | up
  | even
  deriving DecidableEq, Repr

/-- Whether `whole + left / den` is to be rounded down. -/
def Tie.roundsDown (tie : Tie) (whole left den : Nat) : Bool :=
  match compare (2 * left) den with
  | .lt => true
  | .eq => tie == .even && whole % 2 == 0
  | .gt => false

namespace Decimal

open Binary64

def magnitude (decimal : Decimal) : Nat :=
  nearest (decimal.coefficient * Nat.pow 10 decimal.exponent.toNat)
    (Nat.pow 10 (-decimal.exponent).toNat)

def ofDigits? (text : List Char) : Option Decimal :=
  let whole := text.takeWhile Char.isDigit
  if whole.isEmpty then none
  else match text.dropWhile Char.isDigit with
    | [] => some ⟨Nat.ofDigitChars 10 whole 0, 0⟩
    | '.' :: fraction =>
      if !fraction.isEmpty && fraction.all Char.isDigit then
        some ⟨Nat.ofDigitChars 10 (whole ++ fraction) 0, -fraction.length⟩
      else none
    | _ => none

/-- The magnitude written out in full, which is always possible and often long. -/
def exact (bits : Nat) : Decimal := ⟨units bits * Nat.pow 5 leastPlace, -leastPlace⟩

/-- A number of at most this many places that reads back: the nearer neighbour
of the magnitude on that grid, or else the other. -/
def onGrid (tie : Tie) (bits : Nat) (exponent : Int) : Option Decimal :=
  let num := units bits * Nat.pow 10 (-exponent).toNat
  let den := unitsInOne * Nat.pow 10 exponent.toNat
  let below : Decimal := ⟨num / den, exponent⟩
  let above : Decimal := ⟨num / den + 1, exponent⟩
  let neighbours :=
    if tie.roundsDown (num / den) (num % den) den then [below, above] else [above, below]
  neighbours.find? (·.magnitude == bits)

/-- Try finer and finer grids. -/
def search (tie : Tie) (bits : Nat) : (grids : Nat) → (exponent : Int) → Option Decimal
  | 0, _ => none
  | grids + 1, exponent => onGrid tie bits exponent <|> search tie bits grids (exponent - 1)

/-- The search starts at or above the first digit, since log10 2 is a little more
than 1233/4096, and 17 digits always suffice. -/
def shortest (tie : Tie) (bits : Nat) : Decimal :=
  if bits = 0 then ⟨0, 0⟩
  else
    let start := (((units bits).log2 : Int) - leastPlace) * 1233 / 4096 + 1
    (search tie bits 20 start).getD (exact bits)

def digits (decimal : Decimal) : List Char := Nat.toDigits 10 decimal.coefficient

def leading (decimal : Decimal) : Int := decimal.exponent + decimal.digits.length - 1

end Decimal

end StackCalc
