import StackCalc.Decimal

/-! Two layouts for numbers: plain digits however many they take, and the layout
of JSON, which turns to an exponent when the digits would not end near the point. -/

namespace StackCalc

namespace Decimal

/-- Digits on both sides of the point, with zeros filled in up to it. -/
def plain (decimal : Decimal) : List Char :=
  let digits := decimal.digits
  let places := (-decimal.exponent).toNat
  if places = 0 then digits ++ List.replicate decimal.exponent.toNat '0'
  else if places < digits.length then
    let whole := digits.length - places
    digits.take whole ++ '.' :: digits.drop whole
  else '0' :: '.' :: (List.replicate (places - digits.length) '0' ++ digits)

/-- One digit before the point and an exponent that always shows its sign. -/
def scientific (decimal : Decimal) : List Char :=
  let mantissa := match decimal.digits with
    | first :: second :: more => first :: '.' :: second :: more
    | digits => digits
  let exponent := decimal.leading
  mantissa ++ 'e' :: (if exponent < 0 then '-' else '+') :: Nat.toDigits 10 exponent.natAbs

/-- Plain from the fifth place after the point to the sixteenth before it, and
then never without a fraction. -/
def json (decimal : Decimal) : List Char :=
  if -5 ≤ decimal.leading && decimal.leading < 16 then
    if decimal.exponent < 0 then decimal.plain else decimal.plain ++ ['.', '0']
  else decimal.scientific

end Decimal

namespace Numeral

open Binary64

/-- The digits of a finite number in a layout, after the sign. -/
def signed (x : Float) (tie : Tie) (layout : Decimal → List Char) : String :=
  let text := layout (Decimal.shortest tie (magnitude x))
  String.ofList (if isNegative x then '-' :: text else text)

/-- A number for reading: never an exponent, `-0` keeps its sign, and a tie goes up. -/
def text (x : Float) : String :=
  if infinity < magnitude x then "NaN"
  else if magnitude x = infinity then (if isNegative x then "-inf" else "inf")
  else signed x .up Decimal.plain

/-- JSON has no words for the numbers that are not finite. A tie goes to the even
digit. -/
def json (x : Float) : String :=
  if infinity ≤ magnitude x then "null" else signed x .even Decimal.json

/-- The float that a number literal stands for; too large is infinity. -/
def read? (literal : String) : Option Float :=
  (Decimal.ofDigits? literal.toList).map fun decimal => ofMagnitude decimal.magnitude

end Numeral

end StackCalc
