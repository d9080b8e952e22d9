/-! Text as such: bytes that are meant as text, single lines of a text, and text set in
columns. -/

namespace StackCalc

namespace Utf8

def complaint : String := "stream did not contain valid UTF-8"

/-- The text that bytes encode, unless they do not. -/
def decode? (bytes : List UInt8) : Option String :=
  String.fromUTF8? ⟨bytes.toArray⟩

end Utf8

namespace Excerpt

/-- What is left of a text after this many lines, if it has more lines than that. -/
def dropLines : Nat → List Char → Option (List Char)
  | 0, text => some text
  | _ + 1, [] => none
  | count + 1, c :: rest => if c == '\n' then dropLines count rest else dropLines (count + 1) rest

def trimEnd (drop : Char → Bool) (text : List Char) : List Char :=
  (text.reverse.dropWhile drop).reverse

/-- Lines count from 1, and there is always one more of them than newlines.
Carriage returns at the end of a line do not belong to it. -/
def line? (source : String) : Nat → Option String
  | 0 => none
  | index + 1 => (dropLines index source.toList).map fun text =>
    String.ofList (trimEnd (· == '\r') (text.takeWhile (· != '\n')))

end Excerpt

/-! Text that is too wide for its column is never cut. -/

namespace Column

def right (width : Nat) (fill : Char) (text : String) : String :=
  String.ofList (List.replicate (width - text.length) fill) ++ text

def left (width : Nat) (text : String) : String :=
  text ++ String.ofList (List.replicate (width - text.length) ' ')

end Column

end StackCalc
