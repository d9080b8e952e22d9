import StackCalc.Diagnostic
import StackCalc.Text

/-! Diagnostics as text for people, with or without colour. -/

namespace StackCalc

/-- The kinds of emphasis, by the code that turns each of them on. -/
inductive Style where
  | bold
  | boldRed
  | cyan
  deriving DecidableEq, Repr

namespace Style

def code : Style → String
  | .bold => "1"
  | .boldRed => "1;31"
  | .cyan => "36"

/-- Emphasis ends where the text ends. -/
def paint (style : Style) (colour : Bool) (text : String) : String :=
  if colour then "\x1b[" ++ style.code ++ "m" ++ text ++ "\x1b[0m" else text

end Style

namespace Diagnostic

def label (diagnostic : Diagnostic) : String :=
  match diagnostic.phase with
  | .compile => diagnostic.severity.word
  | .runtime => "runtime " ++ diagnostic.severity.word

def headline (diagnostic : Diagnostic) (colour : Bool) : String :=
  Style.boldRed.paint colour diagnostic.label ++ ": " ++
    Style.bold.paint colour diagnostic.message ++ "\n"

def place (diagnostic : Diagnostic) (line : Nat) : String :=
  "line " ++ toString line ++
    match diagnostic.location, diagnostic.phase with
    | some location, _ => ", " ++ location
    | none, .runtime => ", in script"
    | none, .compile => ""

/-- A source line with its number, between two empty lines of gutter. -/
def excerpt (colour : Bool) (line : Nat) (text : String) : String :=
  let number := toString line
  let pipe := Style.cyan.paint colour "|"
  let blank := Column.left number.length "" ++ " " ++ pipe ++ "\n"
  blank ++ Style.cyan.paint colour number ++ " " ++ pipe ++ " " ++ text ++ "\n" ++ blank

def render (diagnostic : Diagnostic) (colour : Bool) : String :=
  diagnostic.headline colour ++
    match diagnostic.line with
    | none => ""
    | some line =>
      "  " ++ Style.cyan.paint colour "-->" ++ " " ++ diagnostic.place line ++ "\n" ++
        match diagnostic.source.bind (Excerpt.line? · line) with
        | some text => excerpt colour line text
        | none => ""

end Diagnostic

end StackCalc
