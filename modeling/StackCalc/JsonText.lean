import StackCalc.Diagnostic
import StackCalc.Text

/-! Diagnostics as JSON, an object on one line. -/

namespace StackCalc

namespace JsonText

/-- The short escape of a character, or its code in hexadecimal for the other
control characters. -/
def escape (c : Char) : List Char :=
  if c == '"' then ['\\', '"']
  else if c == '\\' then ['\\', '\\']
  else if c == '\n' then ['\\', 'n']
  else if c == '\r' then ['\\', 'r']
  else if c == '\t' then ['\\', 't']
  else if c == '\x08' then ['\\', 'b']
  else if c == '\x0c' then ['\\', 'f']
  else if c.toNat < 0x20 then
    ['\\', 'u', '0', '0', Nat.digitChar (c.toNat / 16), Nat.digitChar (c.toNat % 16)]
  else [c]

def quoted (text : String) : String :=
  "\"" ++ String.ofList (text.toList.flatMap escape) ++ "\""

def object (fields : List (String × String)) : String :=
  "\x7b" ++ ",".intercalate (fields.map fun (key, value) => quoted key ++ ":" ++ value) ++ "\x7d"

end JsonText

open JsonText in
/-- The keys are in alphabetical order. The location is left out if there is none. -/
def Diagnostic.json (diagnostic : Diagnostic) : String :=
  object <|
    [("line", (diagnostic.line.map toString).getD "null")] ++
    (diagnostic.location.map fun location => ("location", quoted location)).toList ++
    [("message", quoted diagnostic.message), ("phase", quoted diagnostic.phase.word),
      ("severity", quoted diagnostic.severity.word)]

end StackCalc
