/-! JSON values, and how they are read from a text. The whole grammar of the standard is
read, but for escapes that are half a character, and nothing beyond it. -/

namespace StackCalc

/-- Fields stand in the order in which they are written, also if a key comes twice. -/
inductive Json where
  | null
  | bool (value : Bool)
  | number (value : Rat)
  | string (text : String)
  | array (items : List Json)
  | object (fields : List (String × Json))
  deriving Repr

namespace Json

def isBlank (c : Char) : Bool := c == ' ' || c == '\t' || c == '\n' || c == '\r'

def skip (text : List Char) : List Char := text.dropWhile isBlank

def hexValue? (c : Char) : Option Nat :=
  if c.isDigit then some (c.toNat - '0'.toNat)
  else if 'a' ≤ c && c ≤ 'f' then some (c.toNat - 'a'.toNat + 10)
  else if 'A' ≤ c && c ≤ 'F' then some (c.toNat - 'A'.toNat + 10)
  else none

/-- Four hexadecimal digits, and the text after them. -/
def unit? : List Char → Option (Nat × List Char)
  | a :: b :: c :: d :: text => do
    let a ← hexValue? a
    let b ← hexValue? b
    let c ← hexValue? c
    let d ← hexValue? d
    return (((a * 16 + b) * 16 + c) * 16 + d, text)
  | _ => none

/-- What an escape stands for, read from after the backslash. Beyond sixteen bits a
character takes two units, and neither of these may stand alone. -/
def escaped? : List Char → Option (Char × List Char)
  | '"' :: text => some ('"', text)
  | '\\' :: text => some ('\\', text)
  | '/' :: text => some ('/', text)
  | 'b' :: text => some ('\x08', text)
  | 'f' :: text => some ('\x0c', text)
  | 'n' :: text => some ('\n', text)
  | 'r' :: text => some ('\r', text)
  | 't' :: text => some ('\t', text)
  | 'u' :: text => do
    let (high, text) ← unit? text
    if high.isValidChar then return (Char.ofNat high, text)
    match text with
    | '\\' :: 'u' :: text =>
      let (low, text) ← unit? text
      if high < 0xDC00 && 0xDC00 ≤ low && low < 0xE000 then
        return (Char.ofNat (0x10000 + (high - 0xD800) * 0x400 + (low - 0xDC00)), text)
      none
    | _ => none
  | _ => none

/-- A string up to its closing quote, read from after the opening one. Every round
consumes a character, so the text bounds the rounds. -/
def characters? : (bound : List Char) → List Char → Option (List Char × List Char)
  | _ :: _, '"' :: text => some ([], text)
  | _ :: bound, '\\' :: text => do
    let (c, text) ← escaped? text
    let (more, text) ← characters? bound text
    return (c :: more, text)
  | _ :: bound, c :: text => do
    if c.toNat < 0x20 then none
    let (more, text) ← characters? bound text
    return (c :: more, text)
  | _, _ => none

def string? (text : List Char) : Option (String × List Char) :=
  (characters? text text).map fun (content, text) => (String.ofList content, text)

/-- One digit or more. -/
def digits? (text : List Char) : Option (List Char × List Char) :=
  let digits := text.takeWhile Char.isDigit
  if digits.isEmpty then none else some (digits, text.dropWhile Char.isDigit)

/-- A whole number has no zeros in front. -/
def whole? (text : List Char) : Option (Nat × List Char) := do
  let (digits, text) ← digits? text
  if digits.head? == some '0' && digits.length != 1 then none
  return (Nat.ofDigitChars 10 digits 0, text)

def fraction? : List Char → Option (Rat × List Char)
  | '.' :: text => do
    let (digits, text) ← digits? text
    return (Nat.ofDigitChars 10 digits 0 / 10 ^ digits.length, text)
  | text => some (0, text)

/-- The power of ten that an exponent stands for. -/
def power? : List Char → Option (Rat × List Char)
  | [] => some (1, [])
  | c :: text =>
    if c == 'e' || c == 'E' then do
      let (digits, rest) ← digits? (if text.head? ∈ [some '-', some '+'] then text.tail else text)
      let power : Rat := 10 ^ Nat.ofDigitChars 10 digits 0
      return (if text.head? = some '-' then 1 / power else power, rest)
    else some (1, c :: text)

def unsigned? (text : List Char) : Option (Rat × List Char) := do
  let (whole, text) ← whole? text
  let (fraction, text) ← fraction? text
  let (power, text) ← power? text
  return ((whole + fraction) * power, text)

def number? : List Char → Option (Rat × List Char)
  | '-' :: text => (unsigned? text).map fun (value, text) => (-value, text)
  | text => unsigned? text

section Series

variable {α : Type} (item : List Char → Option (α × List Char)) (close : Char)

/-- One item or more with commas between them, up to the closing mark. -/
def items? : (bound : List Char) → List Char → Option (List α × List Char)
  | [], _ => none
  | _ :: bound, text => do
    let (first, text) ← item text
    match skip text with
    | ',' :: text =>
      let (more, text) ← items? bound text
      return (first :: more, text)
    | c :: text => if c == close then some ([first], text) else none
    | [] => none

/-- What stands in brackets, read from after the opening mark. -/
def series? (text : List Char) : Option (List α × List Char) :=
  if (skip text).head? = some close then some ([], (skip text).tail)
  else items? item close text text

end Series

/-- A key, and a value after the colon. -/
def field? (value : List Char → Option (Json × List Char)) (text : List Char) :
    Option ((String × Json) × List Char) :=
  match skip text with
  | '"' :: text => do
    let (key, text) ← string? text
    match skip text with
    | ':' :: text =>
      let (json, text) ← value text
      return ((key, json), text)
    | _ => none
  | _ => none

/-- Read a value, with `room` for that many values inside each other. -/
def value? : (room : Nat) → List Char → Option (Json × List Char)
  | 0, _ => none
  | room + 1, text =>
    match skip text with
    | 'n' :: 'u' :: 'l' :: 'l' :: text => some (.null, text)
    | 't' :: 'r' :: 'u' :: 'e' :: text => some (.bool true, text)
    | 'f' :: 'a' :: 'l' :: 's' :: 'e' :: text => some (.bool false, text)
    | '"' :: text => (string? text).map fun (content, text) => (.string content, text)
    | '[' :: text => (series? (value? room) ']' text).map fun (items, text) => (.array items, text)
    | '{' :: text =>
      (series? (field? (value? room)) '}' text).map fun (fields, text) => (.object fields, text)
    | text => (number? text).map fun (value, text) => (.number value, text)

/-- Read a text that is one value. Each value inside another takes a character
more, so there is always room. -/
def read? (text : String) : Option Json := do
  let (json, rest) ← value? text.length text.toList
  if (skip rest).isEmpty then return json
  none

end Json

end StackCalc
