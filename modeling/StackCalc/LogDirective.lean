import StackCalc.Event
import StackCalc.Pattern

/-! A directive says which events it decides over and up to which level it admits
them. It is written `target[span{field}]=level`, and each part may be missing. -/

namespace StackCalc

structure LogDirective where
  target : String := ""
  span : Option String := none
  field : Option String := none
  detail : Nat := Level.trace.detail
  deriving DecidableEq, Repr

namespace LogDirective

open CharacterClass

/-- Events happen outside of every span, so a directive about a span has no say. -/
def concerns (directive : LogDirective) (event : Event) : Bool :=
  directive.span.isNone && directive.target.toList.isPrefixOf event.target.toList &&
    directive.field.all fun name => event.fieldNames.contains name

/-- The longer target is more specific, and so is a field if the targets are the
same; two fields are ordered by name. -/
def yieldsTo (directive other : LogDirective) : Bool :=
  ((compare directive.target.length other.target.length).then
    (compare directive.field other.field)).isLE

def detail? (word : String) : Option Nat :=
  match ["off", "error", "warn", "info", "debug", "trace"].idxOf? word.toLower with
  | some detail => some detail
  | none =>
    let digits := match word.toList with
      | '+' :: digits => digits
      | digits => digits
    let number := digits.foldl (fun number c => 10 * number + (c.toNat - '0'.toNat)) 0
    if !digits.isEmpty && digits.all Char.isDigit && number ≤ Level.trace.detail then some number
    else none

/-- A target starts as a name does. -/
def opensTarget (c : Char) : Bool :=
  isAlphanumeric c || c == '-' || c == ':' || c == '_'

/-- Digits, perhaps with a fraction and an exponent, or a word for no finite number. -/
def isNumber (text : List Char) : Bool :=
  let whole := text.takeWhile Char.isDigit
  let (fraction, rest) := match text.dropWhile Char.isDigit with
    | '.' :: rest => (rest.takeWhile Char.isDigit, rest.dropWhile Char.isDigit)
    | rest => ([], rest)
  let ends := match rest with
    | [] => true
    | mark :: '+' :: digits | mark :: '-' :: digits | mark :: digits =>
      mark.toLower == 'e' && !digits.isEmpty && digits.all Char.isDigit
  (!(whole ++ fraction).isEmpty && ends) ||
    ["inf", "infinity", "nan"].contains (String.ofList (text.map Char.toLower))

/-- What a field may be asked to be: a number or a pattern. Only with a plus in
front is a number no pattern. -/
def isDemand : List Char → Bool
  | '+' :: text => isNumber text
  | text => Pattern.isWellFormed text

/-- A field is a name, with a demand after an equals sign if there is one. -/
def isField (field : List Char) : Bool :=
  match field.dropWhile (· != '=') with
  | _ :: value => isDemand (value.takeWhile (· != '='))
  | [] => !field.isEmpty

/-! The parts of a directive are found in the text without the blanks in front of it.
They are taken from the same places of the whole text, so that such blanks shift them. -/

def byteSize (text : List Char) : Nat := (String.ofList text).utf8ByteSize

/-- The part of a text between two places, which count bytes. -/
def cut (text : String) (start stop : Nat) : String :=
  (String.fromUTF8? (text.toUTF8.extract start stop)).getD ""

/-- The part as long as `found`, at whose place `rest` is what remains of `body`. -/
def part (text : String) (body rest found : List Char) : String :=
  let start := byteSize body - byteSize rest
  cut text start (start + byteSize found)

/-- A span after its opening bracket: its name, its field with what remains there,
and the rest. -/
def span? (text : List Char) : Option (List Char × Option (List Char × List Char) × List Char) :=
  let name := text.takeWhile fun c => c != ']' && c != '{'
  match text.dropWhile fun c => c != ']' && c != '{' with
  | ']' :: rest => some (name, none, rest)
  | '{' :: field =>
    match field.dropWhile (· != '}') with
    | '}' :: ']' :: rest => some (name, some (field.takeWhile (· != '}'), field), rest)
    | _ => none
  | _ => none

/-- The detail set by what remains after a target or a span. Without a level
everything is admitted. -/
def detailAfter? (text : String) (body : List Char) : List Char → Option Nat
  | '=' :: rest =>
    let level := cut text (byteSize body - byteSize rest) text.utf8ByteSize
    if level.isEmpty then some Level.trace.detail else detail? level
  | rest => if rest.all isBlank then some Level.trace.detail else none

/-- Read a directive. A word alone is a level if it can be. -/
def ofString? (text : String) : Option LogDirective := do
  let body := text.toList.dropWhile isBlank
  guard (body.head?.any fun c => c == '[' || opensTarget c)
  let target := part text body body (body.takeWhile fun c => c != '=' && c != '[')
  match body.dropWhile fun c => c != '=' && c != '[' with
  | [] =>
    match detail? text with
    | some detail => return { detail }
    | none => return { target := text }
  | '[' :: inner =>
    let (name, field?, rest) ← span? inner
    let detail ← detailAfter? text body rest
    match field? with
    | none => return { target, span := part text body inner name, detail }
    | some (field, remaining) =>
      let field := part text body remaining field
      guard (isField field.toList)
      let span := if name.isEmpty then none else some (part text body inner name)
      return { target, span, field, detail }
  | rest => return { target, detail := ← detailAfter? text body rest }

end LogDirective

end StackCalc
