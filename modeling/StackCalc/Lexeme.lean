import StackCalc.Token

/-! One lexeme at the head of a text that does not start with layout. The longest
reading wins, every reading takes at least one character, and what is taken and
what is left always join up to the text again. -/

namespace StackCalc

inductive LexicalError where
  | unexpectedCharacter
  | unterminatedString
  deriving DecidableEq, Repr

def LexicalError.message : LexicalError → String
  | .unexpectedCharacter => "Unexpected character."
  | .unterminatedString => "Unterminated string."

structure Lexeme where
  form : Except LexicalError TokenKind
  text : List Char
  rest : List Char

namespace Lexeme

def isLetter (c : Char) : Bool := c.isAlpha || c == '_'

def isWordChar (c : Char) : Bool := isLetter c || c.isDigit

/-- A letter or underscore and all the letters, underscores and digits after it. -/
def word (c : Char) (rest : List Char) : Lexeme :=
  let text := c :: rest.takeWhile isWordChar
  ⟨.ok (.ofWord (String.ofList text)), text, rest.dropWhile isWordChar⟩

/-- Digits, and a fraction if a point and one more digit follow: `12.` is a
number and a point. -/
def number (c : Char) (rest : List Char) : Lexeme :=
  let whole := c :: rest.takeWhile Char.isDigit
  match rest.dropWhile Char.isDigit with
  | '.' :: d :: after =>
    if d.isDigit then
      ⟨.ok .number, whole ++ '.' :: d :: after.takeWhile Char.isDigit,
        after.dropWhile Char.isDigit⟩
    else ⟨.ok .number, whole, '.' :: d :: after⟩
  | after => ⟨.ok .number, whole, after⟩

/-- Everything up to the next quote, newlines included; without one, everything. -/
def quoted (rest : List Char) : Lexeme :=
  let body := '"' :: rest.takeWhile (· != '"')
  match rest.dropWhile (· != '"') with
  | [] => ⟨.error .unterminatedString, body, []⟩
  | quote :: after => ⟨.ok .string, body ++ [quote], after⟩

/-- A character that may be joined by an equals sign. -/
def comparison (c : Char) (alone joined : TokenKind) : List Char → Lexeme
  | '=' :: after => ⟨.ok joined, [c, '='], after⟩
  | rest => ⟨.ok alone, [c], rest⟩

/-- Punctuation and operators; any other character stands alone as an error. -/
def symbol (c : Char) (rest : List Char) : Lexeme :=
  match c with
  | '(' => ⟨.ok .leftParen, [c], rest⟩
  | ')' => ⟨.ok .rightParen, [c], rest⟩
  | '{' => ⟨.ok .leftBrace, [c], rest⟩
  | '}' => ⟨.ok .rightBrace, [c], rest⟩
  | ',' => ⟨.ok .comma, [c], rest⟩
  | '.' => ⟨.ok .dot, [c], rest⟩
  | '-' => ⟨.ok .minus, [c], rest⟩
  | '+' => ⟨.ok .plus, [c], rest⟩
  | ';' => ⟨.ok .semicolon, [c], rest⟩
  | '/' => ⟨.ok .slash, [c], rest⟩
  | '*' => ⟨.ok .star, [c], rest⟩
  | '!' => comparison c .bang .bangEqual rest
  | '=' => comparison c .equal .equalEqual rest
  | '>' => comparison c .greater .greaterEqual rest
  | '<' => comparison c .less .lessEqual rest
  | _ => ⟨.error .unexpectedCharacter, [c], rest⟩

/-- The lexeme that starts with `c`, where `rest` follows. -/
def read (c : Char) (rest : List Char) : Lexeme :=
  if isLetter c then word c rest
  else if c.isDigit then number c rest
  else if c == '"' then quoted rest
  else symbol c rest

/-- Newlines only occur inside strings, closed or not. -/
def newlines (lexeme : Lexeme) : Nat := lexeme.text.count '\n'

def token (lexeme : Lexeme) (line : Nat) : Token :=
  match lexeme.form with
  | .ok kind => ⟨kind, String.ofList lexeme.text, line⟩
  | .error e => ⟨.error, e.message, line⟩

private theorem text_append_rest_number (c : Char) (rest : List Char) :
    (number c rest).text ++ (number c rest).rest = c :: rest := by
  have whole := List.takeWhile_append_dropWhile (p := Char.isDigit) (l := rest)
  unfold number
  split
  next d after found =>
    rw [found] at whole
    split
    · simp only [List.cons_append, List.append_assoc, List.takeWhile_append_dropWhile, whole]
    · simp only [List.cons_append, whole]
  next => simp only [List.cons_append, whole]

private theorem text_append_rest_quoted (rest : List Char) :
    (quoted rest).text ++ (quoted rest).rest = '"' :: rest := by
  have whole := List.takeWhile_append_dropWhile (p := (· != '"')) (l := rest)
  unfold quoted
  split
  next found => rw [found] at whole; simpa using whole
  next found => rw [found] at whole; simpa using whole

@[simp] private theorem text_append_rest_comparison (c : Char) (alone joined : TokenKind)
    (rest : List Char) :
    (comparison c alone joined rest).text ++ (comparison c alone joined rest).rest = c :: rest := by
  unfold comparison
  split <;> rfl

private theorem text_append_rest_symbol (c : Char) (rest : List Char) :
    (symbol c rest).text ++ (symbol c rest).rest = c :: rest := by
  unfold symbol
  split <;> simp

/-- Nothing is lost and nothing is read twice. -/
theorem text_append_rest (c : Char) (rest : List Char) :
    (read c rest).text ++ (read c rest).rest = c :: rest := by
  unfold read
  split
  · simp [word]
  · split
    · exact text_append_rest_number c rest
    · split
      next quote => simpa [eq_of_beq quote] using text_append_rest_quoted rest
      next => exact text_append_rest_symbol c rest

private theorem number_text_ne_nil (c : Char) (rest : List Char) : (number c rest).text ≠ [] := by
  unfold number
  split
  · split <;> simp
  · simp

private theorem quoted_text_ne_nil (rest : List Char) : (quoted rest).text ≠ [] := by
  unfold quoted
  split <;> simp

@[simp] private theorem comparison_text_ne_nil (c : Char) (alone joined : TokenKind)
    (rest : List Char) : (comparison c alone joined rest).text ≠ [] := by
  unfold comparison
  split <;> simp

private theorem symbol_text_ne_nil (c : Char) (rest : List Char) : (symbol c rest).text ≠ [] := by
  unfold symbol
  split <;> simp

theorem text_ne_nil (c : Char) (rest : List Char) : (read c rest).text ≠ [] := by
  unfold read
  split
  · simp [word]
  · split
    · exact number_text_ne_nil c rest
    · split
      · exact quoted_text_ne_nil rest
      · exact symbol_text_ne_nil c rest

theorem length_rest_le (c : Char) (rest : List Char) :
    (read c rest).rest.length ≤ rest.length := by
  have whole := congrArg List.length (text_append_rest c rest)
  have taken := List.length_pos_iff.mpr (text_ne_nil c rest)
  simp only [List.length_append, List.length_cons] at whole
  omega

end Lexeme

end StackCalc
