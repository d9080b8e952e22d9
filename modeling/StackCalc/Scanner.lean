import StackCalc.Lexeme

/-! The scanner hands out one token at a time and counts lines as it goes. Text
between lexemes is layout: blanks, newlines and comments. -/

namespace StackCalc

/-- `finished` is set once the iterator has handed out the end of the source. -/
structure Scanner where
  rest : List Char
  line : Nat := 1
  finished : Bool := false

namespace Scanner

def ofString (source : String) : Scanner := { rest := source.toList }

def isBlank (c : Char) : Bool := c == ' ' || c == '\t' || c == '\r'

/-- Drop layout and count its newlines. A comment runs to the end of its line and
leaves the newline in place. -/
def skipLayout (inComment : Bool) (line : Nat) : List Char → Nat × List Char
  | [] => (line, [])
  | c :: rest =>
    if c == '\n' then skipLayout false (line + 1) rest
    else if inComment || (c == '/' && rest.head? == some '/') then skipLayout true line rest
    else if isBlank c then skipLayout false line rest
    else (line, c :: rest)

theorem length_skipLayout_le (inComment : Bool) (line : Nat) (text : List Char) :
    (skipLayout inComment line text).2.length ≤ text.length := by
  induction text generalizing inComment line with
  | nil => simp [skipLayout]
  | cons c rest ih =>
    unfold skipLayout
    split
    · exact Nat.le_succ_of_le (ih _ _)
    · split
      · exact Nat.le_succ_of_le (ih _ _)
      · split
        · exact Nat.le_succ_of_le (ih _ _)
        · exact Nat.le_refl _

/-- The next token, or `eof` again and again once the text is used up. -/
def scanToken (scanner : Scanner) : Token × Scanner :=
  match skipLayout false scanner.line scanner.rest with
  | (line, []) => (⟨.eof, "", line⟩, { scanner with rest := [], line })
  | (line, c :: rest) =>
    let lexeme := Lexeme.read c rest
    let line := line + lexeme.newlines
    (lexeme.token line, { scanner with rest := lexeme.rest, line })

/-- Iteration stops after the first `eof` it has handed out itself. -/
def next (scanner : Scanner) : Option Token × Scanner :=
  if scanner.finished then (none, scanner)
  else
    let (token, scanner) := scanner.scanToken
    (some token, { scanner with finished := token.kind == .eof })

theorem scanToken_shorter (scanner : Scanner) (more : scanner.scanToken.1.kind ≠ .eof) :
    scanner.scanToken.2.rest.length < scanner.rest.length := by
  have skipped := length_skipLayout_le false scanner.line scanner.rest
  unfold scanToken at more ⊢
  split at more
  next => simp at more
  next found =>
    rw [found] at skipped
    exact Nat.lt_of_le_of_lt (Lexeme.length_rest_le _ _) skipped

/-- Hand out tokens through the first `eof`, after those already handed out. -/
def collect (tokens : Array Token) (scanner : Scanner) : Array Token × Scanner :=
  let step := scanner.scanToken
  if _last : step.1.kind = .eof then (tokens.push step.1, step.2)
  else collect (tokens.push step.1) step.2
termination_by scanner.rest.length
decreasing_by exact scanToken_shorter scanner _last

def remaining (scanner : Scanner) : List Token × Scanner :=
  if scanner.finished then ([], scanner)
  else
    let (tokens, scanner) := scanner.collect #[]
    (tokens.toList, { scanner with finished := true })

end Scanner

/-- All tokens of a source, of which exactly the last is `eof`. -/
def tokensOf (source : String) : List Token :=
  (Scanner.ofString source).remaining.1

end StackCalc
