import StackCalc.Proofs.Blanking

/-! What is written for each kind of token, told without the scanner. Of a text that
begins with no layout, the scanner takes the longest beginning that is written for some
kind; if there is none, it takes one character, or all that follows an open quote. -/

namespace StackCalc

/-- A letter of ASCII, or an underscore. -/
def LetterChar (c : Char) : Prop := ('a' ≤ c ∧ c ≤ 'z') ∨ ('A' ≤ c ∧ c ≤ 'Z') ∨ c = '_'

/-- A digit of ASCII. -/
def DigitChar (c : Char) : Prop := '0' ≤ c ∧ c ≤ '9'

/-- How the kinds are spelt that are always spelt in one way, but for the words. -/
def TokenKind.spelling? : TokenKind → Option (List Char)
  | .leftParen => some ['(']
  | .rightParen => some [')']
  | .leftBrace => some ['{']
  | .rightBrace => some ['}']
  | .comma => some [',']
  | .dot => some ['.']
  | .minus => some ['-']
  | .plus => some ['+']
  | .semicolon => some [';']
  | .slash => some ['/']
  | .star => some ['*']
  | .bang => some ['!']
  | .bangEqual => some ['!', '=']
  | .equal => some ['=']
  | .equalEqual => some ['=', '=']
  | .greater => some ['>']
  | .greaterEqual => some ['>', '=']
  | .less => some ['<']
  | .lessEqual => some ['<', '=']
  | _ => none

/-- The kind of a whole word. -/
def TokenKind.Names (kind : TokenKind) (word : String) : Prop :=
  (word, kind) ∈ keywords ∨ kind = .identifier ∧ ∀ other, (word, other) ∉ keywords

/-- The text is written for a token of the kind. -/
inductive Written : TokenKind → List Char → Prop where
  | symbol {kind text} (spelt : kind.spelling? = some text) : Written kind text
  | whole {digits} (some : digits ≠ []) (inside : ∀ c ∈ digits, DigitChar c) :
      Written .number digits
  | fraction {digits places} (some : digits ≠ []) (inside : ∀ c ∈ digits, DigitChar c)
      (more : places ≠ []) (others : ∀ c ∈ places, DigitChar c) :
      Written .number (digits ++ '.' :: places)
  | quoted {body} (inside : '"' ∉ body) : Written .string ('"' :: body ++ ['"'])
  | word {kind first more} (starts : LetterChar first)
      (inside : ∀ c ∈ more, LetterChar c ∨ DigitChar c)
      (names : kind.Names (String.ofList (first :: more))) : Written kind (first :: more)

/-- What is taken of a text, and as which token. -/
inductive Munch : (text rest : List Char) → TokenKind → String → Prop where
  | lexeme {text rest kind} (written : Written kind text)
      (longest : ∀ other longer, Written other longer → longer <+: text ++ rest →
        longer.length ≤ text.length) : Munch text rest kind (String.ofList text)
  | unterminated {body} (unclosed : '"' ∉ body) :
      Munch ('"' :: body) [] .error "Unterminated string."
  | unexpected {c rest} (other : c ≠ '"')
      (none : ∀ kind text, Written kind text → ¬ text <+: c :: rest) :
      Munch [c] rest .error "Unexpected character."

private theorem isLetter_iff {c : Char} : Lexeme.isLetter c ↔ LetterChar c := by
  delta Lexeme.isLetter Char.isAlpha Char.isUpper Char.isLower
  simp only [LetterChar, Char.le_def, Bool.or_eq_true, Bool.and_eq_true, decide_eq_true_eq,
    beq_iff_eq, ge_iff_le]
  tauto

theorem isDigit_iff {c : Char} : c.isDigit ↔ DigitChar c := by
  simp only [Char.isDigit, DigitChar, Char.le_def, Bool.and_eq_true, decide_eq_true_eq, ge_iff_le]

theorem isWordChar_iff {c : Char} : Lexeme.isWordChar c ↔ LetterChar c ∨ DigitChar c := by
  simp only [Lexeme.isWordChar, Bool.or_eq_true, isLetter_iff, isDigit_iff]

private theorem all_isDigit {digits : List Char} (inside : ∀ c ∈ digits, DigitChar c) :
    digits.all Char.isDigit :=
  List.all_eq_true.mpr fun c member => isDigit_iff.mpr (inside c member)

private theorem TokenKind.names_iff {kind : TokenKind} {word : String} :
    kind.Names word ↔ ofWord word = kind := by
  constructor
  · rintro (listed | ⟨rfl, free⟩)
    · have all : ∀ entry ∈ keywords, ofWord entry.1 = entry.2 := by decide
      exact all _ listed
    · rw [ofWord, List.lookup_eq_none_iff.mpr]
      · rfl
      · intro entry member
        simp only [bne_iff_ne, ne_eq]
        rintro rfl
        exact free _ member
  · rintro rfl
    unfold ofWord
    cases found : keywords.lookup word with
    | none =>
      refine .inr ⟨rfl, fun other member => ?_⟩
      simpa using List.lookup_eq_none_iff.mp found _ member
    | some kind =>
      obtain ⟨before, after, split, _⟩ := List.lookup_eq_some_iff.mp found
      exact .inl (by simp [split])

theorem TokenKind.Names.mem {kind : TokenKind} {word : String} (names : kind.Names word) :
    kind ∈ identifier :: keywords.map Prod.snd := by
  rw [← names_iff.mp names]
  exact Lexeme.ofWord_mem word

namespace Lexeme

private theorem written_word {c : Char} (rest : List Char) (letter : isLetter c) :
    ∃ kind, (word c rest).form = .ok kind ∧ Written kind (word c rest).text := by
  refine ⟨_, rfl, .word (isLetter_iff.mp letter) ?_ (TokenKind.names_iff.mpr rfl)⟩
  intro d member
  exact isWordChar_iff.mp (List.all_eq_true.mp List.all_takeWhile d member)

private theorem written_number {c : Char} (rest : List Char) (digit : c.isDigit) :
    (number c rest).form = .ok .number ∧ Written .number (number c rest).text := by
  have whole : ∀ d ∈ c :: rest.takeWhile Char.isDigit, DigitChar d :=
    fun d member => isDigit_iff.mp (isDigit_of_mem_takeWhile digit member)
  have alone := Written.whole (List.cons_ne_nil _ _) whole
  unfold number
  split
  next d after found =>
    split
    next other =>
      exact ⟨rfl, .fraction (List.cons_ne_nil _ _) whole (List.cons_ne_nil _ _)
        fun e member => isDigit_iff.mp (isDigit_of_mem_takeWhile other member)⟩
    next => exact ⟨rfl, alone⟩
  next => exact ⟨rfl, alone⟩

/-- Either a quote closes what is open, or there is none. -/
theorem quoted_cases (rest : List Char) :
    (quoted rest).form = .ok .string ∧ Written .string (quoted rest).text ∨
      '"' ∉ rest ∧ quoted rest = ⟨.error .unterminatedString, '"' :: rest, []⟩ := by
  have whole := List.takeWhile_append_dropWhile (p := (· != '"')) (l := rest)
  have body : '"' ∉ rest.takeWhile (· != '"') := by
    intro member
    simpa using List.all_eq_true.mp List.all_takeWhile _ member
  have stopped := List.head?_dropWhile_not (· != '"') rest
  unfold quoted
  cases found : rest.dropWhile (· != '"') with
  | nil =>
    rw [found, List.append_nil] at whole
    rw [whole] at body ⊢
    exact .inr ⟨body, rfl⟩
  | cons quote after =>
    have closing : quote = '"' := by simpa [found] using stopped
    rw [closing]
    exact .inl ⟨rfl, .quoted body⟩

private theorem comparison_cases (c : Char) (alone joined : TokenKind) (rest : List Char) :
    comparison c alone joined rest = ⟨.ok alone, [c], rest⟩ ∧ rest.head? ≠ some '=' ∨
      ∃ after, rest = '=' :: after ∧ comparison c alone joined rest = ⟨.ok joined, [c, '='], after⟩ := by
  by_cases equals : rest.head? = some '='
  · obtain ⟨after, rfl⟩ := List.head?_eq_some_iff.mp equals
    exact .inr ⟨after, rfl, rfl⟩
  · exact .inl ⟨comparison_of_ne c alone joined equals, equals⟩

private theorem symbol_cases (c : Char) (rest : List Char) :
    (∃ kind, (symbol c rest).form = .ok kind ∧ Written kind (symbol c rest).text) ∨
      symbol c rest = ⟨.error .unexpectedCharacter, [c], rest⟩ := by
  unfold symbol
  split
  case h_16 => exact .inr rfl
  case h_12 | h_13 | h_14 | h_15 =>
    left
    rcases comparison_cases _ _ _ rest with ⟨read, _⟩ | ⟨after, _, read⟩ <;> rw [read]
    all_goals exact ⟨_, rfl, .symbol rfl⟩
  all_goals exact .inl ⟨_, rfl, .symbol rfl⟩

/-- What is read is written for some kind, or it is one of the two errors. -/
theorem read_cases (c : Char) (rest : List Char) :
    (∃ kind, (read c rest).form = .ok kind ∧ Written kind (read c rest).text) ∨
      (c = '"' ∧ '"' ∉ rest ∧ read c rest = ⟨.error .unterminatedString, '"' :: rest, []⟩) ∨
      c ≠ '"' ∧ read c rest = ⟨.error .unexpectedCharacter, [c], rest⟩ := by
  unfold read
  split
  next letter => exact .inl (written_word rest letter)
  next =>
    split
    next digit => exact .inl ⟨_, written_number rest digit⟩
    next =>
      split
      next quote =>
        rw [eq_of_beq quote]
        rcases quoted_cases rest with written | ⟨unclosed, read⟩
        · exact .inl ⟨_, written⟩
        · exact .inr (.inl ⟨rfl, unclosed, read⟩)
      next other =>
        rcases symbol_cases c rest with written | read
        · exact .inl written
        · exact .inr (.inr ⟨by simpa using other, read⟩)

private theorem read_of_letter {c : Char} (rest : List Char) (letter : isLetter c) :
    read c rest = word c rest := by
  simp [read, letter]

private theorem read_of_digit {c : Char} (rest : List Char) (digit : c.isDigit) :
    read c rest = number c rest := by
  have other : ¬ isLetter c := by
    obtain ⟨low, high⟩ := isDigit_iff.mp digit
    rw [isLetter_iff]
    rintro (⟨above, _⟩ | ⟨above, _⟩ | rfl)
    · exact absurd (Char.le_trans above high) (by decide)
    · exact absurd (Char.le_trans above high) (by decide)
    · exact absurd high (by decide)
  simp [read, other, digit]

/-- The text is read as a token of the kind, or a longer one is. -/
def Matched (lexeme : Lexeme) (kind : TokenKind) (text after : List Char) : Prop :=
  lexeme = ⟨.ok kind, text, after⟩ ∨
    (∃ other, lexeme.form = .ok other) ∧ text.length < lexeme.text.length

private theorem matched_comparison (c : Char) (alone joined : TokenKind) (after : List Char) :
    Matched (comparison c alone joined after) alone [c] after := by
  rcases comparison_cases c alone joined after with ⟨read, _⟩ | ⟨more, rfl, read⟩
  · exact .inl read
  · rw [read]
    exact .inr ⟨⟨_, rfl⟩, by simp⟩

private theorem matched_symbol {kind : TokenKind} {c : Char} {tail : List Char} (after : List Char)
    (spelt : kind.spelling? = some (c :: tail)) :
    Matched (read c (tail ++ after)) kind (c :: tail) after := by
  cases kind <;> cases spelt
  case bang | equal | greater | less => exact matched_comparison _ _ _ after
  all_goals exact .inl rfl

/-- Where a run of characters goes on, more of them are taken. -/
theorem length_lt_takeWhile {p : Char → Bool} {front after : List Char} (inside : front.all p)
    (goes : ¬ ∀ c, after.head? = some c → p c = false) :
    front.length < ((front ++ after).takeWhile p).length := by
  simp only [not_forall, Bool.not_eq_false] at goes
  obtain ⟨c, head, holds⟩ := goes
  obtain ⟨more, rfl⟩ := List.head?_eq_some_iff.mp head
  rw [List.takeWhile_append_of_pos (List.all_eq_true.mp inside), List.takeWhile_cons_of_pos holds]
  simp

private theorem matched_word {c : Char} {more : List Char} (after : List Char)
    (inside : more.all isWordChar) :
    Matched (word c (more ++ after)) (.ofWord (String.ofList (c :: more))) (c :: more) after := by
  by_cases stops : ∀ d, after.head? = some d → isWordChar d = false
  · obtain ⟨taken, left⟩ := takeWhile_dropWhile_append inside stops
    exact .inl (by simp only [word, taken, left])
  · exact .inr ⟨⟨_, rfl⟩, Nat.succ_lt_succ (length_lt_takeWhile inside stops)⟩

private theorem length_takeWhile_lt_number (c : Char) (rest : List Char) :
    (rest.takeWhile Char.isDigit).length < (number c rest).text.length := by
  unfold number
  split
  · split <;> simp only [List.length_append, List.length_cons] <;> omega
  · exact Nat.lt_succ_self _

private theorem number_of_point {d : Char} {digits : List Char} (c : Char) (more : List Char)
    (inside : digits.all Char.isDigit) (digit : d.isDigit) :
    number c (digits ++ '.' :: d :: more) = ⟨.ok .number,
      c :: digits ++ '.' :: d :: more.takeWhile Char.isDigit, more.dropWhile Char.isDigit⟩ := by
  obtain ⟨taken, left⟩ := takeWhile_dropWhile_append inside
    (show ∀ e, ('.' :: d :: more).head? = some e → e.isDigit = false by simp)
  simp [number, taken, left, digit]

private theorem matched_whole {c : Char} {digits : List Char} (after : List Char)
    (digit : c.isDigit)
    (inside : digits.all Char.isDigit) :
    Matched (number c (digits ++ after)) .number (c :: digits) after := by
  have form := (written_number (digits ++ after) digit).1
  by_cases stops : ∀ d, after.head? = some d → d.isDigit = false
  · by_cases fraction : Fraction after
    · obtain ⟨d, more, rfl, other⟩ := fraction
      refine .inr ⟨⟨_, form⟩, ?_⟩
      rw [number_of_point c more inside other]
      simp
    · exact .inl (number_of_not_fraction c inside stops fraction)
  · have longer := length_lt_takeWhile inside stops
    have taken := length_takeWhile_lt_number c (digits ++ after)
    exact .inr ⟨⟨_, form⟩, by simp only [List.length_cons]; omega⟩

private theorem matched_fraction {c d : Char} {digits more : List Char} (after : List Char)
    (inside : digits.all Char.isDigit) (digit : d.isDigit) (others : more.all Char.isDigit) :
    Matched (number c (digits ++ '.' :: d :: (more ++ after))) .number
      (c :: digits ++ '.' :: d :: more) after := by
  rw [number_of_point c _ inside digit]
  by_cases stops : ∀ e, after.head? = some e → e.isDigit = false
  · obtain ⟨taken, left⟩ := takeWhile_dropWhile_append others stops
    exact .inl (by rw [taken, left])
  · have longer := length_lt_takeWhile others stops
    exact .inr ⟨⟨_, rfl⟩, by simpa using longer⟩

private theorem all_ne_quote {body : List Char} (inside : '"' ∉ body) : body.all (· != '"') := by
  rw [List.all_eq_true]
  intro c member
  exact bne_iff_ne.mpr fun same => inside (same ▸ member)

private theorem matched_quoted {body : List Char} (after : List Char) (inside : '"' ∉ body) :
    Matched (quoted (body ++ ['"'] ++ after)) .string ('"' :: body ++ ['"']) after := by
  obtain ⟨taken, left⟩ := takeWhile_dropWhile_append (all_ne_quote inside)
    (show ∀ c, ('"' :: after).head? = some c → (c != '"') = false by simp)
  rw [List.append_assoc]
  exact .inl (by simp [quoted, taken, left])

private theorem quoted_of_unclosed {body : List Char} (unclosed : '"' ∉ body) :
    quoted (body ++ []) = ⟨.error .unterminatedString, '"' :: body, []⟩ := by
  obtain ⟨taken, left⟩ := takeWhile_dropWhile_append (all_ne_quote unclosed)
    (show ∀ c, ([] : List Char).head? = some c → (c != '"') = false by simp)
  simp only [quoted, taken, left]

/-- What is written for a token is read as this token, unless the text behind it makes it
a longer one. -/
theorem matched_of_written {kind : TokenKind} {c : Char} {tail : List Char} (after : List Char)
    (written : Written kind (c :: tail)) :
    Matched (read c (tail ++ after)) kind (c :: tail) after := by
  generalize same : c :: tail = text at written
  cases written with
  | symbol spelt =>
    subst same
    exact matched_symbol after spelt
  | whole some inside =>
    subst same
    obtain ⟨digit, digits⟩ := List.forall_mem_cons.mp inside
    rw [read_of_digit _ (isDigit_iff.mpr digit)]
    exact matched_whole after (isDigit_iff.mpr digit) (all_isDigit digits)
  | @fraction digits places some inside more others =>
    obtain ⟨first, digits, rfl⟩ := List.exists_cons_of_ne_nil some
    obtain ⟨d, places, rfl⟩ := List.exists_cons_of_ne_nil more
    rw [List.cons_append] at same
    cases same
    obtain ⟨digit, digits⟩ := List.forall_mem_cons.mp inside
    obtain ⟨other, others⟩ := List.forall_mem_cons.mp others
    rw [read_of_digit _ (isDigit_iff.mpr digit), List.append_assoc]
    exact matched_fraction after (all_isDigit digits) (isDigit_iff.mpr other) (all_isDigit others)
  | quoted inside =>
    cases same
    exact matched_quoted after inside
  | word starts inside names =>
    cases same
    have letter := isLetter_iff.mpr starts
    have more : tail.all isWordChar :=
      List.all_eq_true.mpr fun d member => isWordChar_iff.mpr (inside d member)
    rw [read_of_letter _ letter, ← TokenKind.names_iff.mp names]
    exact matched_word after more

end Lexeme

theorem Written.exists_cons {kind : TokenKind} {text : List Char} (written : Written kind text) :
    ∃ c tail, text = c :: tail := by
  apply List.exists_cons_of_ne_nil
  cases written with
  | symbol spelt =>
    rintro rfl
    cases kind <;> cases spelt
  | whole some => exact some
  | fraction => simp
  | quoted => simp
  | word => simp

/-- A text is written for one kind of token only. -/
theorem Written.unique {kind other : TokenKind} {text : List Char} (first : Written kind text)
    (second : Written other text) : kind = other := by
  obtain ⟨c, tail, rfl⟩ := first.exists_cons
  have alone {kind : TokenKind} (written : Written kind (c :: tail)) :
      (Lexeme.read c tail).form = .ok kind := by
    have whole := congrArg List.length (Lexeme.text_append_rest c tail)
    rcases Lexeme.matched_of_written [] written with read | ⟨_, longer⟩
    · rw [List.append_nil] at read
      rw [read]
    · rw [List.append_nil] at longer
      rw [List.length_append] at whole
      omega
  exact Except.ok.inj ((alone first).symm.trans (alone second))

private theorem Lexeme.read_of_prefix {kind : TokenKind} {c : Char} {text rest : List Char}
    (written : Written kind text) (front : text <+: c :: rest) :
    (∃ other, (read c rest).form = .ok other) ∧ text.length ≤ (read c rest).text.length := by
  obtain ⟨first, tail, rfl⟩ := written.exists_cons
  obtain ⟨after, split⟩ := front
  rw [List.cons_append] at split
  cases split
  rcases matched_of_written after written with read | ⟨form, longer⟩
  · rw [read]
    exact ⟨⟨_, rfl⟩, Nat.le_refl _⟩
  · exact ⟨form, Nat.le_of_lt longer⟩

/-- The scanner takes what is to be taken. -/
theorem munch_read (c : Char) (rest : List Char) (line : Nat) :
    Munch (Lexeme.read c rest).text (Lexeme.read c rest).rest
      ((Lexeme.read c rest).token line).kind ((Lexeme.read c rest).token line).lexeme := by
  rcases Lexeme.read_cases c rest with ⟨kind, form, written⟩ | ⟨rfl, unclosed, read⟩ | ⟨other, read⟩
  · simp only [Lexeme.token, form]
    apply Munch.lexeme written
    intro other longer also front
    rw [Lexeme.text_append_rest] at front
    exact (Lexeme.read_of_prefix also front).2
  · rw [read]
    exact .unterminated unclosed
  · rw [read]
    apply Munch.unexpected other
    intro kind text written front
    obtain ⟨_, form⟩ := (Lexeme.read_of_prefix written front).1
    rw [read] at form
    cases form

private theorem Lexeme.text_prefix (c : Char) (rest : List Char) :
    (read c rest).text <+: c :: rest :=
  ⟨_, text_append_rest c rest⟩

/-- What is to be taken is what the scanner takes. -/
theorem Munch.read_eq {text rest : List Char} {kind : TokenKind} {lexeme : String}
    (munch : Munch text rest kind lexeme) :
    ∃ c tail, text = c :: tail ∧ (Lexeme.read c (tail ++ rest)).text = text ∧
      (Lexeme.read c (tail ++ rest)).rest = rest ∧
      ∀ line, (Lexeme.read c (tail ++ rest)).token line = ⟨kind, lexeme, line⟩ := by
  cases munch with
  | lexeme written longest =>
    obtain ⟨c, tail, rfl⟩ := written.exists_cons
    refine ⟨c, tail, rfl, ?_⟩
    rcases Lexeme.matched_of_written rest written with read | ⟨⟨_, form⟩, longer⟩
    · rw [read]
      exact ⟨rfl, rfl, fun _ => rfl⟩
    · rcases Lexeme.read_cases c (tail ++ rest) with ⟨_, _, also⟩ | ⟨_, _, read⟩ | ⟨_, read⟩
      · exact absurd (longest _ _ also (Lexeme.text_prefix c _)) (Nat.not_le.mpr longer)
      all_goals
        rw [read] at form
        cases form
  | @unterminated body unclosed =>
    refine ⟨'"', body, rfl, ?_⟩
    have read : Lexeme.read '"' (body ++ []) = ⟨.error .unterminatedString, '"' :: body, []⟩ :=
      Lexeme.quoted_of_unclosed unclosed
    rw [read]
    exact ⟨rfl, rfl, fun _ => rfl⟩
  | @unexpected c rest other none =>
    refine ⟨c, [], rfl, ?_⟩
    rw [List.nil_append]
    rcases Lexeme.read_cases c rest with ⟨kind, _, written⟩ | ⟨quote, _⟩ | ⟨_, read⟩
    · exact absurd (Lexeme.text_prefix c rest) (none kind _ written)
    · exact absurd quote other
    · rw [read]
      exact ⟨rfl, rfl, fun _ => rfl⟩

end StackCalc
