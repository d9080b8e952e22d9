import StackCalc.Numeral
import StackCalc.Scanner
import StackCalc.Proofs.Grammar

/-! What can be relied on about the tokens of a source: exactly the last is `eof`, its
line counts the newlines of the source, every number can be read, and error tokens
carry one of two messages. -/

namespace StackCalc

theorem Decimal.ofDigits?_whole {whole : List Char} (some : whole ≠ [])
    (digits : ∀ c ∈ whole, c.isDigit) :
    ofDigits? whole = .some ⟨Nat.ofDigitChars 10 whole 0, 0⟩ := by
  have taken : whole.takeWhile Char.isDigit = whole := by
    simpa using @List.takeWhile_append_of_pos _ Char.isDigit whole [] digits
  have left : whole.dropWhile Char.isDigit = [] := by
    simpa using @List.dropWhile_append_of_pos _ Char.isDigit whole [] digits
  simp [ofDigits?, taken, left, some]

theorem Decimal.ofDigits?_fraction {whole fraction : List Char} (some : whole ≠ [])
    (digits : ∀ c ∈ whole, c.isDigit) (more : fraction ≠ [])
    (others : ∀ c ∈ fraction, c.isDigit) : ofDigits? (whole ++ '.' :: fraction) =
      .some ⟨Nat.ofDigitChars 10 (whole ++ fraction) 0, -fraction.length⟩ := by
  have point : Char.isDigit '.' = false := by decide
  have taken : (whole ++ '.' :: fraction).takeWhile Char.isDigit = whole := by
    rw [List.takeWhile_append_of_pos digits, List.takeWhile_cons, point]
    simp
  have left : (whole ++ '.' :: fraction).dropWhile Char.isDigit = '.' :: fraction := by
    rw [List.dropWhile_append_of_pos digits, List.dropWhile_cons, point]
    simp
  simpa [ofDigits?, taken, left, some, more] using others

theorem isDigit_of_mem_takeWhile {c d : Char} {rest : List Char} (digit : c.isDigit)
    (member : d ∈ c :: rest.takeWhile Char.isDigit) : d.isDigit := by
  rcases List.mem_cons.mp member with rfl | member
  · exact digit
  · exact List.all_eq_true.mp List.all_takeWhile d member

namespace Lexeme

private theorem isSome_ofDigits?_number (c : Char) (rest : List Char) (digit : c.isDigit) :
    (Decimal.ofDigits? (number c rest).text).isSome := by
  have whole : ∀ d ∈ c :: rest.takeWhile Char.isDigit, d.isDigit :=
    fun d member => isDigit_of_mem_takeWhile digit member
  have alone := Decimal.ofDigits?_whole (List.cons_ne_nil _ _) whole
  unfold number
  split
  next d after found =>
    split
    next other =>
      rw [Decimal.ofDigits?_fraction (List.cons_ne_nil _ _) whole (List.cons_ne_nil _ _)
        fun e member => isDigit_of_mem_takeWhile other member]
      rfl
    next => rw [alone]; rfl
  next => rw [alone]; rfl

theorem ofWord_mem (word : String) :
    TokenKind.ofWord word ∈ TokenKind.identifier :: TokenKind.keywords.map Prod.snd := by
  unfold TokenKind.ofWord
  cases found : TokenKind.keywords.lookup word with
  | none => exact List.mem_cons_self
  | some kind =>
    obtain ⟨before, after, split, _⟩ := List.lookup_eq_some_iff.mp found
    exact .tail _ (List.mem_map.mpr ⟨(word, kind), by rw [split]; simp, rfl⟩)

/-- What a lexeme can be: a number that can be read, or some other token of the source,
or an error. -/
inductive Sound : Lexeme → Prop where
  | number {text rest} (legible : (Decimal.ofDigits? text).isSome) :
      Sound ⟨.ok .number, text, rest⟩
  | other {kind text rest} (ordinary : kind ∉ [.number, .error, .eof]) : Sound ⟨.ok kind, text, rest⟩
  | error {error text rest} : Sound ⟨.error error, text, rest⟩

private theorem sound_word (c : Char) (rest : List Char) : Sound (word c rest) := by
  refine .other ?_
  have member := ofWord_mem (String.ofList (c :: rest.takeWhile isWordChar))
  revert member
  generalize TokenKind.ofWord _ = kind
  cases kind <;> decide

private theorem sound_number (c : Char) (rest : List Char) (digit : c.isDigit) :
    Sound (number c rest) := by
  have legible := isSome_ofDigits?_number c rest digit
  have form : (number c rest).form = .ok .number := by
    unfold number
    split
    · split <;> rfl
    · rfl
  have whole : number c rest = ⟨.ok .number, (number c rest).text, (number c rest).rest⟩ := by
    rw [← form]
  rw [whole]
  exact .number legible

private theorem sound_quoted (rest : List Char) : Sound (quoted rest) := by
  unfold quoted
  split
  · exact .error
  · exact .other (by decide)

private theorem sound_comparison {c : Char} {alone joined : TokenKind} {rest : List Char}
    (first : alone ∉ [.number, .error, .eof]) (second : joined ∉ [.number, .error, .eof]) :
    Sound (comparison c alone joined rest) := by
  unfold comparison
  split
  · exact .other second
  · exact .other first

private theorem sound_symbol (c : Char) (rest : List Char) : Sound (symbol c rest) := by
  unfold symbol
  split
  all_goals first
    | exact .other (by decide)
    | exact sound_comparison (by decide) (by decide)
    | exact .error

theorem sound_read (c : Char) (rest : List Char) : Sound (read c rest) := by
  unfold read
  split
  · exact sound_word c rest
  · split
    next digit => exact sound_number c rest digit
    next =>
      split
      · exact sound_quoted rest
      · exact sound_symbol c rest

end Lexeme

/-- A token that the scanner may hand out before the end. -/
structure Token.Sound (token : Token) : Prop where
  inner : token.kind ≠ .eof
  legible : token.kind = .number → (Numeral.read? token.lexeme).isSome
  message : token.kind = .error → ∃ error : LexicalError, token.lexeme = error.message

theorem Lexeme.Sound.token {lexeme : Lexeme} (sound : lexeme.Sound) (line : Nat) :
    (lexeme.token line).Sound := by
  cases sound with
  | number legible =>
    exact ⟨by simp [Lexeme.token], fun _ => by simpa [Lexeme.token, Numeral.read?] using legible,
      by simp [Lexeme.token]⟩
  | other ordinary =>
    simp only [List.mem_cons, List.not_mem_nil, or_false, not_or] at ordinary
    exact ⟨ordinary.2.2, fun number => absurd number ordinary.1,
      fun error => absurd error ordinary.2.1⟩
  | error =>
    exact ⟨by simp [Lexeme.token], by simp [Lexeme.token], fun _ => ⟨_, rfl⟩⟩

namespace Scanner

private theorem skipLayout_lines (inComment : Bool) (line : Nat) (text : List Char) :
    (skipLayout inComment line text).1 + (skipLayout inComment line text).2.count '\n' =
      line + text.count '\n' := by
  induction text generalizing inComment line with
  | nil => rfl
  | cons c rest ih =>
    unfold skipLayout
    split
    next newline =>
      rw [ih, eq_of_beq newline, List.count_cons_self]
      omega
    next other =>
      have same : (c :: rest).count '\n' = rest.count '\n' := List.count_cons_of_ne (by simpa using other)
      split
      · rw [ih, same]
      · split
        · rw [ih, same]
        · rfl

/-- The tokens that a scanner hands out through the first `eof`. -/
inductive Yields : Scanner → List Token → Prop where
  | last {scanner : Scanner} (kind : scanner.scanToken.1.kind = .eof) :
      Yields scanner [scanner.scanToken.1]
  | more {scanner : Scanner} {tokens : List Token} (kind : scanner.scanToken.1.kind ≠ .eof)
      (rest : Yields scanner.scanToken.2 tokens) : Yields scanner (scanner.scanToken.1 :: tokens)

theorem Yields.unique {scanner : Scanner} {tokens others : List Token}
    (first : Yields scanner tokens) (second : Yields scanner others) : tokens = others := by
  induction first generalizing others with
  | last kind =>
    cases second with
    | last => rfl
    | more other => exact absurd kind other
  | more kind _ ih =>
    cases second with
    | last other => exact absurd other kind
    | more _ rest => rw [ih rest]

theorem collect_yields (before : Array Token) (scanner : Scanner) :
    ∃ tokens, Yields scanner tokens ∧
      (scanner.collect before).1.toList = before.toList ++ tokens := by
  unfold collect
  dsimp only
  split
  next last => exact ⟨_, .last last, by simp⟩
  next more =>
    obtain ⟨tokens, rest, same⟩ := collect_yields (before.push scanner.scanToken.1) scanner.scanToken.2
    exact ⟨_, .more more rest, by simp [same]⟩
termination_by scanner.rest.length
decreasing_by exact scanToken_shorter scanner (by assumption)

theorem tokensOf_yields (source : String) : Yields (ofString source) (tokensOf source) := by
  obtain ⟨tokens, yields, same⟩ := collect_yields #[] (ofString source)
  have whole : tokensOf source = tokens := by simpa [tokensOf, remaining, ofString] using same
  rwa [whole]

private theorem scanToken_cases (scanner : Scanner) :
    (scanner.scanToken.1 = ⟨.eof, "", scanner.line + scanner.rest.count '\n'⟩) ∨
    (scanner.scanToken.1.Sound ∧
      scanner.scanToken.2.line + scanner.scanToken.2.rest.count '\n' =
        scanner.line + scanner.rest.count '\n') := by
  have lines := skipLayout_lines false scanner.line scanner.rest
  unfold scanToken
  split
  next line found =>
    rw [found] at lines
    simp only [List.count_nil, Nat.add_zero] at lines
    exact .inl (by rw [lines])
  next line c rest found =>
    rw [found] at lines
    refine .inr ⟨(Lexeme.sound_read c rest).token _, ?_⟩
    have whole := congrArg (List.count '\n') (Lexeme.text_append_rest c rest)
    rw [List.count_append] at whole
    simp only [Lexeme.newlines] at *
    omega

private theorem Yields.ended {scanner : Scanner} {tokens : List Token}
    (yields : Yields scanner tokens) : Ended tokens := by
  induction yields with
  | last kind => exact ⟨[], _, rfl, kind, by simp⟩
  | more kind rest ih =>
    obtain ⟨body, eof, rfl, last, inner⟩ := ih
    exact ⟨_ :: body, eof, rfl, last, by simpa [kind] using inner⟩

private theorem Yields.sound {scanner : Scanner} {tokens : List Token}
    (yields : Yields scanner tokens) : ∀ token ∈ tokens, token.kind ≠ .eof → token.Sound := by
  induction yields with
  | last kind =>
    intro token member inner
    rw [List.mem_singleton.mp member] at inner
    exact absurd kind inner
  | @more scanner tokens kind rest ih =>
    intro token member inner
    rcases List.mem_cons.mp member with rfl | member
    · rcases scanToken_cases scanner with atEnd | ⟨sound, _⟩
      · exact absurd (congrArg Token.kind atEnd) kind
      · exact sound
    · exact ih token member inner

private theorem Yields.eof_line {scanner : Scanner} {tokens : List Token}
    (yields : Yields scanner tokens) :
    ∀ token ∈ tokens, token.kind = .eof → token.line = scanner.line + scanner.rest.count '\n' := by
  induction yields with
  | @last scanner kind =>
    intro token member _
    rw [List.mem_singleton.mp member]
    rcases scanToken_cases scanner with atEnd | ⟨sound, _⟩
    · rw [atEnd]
    · exact absurd kind sound.inner
  | @more scanner tokens kind rest ih =>
    intro token member last
    rcases List.mem_cons.mp member with rfl | member
    · exact absurd last kind
    · rcases scanToken_cases scanner with atEnd | ⟨_, lines⟩
      · exact absurd (congrArg Token.kind atEnd) kind
      · rw [ih token member last, lines]

end Scanner

theorem ended_tokensOf (source : String) : Ended (tokensOf source) :=
  (Scanner.tokensOf_yields source).ended

theorem sound_of_mem_tokensOf {source : String} {token : Token} (member : token ∈ tokensOf source)
    (inner : token.kind ≠ .eof) : token.Sound :=
  (Scanner.tokensOf_yields source).sound token member inner

theorem eof_line {source : String} {token : Token} (member : token ∈ tokensOf source)
    (last : token.kind = .eof) : token.line = 1 + source.toList.count '\n' :=
  (Scanner.tokensOf_yields source).eof_line token member last

end StackCalc
