import StackCalc.Proofs.Blanking
import StackCalc.Proofs.Sifting

/-! A source is mended by putting blanks in place of what is no token. The mended source
has the tokens of the source, without those that are errors. -/

namespace StackCalc

/-- What a lexeme becomes: blanks, if it is none. -/
def Lexeme.mended (lexeme : Lexeme) : List Char :=
  match lexeme.form with
  | .ok _ => lexeme.text
  | .error _ => lexeme.text.map blanked

/-- Put blanks in place of unexpected characters and of unterminated strings. -/
def Scanner.mend (text : List Char) : List Char :=
  match _found : (skipLayout false 1 text).2 with
  | [] => text
  | c :: rest =>
    let layout := text.take (text.length - (c :: rest).length)
    let lexeme := Lexeme.read c rest
    layout ++ lexeme.mended ++ mend lexeme.rest
termination_by text.length
decreasing_by
  have skipped := length_skipLayout_le false 1 text
  rw [_found] at skipped
  exact Nat.lt_of_le_of_lt (Lexeme.length_rest_le _ _) skipped

def mended (source : String) : String := String.ofList (Scanner.mend source.toList)

private theorem Lexeme.mended_blanked (lexeme : Lexeme) : Blanked lexeme.text lexeme.mended := by
  unfold Lexeme.mended
  split
  · exact Blanked.refl _
  · exact blanked_map _

private theorem Lexeme.Sound.ne_error {lexeme : Lexeme} (sound : lexeme.Sound) {kind : TokenKind}
    (form : lexeme.form = .ok kind) : kind ≠ .error := by
  rintro rfl
  cases sound with
  | number => cases form
  | other ordinary =>
    cases form
    exact ordinary (by decide)
  | error => cases form

namespace Scanner

/-- A text that begins with layout and a lexeme. -/
structure Begins (text : List Char) (line : Nat) (layout : List Char) (last : Nat) (c : Char)
    (rest : List Char) : Prop where
  split : text = layout ++ c :: rest
  skipped : skipLayout false line text = (last, c :: rest)
  behind : ∀ after, skipLayout false line (layout ++ after) = skipLayout false last after
  mended : mend text = layout ++ ((Lexeme.read c rest).mended ++ mend (Lexeme.read c rest).rest)

private theorem mend_of_layout {text : List Char} (found : (skipLayout false 1 text).2 = []) :
    mend text = text := by
  rw [mend]
  split
  next => rfl
  next other =>
    rw [found] at other
    cases other

private theorem mend_of_lexeme {text layout rest : List Char} {c : Char}
    (found : (skipLayout false 1 text).2 = c :: rest) (split : text = layout ++ c :: rest) :
    mend text = layout ++ ((Lexeme.read c rest).mended ++ mend (Lexeme.read c rest).rest) := by
  have taken : text.take (text.length - (c :: rest).length) = layout := by
    rw [split, List.length_append, Nat.add_sub_cancel, List.take_left]
  rw [mend]
  split
  next other =>
    rw [found] at other
    cases other
  next other =>
    cases found.symm.trans other
    simp only [taken, List.append_assoc]

private theorem mend_cases (text : List Char) (line : Nat) :
    (∃ last, skipLayout false line text = (last, []) ∧ mend text = text) ∨
      ∃ layout last c rest, Begins text line layout last c rest := by
  have found := skipLayout_rest_eq false 1 line text
  cases skipped : skipLayout false line text with
  | mk last left =>
    rw [skipped] at found
    cases left with
    | nil => exact .inl ⟨last, rfl, mend_of_layout found⟩
    | cons c rest =>
      obtain ⟨layout, split, _, behind⟩ := skipLayout_append skipped
      exact .inr ⟨layout, last, c, rest, split, skipped, behind, mend_of_lexeme found split⟩

private theorem mend_blanked (text : List Char) : Blanked text (mend text) := by
  rcases mend_cases text 1 with ⟨_, _, same⟩ | ⟨layout, _, c, rest, begins⟩
  · rw [same]
    exact Blanked.refl text
  · have shorter := Lexeme.length_rest_le c rest
    rw [begins.mended, begins.split, ← Lexeme.text_append_rest c rest]
    exact List.rel_append (Blanked.refl layout)
      (List.rel_append (Lexeme.mended_blanked _) (mend_blanked (Lexeme.read c rest).rest))
termination_by text.length
decreasing_by
  rw [begins.split, List.length_append, List.length_cons]
  omega

private theorem Yields.of_scanToken_eq {scanner other : Scanner} {tokens : List Token}
    (yields : Yields scanner tokens) (same : scanner.scanToken = other.scanToken) :
    Yields other tokens := by
  cases yields with
  | last kind =>
    rw [same] at kind ⊢
    exact .last kind
  | more kind rest =>
    rw [same] at kind rest ⊢
    exact .more kind rest

private theorem scanToken_of_lexeme {scanner : Scanner} {last : Nat} {c : Char} {rest : List Char}
    (skipped : skipLayout false scanner.line scanner.rest = (last, c :: rest)) :
    let lexeme := Lexeme.read c rest
    let line := last + lexeme.newlines
    scanner.scanToken = (lexeme.token line, { scanner with rest := lexeme.rest, line }) := by
  simp [scanToken, skipped]

/-- A lexeme that is none has become layout. -/
theorem Begins.scanToken_of_error {scanner : Scanner} {layout rest : List Char} {last : Nat}
    {c : Char} {error : LexicalError}
    (begins : Begins scanner.rest scanner.line layout last c rest)
    (form : (Lexeme.read c rest).form = .error error) :
    ({ scanner with rest := mend scanner.rest } : Scanner).scanToken =
      ({ scanner.scanToken.2 with rest := mend scanner.scanToken.2.rest } : Scanner).scanToken := by
  have blanks : (Lexeme.read c rest).mended = (Lexeme.read c rest).text.map blanked := by
    rw [Lexeme.mended, form]
  have skipped : skipLayout false scanner.line (mend scanner.rest) =
      skipLayout false (last + (Lexeme.read c rest).newlines) (mend (Lexeme.read c rest).rest) := by
    rw [begins.mended, begins.behind, blanks, skipLayout_blanks, Lexeme.newlines]
  rw [scanToken_of_lexeme begins.skipped]
  simp only [scanToken, skipped]

/-- A lexeme that is one is read again, with a mended text behind it. -/
theorem Begins.scanToken_of_ok {scanner : Scanner} {layout rest : List Char} {last : Nat}
    {c : Char} {kind : TokenKind} (begins : Begins scanner.rest scanner.line layout last c rest)
    (form : (Lexeme.read c rest).form = .ok kind) :
    ({ scanner with rest := mend scanner.rest } : Scanner).scanToken = (scanner.scanToken.1,
      { scanner.scanToken.2 with rest := mend scanner.scanToken.2.rest }) := by
  have whole := Lexeme.text_append_rest c rest
  obtain ⟨first, tail, text⟩ := List.exists_cons_of_ne_nil (Lexeme.text_ne_nil c rest)
  obtain ⟨rfl, remaining⟩ := List.cons.inj (text ▸ whole : first :: tail ++ _ = c :: rest)
  have blanks := mend_blanked (Lexeme.read first rest).rest
  have again := Lexeme.keeps_read first rest kind _ form blanks
  rw [text, List.tail_cons] at again
  have starts : skipLayout false last (first :: rest) = (last, first :: rest) := by
    rw [← begins.behind, ← begins.split, begins.skipped]
  have other : Blanked rest (tail ++ mend (Lexeme.read first rest).rest) := by
    conv => lhs; rw [← remaining]
    exact List.rel_append (Blanked.refl tail) blanks
  have skipped : skipLayout false scanner.line (mend scanner.rest) =
      (last, first :: (tail ++ mend (Lexeme.read first rest).rest)) := by
    rw [begins.mended, begins.behind, Lexeme.mended, form]
    simp only [text]
    exact skipLayout_of_blanked starts other
  rw [scanToken_of_lexeme begins.skipped, scanToken_of_lexeme skipped]
  simp only [again, Lexeme.newlines, Lexeme.token, form, text]

private theorem Yields.mended {scanner : Scanner} {tokens : List Token}
    (yields : Yields scanner tokens) :
    Yields { scanner with rest := mend scanner.rest } (sifted tokens) := by
  induction yields with
  | @last scanner kind =>
    rcases mend_cases scanner.rest scanner.line with ⟨_, _, same⟩ | ⟨_, _, c, rest, begins⟩
    · rw [same, sifted, List.filter_cons_of_pos (by simp [kind]), List.filter_nil]
      exact .last kind
    · rw [scanToken_of_lexeme begins.skipped] at kind
      exact absurd kind ((Lexeme.sound_read c rest).token _).inner
  | @more scanner tokens kind rest ih =>
    rcases mend_cases scanner.rest scanner.line with
      ⟨_, skipped, _⟩ | ⟨layout, last, c, rest, begins⟩
    · simp [scanToken, skipped] at kind
    · have token : scanner.scanToken.1 = (Lexeme.read c rest).token _ :=
        congrArg Prod.fst (scanToken_of_lexeme begins.skipped)
      cases form : (Lexeme.read c rest).form with
      | ok found =>
        have clean : scanner.scanToken.1.kind ≠ .error := by
          rw [token, Lexeme.token, form]
          exact (Lexeme.sound_read c rest).ne_error form
        have same := begins.scanToken_of_ok form
        have first := congrArg Prod.fst same
        rw [sifted, List.filter_cons_of_pos (by simpa using clean), ← first]
        apply Yields.more
        · rwa [first]
        · rwa [congrArg Prod.snd same]
      | error error =>
        have lost : scanner.scanToken.1.kind = .error := by rw [token, Lexeme.token, form]
        rw [sifted, List.filter_cons_of_neg (by simp [lost])]
        exact ih.of_scanToken_eq (begins.scanToken_of_error form).symm

end Scanner

/-- The mended source has the same tokens, without those that are errors. -/
theorem tokensOf_mended (source : String) : tokensOf (mended source) = sifted (tokensOf source) := by
  have yields : Scanner.Yields (.ofString (mended source)) (sifted (tokensOf source)) := by
    rw [Scanner.ofString, mended, String.toList_ofList]
    exact (Scanner.tokensOf_yields source).mended
  exact (Scanner.tokensOf_yields _).unique yields

end StackCalc
