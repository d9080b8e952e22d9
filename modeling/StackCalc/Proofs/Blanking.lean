import Mathlib.Data.List.Forall2
import StackCalc.Proofs.TokenStream

/-! Blanks in a text. What is read as a lexeme depends on the character behind it, but a
blank there never makes a difference; and a blank between lexemes is layout. -/

namespace StackCalc

/-- The blank that takes the place of a rejected character. Lines stay as they are. -/
def blanked (c : Char) : Char := if c = '\n' then c else ' '

/-- The same text, but for some characters that are now blank. -/
abbrev Blanked : List Char → List Char → Prop :=
  List.Forall₂ fun c other => other = c ∨ other = ' '

theorem Blanked.refl (text : List Char) : Blanked text text :=
  List.forall₂_same.mpr fun _ _ => .inl rfl

theorem blanked_map (text : List Char) : Blanked text (text.map blanked) := by
  refine List.forall₂_map_right_iff.mpr (List.forall₂_same.mpr fun c _ => ?_)
  unfold blanked
  split
  · exact .inl rfl
  · exact .inr rfl

private theorem Blanked.head {text other : List Char} (blanked : Blanked text other) {c : Char}
    (head : other.head? = some c) : text.head? = some c ∨ c = ' ' := by
  cases blanked with
  | nil => cases head
  | cons same _ =>
    cases head
    exact same.imp (fun same => by simp [same]) id

theorem takeWhile_dropWhile_append {p : Char → Bool} {front after : List Char}
    (inside : front.all p) (stops : ∀ c, after.head? = some c → p c = false) :
    (front ++ after).takeWhile p = front ∧ (front ++ after).dropWhile p = after := by
  have inside := List.all_eq_true.mp inside
  rw [List.takeWhile_append_of_pos inside, List.dropWhile_append_of_pos inside]
  cases after with
  | nil => simp
  | cons c after => simp [stops c rfl]

private theorem Blanked.stops {p : Char → Bool} (blank : p ' ' = false) {text after : List Char}
    (blanked : Blanked (text.dropWhile p) after) : ∀ c, after.head? = some c → p c = false := by
  intro c head
  rcases blanked.head head with found | rfl
  · have stopped := List.head?_dropWhile_not p text
    simpa [found] using stopped
  · exact blank

namespace Lexeme

/-- The reading stays the same when what follows is changed to blanks. -/
def Keeps (reading : List Char → Lexeme) (rest : List Char) : Prop :=
  ∀ kind after, (reading rest).form = .ok kind → Blanked (reading rest).rest after →
    reading ((reading rest).text.tail ++ after) = ⟨.ok kind, (reading rest).text, after⟩

private theorem keeps_word (c : Char) (rest : List Char) : Keeps (word c) rest := by
  intro kind after form blanked
  cases form
  obtain ⟨taken, left⟩ := takeWhile_dropWhile_append
    (List.all_takeWhile : (rest.takeWhile isWordChar).all isWordChar) (blanked.stops (by decide))
  simp only [word, List.tail_cons, taken, left]

/-- A fraction is a point and at least one digit. -/
def Fraction (text : List Char) : Prop := ∃ d more, text = '.' :: d :: more ∧ d.isDigit

theorem number_of_not_fraction (c : Char) {digits after : List Char}
    (inside : digits.all Char.isDigit)
    (stops : ∀ d, after.head? = some d → d.isDigit = false) (whole : ¬ Fraction after) :
    number c (digits ++ after) = ⟨.ok .number, c :: digits, after⟩ := by
  obtain ⟨taken, left⟩ := takeWhile_dropWhile_append inside stops
  unfold number
  simp only [taken, left]
  split
  next d more =>
    have other : d.isDigit = false := by
      cases digit : d.isDigit with
      | false => rfl
      | true => exact absurd ⟨d, more, rfl, digit⟩ whole
    simp [other]
  next => rfl

private theorem number_of_fraction (c d : Char) {digits fraction after : List Char}
    (inside : digits.all Char.isDigit) (digit : d.isDigit) (others : fraction.all Char.isDigit)
    (stops : ∀ d, after.head? = some d → d.isDigit = false) :
    number c (digits ++ '.' :: d :: (fraction ++ after)) =
      ⟨.ok .number, c :: digits ++ '.' :: d :: fraction, after⟩ := by
  obtain ⟨taken, left⟩ := takeWhile_dropWhile_append inside
    (show ∀ e, ('.' :: d :: (fraction ++ after)).head? = some e → e.isDigit = false by simp)
  obtain ⟨others, behind⟩ := takeWhile_dropWhile_append others stops
  simp [number, taken, left, digit, others, behind]

private theorem not_fraction_of_blanked {text after : List Char} (blanked : Blanked text after)
    (whole : ¬ Fraction text) : ¬ Fraction after := by
  rintro ⟨d, more, rfl, digit⟩
  cases blanked with
  | cons point rest =>
    cases rest with
    | cons same _ =>
      apply whole
      rcases point with rfl | blank
      · rcases same with rfl | rfl
        · exact ⟨_, _, rfl, digit⟩
        · cases digit
      · cases blank

private theorem keeps_number (c : Char) (rest : List Char) : Keeps (number c) rest := by
  intro kind after form blanked
  have digits : (rest.takeWhile Char.isDigit).all Char.isDigit := List.all_takeWhile
  by_cases point : Fraction (rest.dropWhile Char.isDigit)
  · obtain ⟨d, more, found, digit⟩ := point
    have others : (more.takeWhile Char.isDigit).all Char.isDigit := List.all_takeWhile
    have read : number c rest = ⟨.ok .number, c :: rest.takeWhile Char.isDigit ++
        '.' :: d :: more.takeWhile Char.isDigit, more.dropWhile Char.isDigit⟩ := by
      simp [number, found, digit]
    rw [read] at form blanked ⊢
    cases form
    simpa using number_of_fraction c d digits digit others (blanked.stops (by decide))
  · have read := number_of_not_fraction c digits ((Blanked.refl _).stops (by decide)) point
    rw [List.takeWhile_append_dropWhile] at read
    rw [read] at form blanked ⊢
    cases form
    exact number_of_not_fraction c digits (blanked.stops (by decide))
      (not_fraction_of_blanked blanked point)

private theorem keeps_quoted (rest : List Char) : Keeps quoted rest := by
  intro kind after form blanked
  have body : (rest.takeWhile (· != '"')).all (· != '"') := List.all_takeWhile
  have stopped := List.head?_dropWhile_not (· != '"') rest
  cases found : rest.dropWhile (· != '"') with
  | nil => simp [quoted, found] at form
  | cons quote behind =>
    have closing : quote = '"' := by simpa [found] using stopped
    have read : quoted rest =
        ⟨.ok .string, '"' :: rest.takeWhile (· != '"') ++ [quote], behind⟩ := by
      simp [quoted, found]
    rw [read] at form blanked ⊢
    cases form
    obtain ⟨taken, left⟩ := takeWhile_dropWhile_append body
      (show ∀ c, (quote :: after).head? = some c → (c != '"') = false by simp [closing])
    simp [quoted, taken, left]

theorem comparison_of_ne (c : Char) (alone joined : TokenKind) {rest : List Char}
    (other : rest.head? ≠ some '=') : comparison c alone joined rest = ⟨.ok alone, [c], rest⟩ := by
  unfold comparison
  split
  next => simp at other
  next => rfl

private theorem keeps_comparison (c : Char) (alone joined : TokenKind) (rest : List Char) :
    Keeps (comparison c alone joined) rest := by
  intro kind after form blanked
  by_cases equals : rest.head? = some '='
  · obtain ⟨more, rfl⟩ := List.head?_eq_some_iff.mp equals
    cases form
    rfl
  · rw [comparison_of_ne c alone joined equals] at form blanked ⊢
    cases form
    apply comparison_of_ne
    intro equal
    rcases blanked.head equal with same | blank
    · exact equals same
    · cases blank

private theorem keeps_symbol (c : Char) (rest : List Char) : Keeps (symbol c) rest := by
  intro kind after
  unfold symbol
  split
  all_goals first
    | exact keeps_comparison _ _ _ rest kind after
    | (intro form _; cases form <;> rfl)

theorem keeps_read (c : Char) (rest : List Char) : Keeps (read c) rest := by
  by_cases letter : isLetter c
  · have same : read c = word c := by funext rest; simp [read, letter]
    rw [same]
    exact keeps_word c rest
  · by_cases digit : c.isDigit
    · have same : read c = number c := by funext rest; simp [read, letter, digit]
      rw [same]
      exact keeps_number c rest
    · by_cases quote : c = '"'
      · subst quote
        exact keeps_quoted rest
      · have same : read c = symbol c := by funext rest; simp [read, letter, digit, quote]
        rw [same]
        exact keeps_symbol c rest

end Lexeme

namespace Scanner

theorem skipLayout_rest_eq (inComment : Bool) (line other : Nat) (text : List Char) :
    (skipLayout inComment line text).2 = (skipLayout inComment other text).2 := by
  induction text generalizing inComment line other with
  | nil => rfl
  | cons c rest ih =>
    unfold skipLayout
    split
    · exact ih _ _ _
    · split
      · exact ih _ _ _
      · split
        · exact ih _ _ _
        · rfl

/-- Layout is told by its own characters alone. -/
theorem skipLayout_append {inComment : Bool} {line last : Nat} {c : Char} {text rest : List Char}
    (skipped : skipLayout inComment line text = (last, c :: rest)) :
    ∃ layout, text = layout ++ c :: rest ∧ (inComment → layout ≠ []) ∧
      ∀ after, skipLayout inComment line (layout ++ after) = skipLayout false last after := by
  induction text generalizing inComment line with
  | nil => cases skipped
  | cons first text ih =>
    rw [skipLayout] at skipped
    split at skipped
    next newline =>
      obtain ⟨layout, rfl, _, rest⟩ := ih skipped
      refine ⟨first :: layout, rfl, fun _ => List.cons_ne_nil _ _, fun after => ?_⟩
      rw [List.cons_append, skipLayout, if_pos newline, rest]
    next other =>
      split at skipped
      next comment =>
        obtain ⟨layout, rfl, more, rest⟩ := ih skipped
        refine ⟨first :: layout, rfl, fun _ => List.cons_ne_nil _ _, fun after => ?_⟩
        -- The second slash belongs to the comment, so it is layout as well.
        obtain ⟨second, layout, rfl⟩ := List.exists_cons_of_ne_nil (more rfl)
        have still : inComment || (first == '/' &&
            (second :: layout ++ after).head? == some '/') := comment
        rw [List.cons_append, skipLayout, if_neg other, if_pos still, rest]
      next plain =>
        have outside : inComment = false := by
          cases inComment with
          | false => rfl
          | true => exact absurd rfl plain
        subst outside
        split at skipped
        next blank =>
          obtain ⟨layout, rfl, _, rest⟩ := ih skipped
          refine ⟨first :: layout, rfl, fun inside => absurd inside Bool.false_ne_true, fun after => ?_⟩
          have slash : (first == '/') = false := by
            cases slash : first == '/' with
            | false => rfl
            | true =>
              rw [eq_of_beq slash] at blank
              cases blank
          rw [List.cons_append, skipLayout, if_neg other, slash, if_neg (by simp), if_pos blank, rest]
        next =>
          cases skipped
          exact ⟨[], rfl, fun inside => absurd inside Bool.false_ne_true, fun _ => rfl⟩

/-- A character that starts a lexeme still does when the text behind it is changed to
blanks. -/
theorem skipLayout_of_blanked {line : Nat} {c : Char} {rest after : List Char}
    (stops : skipLayout false line (c :: rest) = (line, c :: rest))
    (blanked : Blanked rest after) :
    skipLayout false line (c :: after) = (line, c :: after) := by
  have longer (inComment : Bool) (other : Nat) : skipLayout inComment other rest ≠ (line, c :: rest) := by
    intro same
    have shorter := length_skipLayout_le inComment other rest
    rw [same, List.length_cons] at shorter
    omega
  rw [skipLayout] at stops ⊢
  split at stops
  next => exact absurd stops (longer _ _)
  next newline =>
    split at stops
    next => exact absurd stops (longer _ _)
    next comment =>
      split at stops
      next => exact absurd stops (longer _ _)
      next blank =>
        have plain : ¬ (false || (c == '/' && after.head? == some '/')) := by
          intro slashes
          simp only [Bool.false_or, Bool.and_eq_true, beq_iff_eq] at slashes
          rcases blanked.head slashes.2 with same | space
          · exact comment (by simp [slashes.1, same])
          · cases space
        rw [if_neg newline, if_neg plain, if_neg blank]

/-- Blanks count as layout, and the newlines among them as before. -/
theorem skipLayout_blanks (line : Nat) (text after : List Char) :
    skipLayout false line (text.map blanked ++ after) =
      skipLayout false (line + text.count '\n') after := by
  induction text generalizing line with
  | nil => rfl
  | cons c text ih =>
    by_cases newline : c = '\n'
    · subst newline
      have same : blanked '\n' = '\n' := rfl
      rw [List.map_cons, List.cons_append, same, skipLayout, if_pos (by decide), ih, List.count_cons_self]
      congr 1
      omega
    · have same : blanked c = ' ' := if_neg newline
      rw [List.map_cons, List.cons_append, same, skipLayout, if_neg (by decide), if_neg (by simp),
        if_pos (by decide), ih, List.count_cons_of_ne newline]

end Scanner

end StackCalc
