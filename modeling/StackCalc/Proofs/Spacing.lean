import StackCalc.Proofs.Growth
import StackCalc.Proofs.Numbering
import StackCalc.Proofs.Placement

/-! Layout does not matter. Lexemes that are each a token of their own are the same tokens
one after another, however much layout stands between them; and what they compile to is
the same but for the lines. -/

namespace StackCalc

def SpaceChar (c : Char) : Prop := c ∈ [' ', '\t', '\r', '\n']

instance (c : Char) : Decidable (SpaceChar c) := inferInstanceAs (Decidable (c ∈ _))

/-- Blanks, newlines, and comments with the newline that ends each of them. -/
inductive Spacing : List Char → Prop where
  | nil : Spacing []
  | space {c rest} (space : SpaceChar c) (more : Spacing rest) : Spacing (c :: rest)
  | comment {body rest} (inside : '\n' ∉ body) (more : Spacing rest) :
      Spacing ('/' :: '/' :: body ++ '\n' :: rest)

/-- What keeps two lexemes apart: it begins with a blank or a newline. -/
inductive Separator : List Char → Prop where
  | space {c rest} (space : SpaceChar c) (more : Spacing rest) : Separator (c :: rest)

/-- What may stand before the first lexeme and behind the last. -/
def Margin (text : List Char) : Prop := text = [] ∨ Separator text

/-- What follows a lexeme, with all the lexemes that are still to come. -/
inductive Follows : List String → List Char → Prop where
  | last {margin} (behind : Margin margin) : Follows [] margin
  | next {gap lexeme lexemes rest} (between : Separator gap) (others : Follows lexemes rest) :
      Follows (lexeme :: lexemes) (gap ++ (lexeme.toList ++ rest))

/-- The text is these lexemes in this order, in some layout. -/
inductive LaidOut : List String → List Char → Prop where
  | none {margin other} (before : Margin margin) (behind : Margin other) :
      LaidOut [] (margin ++ other)
  | some {margin lexeme lexemes rest} (before : Margin margin) (others : Follows lexemes rest) :
      LaidOut (lexeme :: lexemes) (margin ++ (lexeme.toList ++ rest))

/-- A token without its line. -/
def Token.word (token : Token) : TokenKind × String := (token.kind, token.lexeme)

def Tile.word (tile : Tile) : TokenKind × String := (tile.kind, tile.lexeme)

/-- A compile error without its line. -/
def CompileError.said (error : CompileError) : Location × String := (error.location, error.message)

/-- By itself the lexeme is one token, of this kind, and no error. -/
def Alone (word : TokenKind × String) : Prop :=
  word.1 ≠ .error ∧ ∃ line last, tokensOf word.2 = [⟨word.1, word.2, line⟩, ⟨.eof, "", last⟩]

private theorem SpaceChar.not_wordChar {c : Char} (space : SpaceChar c) :
    ¬ (LetterChar c ∨ DigitChar c) := by
  rw [← isWordChar_iff]
  simp only [SpaceChar, List.mem_cons, List.not_mem_nil, or_false] at space
  rcases space with rfl | rfl | rfl | rfl <;> decide

/-- Of all that is written for a token, only a string can hold a blank. -/
theorem Written.quoted_of_space {kind : TokenKind} {text : List Char} (written : Written kind text)
    {c : Char} (space : SpaceChar c) (member : c ∈ text) :
    ∃ body, text = '"' :: body ++ ['"'] ∧ '"' ∉ body := by
  have digits {digits : List Char} (inside : ∀ d ∈ digits, DigitChar d) : c ∉ digits :=
    fun member => space.not_wordChar (.inr (inside c member))
  cases written with
  | symbol spelt =>
    have plain : (text.all fun d => decide (¬ SpaceChar d)) = true := by
      cases kind <;> cases spelt <;> rfl
    exact absurd space (of_decide_eq_true (List.all_eq_true.mp plain c member))
  | whole some inside => exact absurd member (digits inside)
  | fraction some inside more others =>
    rcases List.mem_append.mp member with member | member
    · exact absurd member (digits inside)
    · rcases List.mem_cons.mp member with rfl | member
      · exact absurd space (by decide)
      · exact absurd member (digits others)
  | quoted inside => exact ⟨_, rfl, inside⟩
  | word starts inside names =>
    rcases List.mem_cons.mp member with rfl | member
    · exact absurd (.inl starts) space.not_wordChar
    · exact absurd (inside c member) space.not_wordChar

/-- What begins with neither a letter nor a digit is spelt in one way, or it is a string. -/
theorem Written.symbol_or_quoted {kind : TokenKind} {c : Char} {tail : List Char}
    (written : Written kind (c :: tail)) (other : ¬ (LetterChar c ∨ DigitChar c)) :
    kind.spelling? = some (c :: tail) ∨ ∃ body, c = '"' ∧ tail = body ++ ['"'] := by
  generalize same : c :: tail = text at written
  cases written with
  | symbol spelt => exact .inl spelt
  | whole some inside =>
    subst same
    exact absurd (.inr (inside c List.mem_cons_self)) other
  | fraction some inside =>
    obtain ⟨digit, digits, rfl⟩ := List.exists_cons_of_ne_nil some
    cases same
    exact absurd (.inr (inside c List.mem_cons_self)) other
  | quoted inside =>
    cases same
    exact .inr ⟨_, rfl, rfl⟩
  | word starts inside names =>
    cases same
    exact absurd (.inl starts) other

/-- What begins with a quote ends with one. -/
theorem Written.closed {kind : TokenKind} {tail : List Char} (written : Written kind ('"' :: tail)) :
    ∃ body, tail = body ++ ['"'] := by
  rcases written.symbol_or_quoted (by rw [← isWordChar_iff]; decide) with spelt | ⟨body, _, split⟩
  · cases kind <;> cases spelt
  · exact ⟨body, split⟩

/-- Only the slash itself is written with a slash in front. -/
theorem Written.slash {kind : TokenKind} {tail : List Char} (written : Written kind ('/' :: tail)) :
    tail = [] := by
  rcases written.symbol_or_quoted (by rw [← isWordChar_iff]; decide) with spelt | ⟨_, quote, _⟩
  · cases kind <;> cases spelt
    rfl
  · cases quote

/-- Nothing follows, or a blank does. -/
def Apart (rest : List Char) : Prop := ∀ c, rest.head? = some c → SpaceChar c

private theorem Separator.apart {gap : List Char} (separator : Separator gap) (rest : List Char) :
    Apart (gap ++ rest) := by
  cases separator with
  | space space more =>
    intro c head
    cases head
    exact space

private theorem Follows.apart {lexemes : List String} {rest : List Char}
    (follows : Follows lexemes rest) : Apart rest := by
  cases follows with
  | last behind =>
    rcases behind with rfl | separator
    · intro c head
      cases head
    · have apart := separator.apart []
      rwa [List.append_nil] at apart
  | next between others => exact between.apart _

section Neighbours

variable {kind : TokenKind} {text rest : List Char}

private theorem Written.bare (written : Written kind text) (apart : Apart rest) :
    Bare (text ++ rest) := by
  obtain ⟨c, tail, rfl⟩ := written.exists_cons
  have solid : ¬ SpaceChar c := by
    intro space
    obtain ⟨body, whole, _⟩ := written.quoted_of_space space List.mem_cons_self
    cases whole
    exact absurd space (by decide)
  by_cases slash : c = '/'
  · subst slash
    rw [written.slash]
    intro piece after split gap
    cases gap with
    | blank kind =>
      cases split
      exact solid kind
    | comment inside ends =>
      cases split
      exact absurd (apart '/' rfl) solid
  · apply bare_of_not_mem
    intro member
    rcases List.mem_append.mp (show c ∈ [' ', '\t', '\r', '\n'] ++ ['/'] from member) with space | other
    · exact solid space
    · exact slash (List.mem_singleton.mp other)

/-- With a blank behind it, a lexeme is taken as it is. A longer one would hold the blank, so
it would be a string, and that ends where it is closed. -/
theorem Written.munch (written : Written kind text) (apart : Apart rest) :
    Munch text rest kind (String.ofList text) := by
  apply Munch.lexeme written
  intro other longer also front
  apply Nat.le_of_not_lt
  intro more
  obtain ⟨behind, rfl⟩ : text <+: longer :=
    List.prefix_of_prefix_length_le (List.prefix_append text rest) front (Nat.le_of_lt more)
  obtain ⟨c, tail, rfl⟩ : ∃ c tail, behind = c :: tail := by
    apply List.exists_cons_of_ne_nil
    intro empty
    simp [empty] at more
  obtain ⟨after, split⟩ := (List.prefix_append_right_inj text).mp front
  have space : SpaceChar c := apart c (by rw [← split]; rfl)
  obtain ⟨body, whole, inside⟩ := also.quoted_of_space space (by simp)
  obtain ⟨first, others, rfl⟩ := written.exists_cons
  obtain ⟨rfl, _⟩ := List.cons.inj whole
  obtain ⟨inner, rfl⟩ := written.closed
  have same : inner ++ ['"'] ++ (c :: tail) = body ++ ['"'] := (List.cons.inj whole).2
  have closed : body = inner ++ ['"'] ++ (c :: tail).dropLast := by
    have ends := congrArg List.dropLast same
    rw [List.dropLast_concat, List.dropLast_append_of_ne_nil (List.cons_ne_nil c tail)] at ends
    exact ends.symm
  exact inside (by simp [closed])

end Neighbours

private theorem Spacing.layout {gap after : List Char} (spacing : Spacing gap) (bare : Bare after) :
    Layout gap after := by
  induction spacing with
  | nil => exact .none bare
  | @space c rest space more ih =>
    have blank : Gap [c] (rest ++ after) := .blank space
    exact .more blank ih
  | @comment body rest inside more ih =>
    have newline : Gap ['\n'] (rest ++ after) := .blank (by decide)
    have comment : Gap ('/' :: '/' :: body) (['\n'] ++ rest ++ after) := .comment inside (.inr rfl)
    exact .more comment (.more newline ih)

private theorem Separator.spacing {gap : List Char} (separator : Separator gap) : Spacing gap := by
  cases separator with
  | space space more => exact .space space more

private theorem Margin.spacing {margin : List Char} (free : Margin margin) : Spacing margin := by
  rcases free with rfl | separator
  · exact .nil
  · exact separator.spacing

private theorem Spacing.append {first second : List Char} (spacing : Spacing first)
    (others : Spacing second) : Spacing (first ++ second) := by
  induction spacing with
  | nil => exact others
  | space space more ih => exact .space space ih
  | comment inside more ih =>
    rw [List.append_assoc, List.cons_append]
    exact .comment inside ih

private theorem Munch.written {text rest : List Char} {kind : TokenKind} {lexeme : String}
    (munch : Munch text rest kind lexeme) (proper : kind ≠ .error) : Written kind lexeme.toList := by
  cases munch with
  | lexeme written => rwa [String.toList_ofList]
  | _ => exact absurd rfl proper

private theorem Alone.written {word : TokenKind × String} (alone : Alone word) :
    Written word.1 word.2.toList := by
  obtain ⟨proper, line, last, tokens⟩ := alone
  obtain ⟨tiles, ending, tiling⟩ := exists_tiling word.2.toList
  rw [tokensOf_eq tiling] at tokens
  cases tiles with
  | nil => simp [Tile.tokens] at tokens
  | cons tile tiles =>
    obtain ⟨token, _⟩ := List.cons.inj tokens
    simp only [Token.mk.injEq] at token
    obtain ⟨kind, lexeme, _⟩ := token
    obtain ⟨_, munch, _⟩ := tiling.stands [] _ List.mem_cons_self
    rw [kind, lexeme] at munch
    exact munch.written proper

/-- A lexeme is a tile, with the layout before it and a blank, or nothing, behind it. -/
theorem Tiling.lexeme {kind : TokenKind} {lexeme : String} {gap rest last : List Char}
    {tiles : List Tile} (written : Written kind lexeme.toList) (spacing : Spacing gap)
    (apart : Apart rest) (others : Tiling rest tiles last) :
    Tiling (gap ++ (lexeme.toList ++ rest)) (⟨gap, lexeme.toList, kind, lexeme⟩ :: tiles) last := by
  let tile : Tile := ⟨gap, lexeme.toList, kind, lexeme⟩
  have skipped : Layout tile.layout (tile.text ++ rest) := spacing.layout (written.bare apart)
  have taken : Munch tile.text rest tile.kind tile.lexeme := by
    have munch := written.munch apart
    rwa [String.ofList_toList] at munch
  exact .tile skipped taken others

private theorem Spacing.tiling {gap : List Char} (spacing : Spacing gap) : Tiling gap [] gap := by
  have layout := spacing.layout bare_nil
  exact .ended layout

section Words

variable {words : List (TokenKind × String)} {text : List Char}

private theorem Follows.tiling (written : ∀ word ∈ words, Written word.1 word.2.toList)
    (follows : Follows (words.map Prod.snd) text) :
    ∃ tiles last, Tiling text tiles last ∧ tiles.map Tile.word = words := by
  induction words generalizing text with
  | nil =>
    cases follows with
    | last behind => exact ⟨[], text, behind.spacing.tiling, rfl⟩
  | cons word words ih =>
    obtain ⟨first, others⟩ := List.forall_mem_cons.mp written
    cases follows with
    | next between rest =>
      obtain ⟨tiles, last, tiling, same⟩ := ih others rest
      refine ⟨_, last, Tiling.lexeme first between.spacing rest.apart tiling, ?_⟩
      rw [List.map_cons, same]
      rfl

private theorem LaidOut.tiling (written : ∀ word ∈ words, Written word.1 word.2.toList)
    (laid : LaidOut (words.map Prod.snd) text) :
    ∃ tiles last, Tiling text tiles last ∧ tiles.map Tile.word = words := by
  cases words with
  | nil =>
    cases laid with
    | none before behind =>
      exact ⟨[], _, (before.spacing.append behind.spacing).tiling, rfl⟩
  | cons word words =>
    obtain ⟨first, others⟩ := List.forall_mem_cons.mp written
    cases laid with
    | some before rest =>
      obtain ⟨tiles, last, tiling, same⟩ := rest.tiling others
      refine ⟨_, last, Tiling.lexeme first before.spacing rest.apart tiling, ?_⟩
      rw [List.map_cons, same]
      rfl

private theorem map_word_tokens (line : Nat) (tiles : List Tile) :
    (Tile.tokens line tiles).map Token.word = tiles.map Tile.word := by
  induction tiles generalizing line with
  | nil => rfl
  | cons tile tiles ih =>
    rw [Tile.tokens, List.map_cons, List.map_cons, ih]
    rfl

private theorem words_of_laidOut {source : String} (alone : ∀ word ∈ words, Alone word)
    (laid : LaidOut (words.map Prod.snd) source.toList) :
    (tokensOf source).map Token.word = words ++ [(.eof, "")] := by
  obtain ⟨tiles, last, tiling, same⟩ := laid.tiling fun word member => (alone word member).written
  rw [tokensOf_eq tiling, List.map_append, map_word_tokens, same]
  rfl

end Words

namespace Directive

variable (line : Nat → Nat)

private theorem bytes_onLine (number : Nat) (directives : List Directive) :
    (cells number (directives.map (.onLine line))).map Prod.fst =
      (cells number directives).map Prod.fst := by
  induction directives generalizing number with
  | nil => rfl
  | cons directive directives ih =>
    cases directive with
    | operation action place => simp [cells, onLine, ih]
    | number token => simp [cells, onLine, ih]
    | report error => simp [cells, onLine, ih]

private theorem values_onLine (directives : List Directive) :
    values (directives.map (.onLine line)) = values directives := by
  induction directives with
  | nil => rfl
  | cons directive directives ih =>
    have split (first : Directive) (rest : List Directive) :
        values (first :: rest) = values [first] ++ values rest := values_append [first] rest
    rw [List.map_cons, split, split directive, ih]
    cases directive <;> rfl

end Directive

/-- With each token on a line of its own, only the words count. -/
theorem numbered_congr {first second : List Token}
    (same : first.map Token.word = second.map Token.word) : numbered first = numbered second := by
  apply List.ext_getElem?
  intro place
  have word := congrArg (·[place]?) same
  simp only [List.getElem?_map] at word
  rw [getElem?_numbered, getElem?_numbered]
  cases found : first[place]? with
  | none =>
    cases other : second[place]? with
    | none => rfl
    | some token => simp [found, other] at word
  | some token =>
    cases other : second[place]? with
    | none => simp [found, other] at word
    | some also =>
      simp only [found, other, Option.map_some, Token.word, Option.some.injEq, Prod.mk.injEq] at word
      simp [word.1, word.2]

/-- The code and the constants that a source compiles to, told without any lines. -/
theorem compile_numbered (config : Config) (source : String) (chunk : Chunk) :
    let directives := Parser.directivesOf (numbered (tokensOf source))
    let compiled := compile config source chunk
    compiled.chunk.code.toList = chunk.code.toList ++
        (Directive.cells chunk.constants.size directives).map Prod.fst ∧
      compiled.chunk.constants.toList = chunk.constants.toList ++
        (Directive.values directives).take (maxConstants - chunk.constants.size) ∧
      compiled.errors.map CompileError.said =
        (Assembly.ofTokens (numbered (tokensOf source)) chunk).errors.map CompileError.said := by
  intro directives compiled
  have ended := ended_tokensOf source
  have lines : Parser.directivesOf (tokensOf source) =
      directives.map (.onLine (lineOf (tokensOf source))) := by
    rw [← Parser.directivesOf_onLine _ ended.numbered, map_lineOf_numbered]
  have grows := Chunk.grows_compile config source chunk
  simp only [lines] at grows
  refine ⟨?_, ?_, ?_⟩
  · rw [grows.code, Directive.bytes_onLine]
  · rw [grows.constants, Directive.values_onLine]
  · have errors : compiled.errors = (Assembly.ofTokens (tokensOf source) chunk).errors := rfl
    rw [errors, errors_numbered ended, List.map_map]
    rfl

private theorem compile_of_words {first second : String}
    (same : (tokensOf first).map Token.word = (tokensOf second).map Token.word)
    (config other : Config) (chunk : Chunk) :
    let one := compile config first chunk
    let two := compile other second chunk
    one.chunk.code = two.chunk.code ∧ one.chunk.constants = two.chunk.constants ∧
      one.errors.map CompileError.said = two.errors.map CompileError.said := by
  obtain ⟨code, constants, errors⟩ := compile_numbered config first chunk
  obtain ⟨otherCode, otherConstants, otherErrors⟩ := compile_numbered other second chunk
  rw [numbered_congr same] at code constants errors
  refine ⟨?_, ?_, errors.trans otherErrors.symm⟩
  · exact Array.toList_inj.mp (code.trans otherCode.symm)
  · exact Array.toList_inj.mp (constants.trans otherConstants.symm)

/-- Lexemes that are each one token by themselves are these tokens in any layout, and then
the source ends. In any two layouts they compile to the same code and constants, and fail
with the same message at the same place, or not at all. -/
theorem layout_irrelevant (words : List (TokenKind × String)) (alone : ∀ word ∈ words, Alone word) :
    (∀ source : String, LaidOut (words.map Prod.snd) source.toList →
      (tokensOf source).map Token.word = words ++ [(.eof, "")]) ∧
    ∀ first second : String, LaidOut (words.map Prod.snd) first.toList →
      LaidOut (words.map Prod.snd) second.toList →
      ∀ (config other : Config) (chunk : Chunk),
        let one := compile config first chunk
        let two := compile other second chunk
        one.chunk.code = two.chunk.code ∧ one.chunk.constants = two.chunk.constants ∧
          one.errors.map CompileError.said = two.errors.map CompileError.said := by
  refine ⟨fun source laid => words_of_laidOut alone laid, ?_⟩
  intro first second laid also config other chunk
  have same := (words_of_laidOut alone laid).trans (words_of_laidOut alone also).symm
  exact compile_of_words same config other chunk

/-- A slash before a comment, and a string with a comment and a newline in it. -/
theorem layout_irrelevant_around_slashes :
    let words : List (TokenKind × String) := [(.slash, "/"), (.string, "\"//\n\"")]
    let first := "/ \"//\n\""
    let second := "\n/\t// /\n\"//\n\" //\n"
    (∀ word ∈ words, Alone word) ∧ LaidOut (words.map Prod.snd) first.toList ∧
    LaidOut (words.map Prod.snd) second.toList ∧
    (tokensOf second).map Token.word = words ++ [(.eof, "")] ∧
    let one := compile {} first .empty
    let two := compile {} second .empty
    one.chunk.code = two.chunk.code ∧ one.chunk.constants = two.chunk.constants ∧
      one.errors.map CompileError.said = two.errors.map CompileError.said := by
  intro words first second
  have slash : Alone (.slash, "/") := ⟨by decide, 1, 1, by decide +kernel⟩
  have string : Alone (.string, "\"//\n\"") := ⟨by decide, 2, 2, by decide +kernel⟩
  have alone : ∀ word ∈ words, Alone word :=
    List.forall_mem_cons.mpr ⟨slash, List.forall_mem_cons.mpr ⟨string, nofun⟩⟩
  have plain : LaidOut (words.map Prod.snd) first.toList := by
    have split : first.toList = [] ++ ("/".toList ++ ([' '] ++ ("\"//\n\"".toList ++ []))) := by decide
    rw [split]
    exact .some (.inl rfl) (.next (.space (by decide) .nil) (.last (.inl rfl)))
  have wide : LaidOut (words.map Prod.snd) second.toList := by
    have split : second.toList = ['\n'] ++ ("/".toList ++ (['\t', '/', '/', ' ', '/', '\n'] ++
        ("\"//\n\"".toList ++ [' ', '/', '/', '\n']))) := by decide
    have between : Separator ['\t', '/', '/', ' ', '/', '\n'] :=
      .space (by decide) (.comment (by decide : '\n' ∉ [' ', '/']) .nil)
    have behind : Separator [' ', '/', '/', '\n'] :=
      .space (by decide) (.comment (by decide : '\n' ∉ []) .nil)
    rw [split]
    exact .some (.inr (.space (by decide) .nil)) (.next between (.last (.inr behind)))
  obtain ⟨tokens, same⟩ := layout_irrelevant words alone
  exact ⟨alone, plain, wide, tokens second wide, same first second plain wide {} {} .empty⟩

end StackCalc
