import StackCalc.Proofs.LinearOutput
import StackCalc.Proofs.Placement

/-! Lines are counted exactly once. However newlines come to be skipped or taken, the line of
a token counts those up to the end of its text; so lines only go up from token to token, and
since code takes its lines from tokens that were consumed, from byte to byte as well. -/

namespace StackCalc

open StackCalc.Parser

private theorem Tile.tokens_append (line : Nat) (front behind : List Tile) :
    tokens line (front ++ behind) =
      tokens line front ++ tokens (line + (front.flatMap whole).count '\n') behind := by
  induction front generalizing line with
  | nil => rfl
  | cons tile front ih => simp [tokens, ih, Nat.add_assoc]

private theorem Tile.length_tokens (line : Nat) (tiles : List Tile) :
    (tokens line tiles).length = tiles.length := by
  induction tiles generalizing line with
  | nil => rfl
  | cons tile tiles ih => simp [tokens, ih]

/-- Each tile is taken of what the tiles behind it and the layout at the end make up. -/
theorem Tiling.munch {text last : List Char} {front behind : List Tile} {tile : Tile}
    (tiling : Tiling text (front ++ tile :: behind) last) :
    Munch tile.text (behind.flatMap Tile.whole ++ last) tile.kind tile.lexeme := by
  generalize same : front ++ tile :: behind = tiles at tiling
  induction tiling generalizing front with
  | ended => simp at same
  | tile skipped taken others ih =>
    cases front with
    | nil =>
      cases same
      rwa [← others.eq_flatMap]
    | cons first front => exact ih (List.cons.inj same).2

private theorem Munch.rest_of_unterminated {text rest : List Char} {kind : TokenKind}
    {lexeme : String}
    (munch : Munch text rest kind lexeme) (error : kind = .error)
    (message : lexeme = "Unterminated string.") : rest = [] := by
  cases munch with
  | lexeme written => exact absurd error written.ordinary.1
  | unterminated => rfl
  | unexpected => simp at message

namespace Scanner

/-- A call takes a piece of the text and counts its newlines, and the token is on the line that
the scanner has come to. -/
theorem scanToken_line (scanner : Scanner) :
    ∃ taken, scanner.rest = taken ++ scanner.scanToken.2.rest ∧
      scanner.scanToken.2.line = scanner.line + taken.count '\n' ∧
      scanner.scanToken.1.line = scanner.scanToken.2.line := by
  obtain ⟨tiles, last, tiling⟩ := exists_tiling scanner.rest
  generalize whole : scanner.rest = text at tiling
  cases tiling with
  | ended skipped =>
    rw [scanToken_of_layout skipped whole]
    exact ⟨last, (List.append_nil last).symm, rfl, rfl⟩
  | @tile tile rest _ _ skipped taken _ =>
    rw [scanToken_of_munch skipped taken whole]
    exact ⟨tile.layout ++ tile.text, (List.append_assoc _ _ _).symm, rfl, rfl⟩

private theorem line_le_call (scanner : Scanner) (calls : Nat) :
    scanner.line ≤ (scanner.call calls).line := by
  induction calls generalizing scanner with
  | zero =>
    obtain ⟨taken, _, count, same⟩ := scanner.scanToken_line
    rw [call, same, count]
    exact Nat.le_add_right _ _
  | succ calls ih =>
    obtain ⟨taken, _, count, _⟩ := scanner.scanToken_line
    calc scanner.line
        ≤ scanner.scanToken.2.line := count ▸ Nat.le_add_right _ _
      _ ≤ (scanner.scanToken.2.call calls).line := ih _

private theorem line_call_mono (scanner : Scanner) {calls later : Nat} (order : calls ≤ later) :
    (scanner.call calls).line ≤ (scanner.call later).line := by
  induction calls generalizing scanner later with
  | zero =>
    cases later with
    | zero => exact Nat.le_refl _
    | succ later =>
      obtain ⟨taken, _, _, same⟩ := scanner.scanToken_line
      rw [call, call, same]
      exact line_le_call _ later
  | succ calls ih =>
    cases later with
    | zero => exact absurd order (Nat.not_succ_le_zero calls)
    | succ later => exact ih _ (Nat.le_of_succ_le_succ order)

private theorem call_of_getElem? {source : String} {place : Nat} {token : Token}
    (found : (tokensOf source)[place]? = some token) : (ofString source).call place = token := by
  obtain ⟨tiles, last, tiling⟩ := exists_tiling source.toList
  have handed : (ofString source).call place = _ := tiling.call rfl place
  rw [tokensOf_eq tiling] at found
  rw [handed]
  by_cases inside : place < (Tile.tokens 1 tiles).length
  · rw [List.getElem?_append_left inside] at found
    rw [show (ofString source).line = 1 from rfl, found]
    rfl
  · have outside := Nat.le_of_not_lt inside
    rw [List.getElem?_append_right outside] at found
    rw [show (ofString source).line = 1 from rfl, List.getElem?_eq_none outside]
    exact (List.mem_singleton.mp (List.mem_of_getElem? found)).symm

end Scanner

private theorem lines_tokensOf (source : String) :
    (tokensOf source).Pairwise fun token later => token.line ≤ later.line := by
  rw [List.pairwise_iff_getElem]
  intro place later first second before
  rw [← Scanner.call_of_getElem? (List.getElem?_eq_getElem first),
    ← Scanner.call_of_getElem? (List.getElem?_eq_getElem second)]
  exact Scanner.line_call_mono _ (Nat.le_of_lt before)

namespace Parser

/-- The line of each byte that the directives so far come to. -/
def lines (parser : Parser) : List Nat :=
  (Directive.cells 0 parser.directives.toList).map Prod.snd

/-- Lines go up, in the code so far, from there to the last token that was consumed, and from
this on to the tokens that are still to come. -/
structure Ascends (parser : Parser) : Prop where
  code : parser.lines.Pairwise (· ≤ ·)
  below : ∀ line ∈ parser.lines, line ≤ parser.previous.line
  tokens : (parser.previous :: parser.current :: parser.rest).Pairwise
    fun token later => token.line ≤ later.line

private theorem lines_direct (parser : Parser) (directive : Directive) :
    (parser.direct directive).lines =
      parser.lines ++ (Directive.cells 0 [directive]).map Prod.snd := by
  rw [lines, direct, Array.toList_push, Directive.cells_append, List.map_append,
    Directive.lines_cells (0 + _) 0, ← lines]

private theorem lines_advance (parser : Parser) : parser.advance.lines = parser.lines := by
  rw [lines, directives_advance, Array.toList_append, Directive.cells_append, List.map_append,
    Directive.cells_lexical, List.map_nil, List.append_nil, ← lines]

/-- Code on the line of the last token that was consumed goes behind the code so far. -/
theorem Ascends.direct {parser : Parser} (ascends : parser.Ascends) {directive : Directive}
    (own : ∀ line ∈ (Directive.cells 0 [directive]).map Prod.snd, line = parser.previous.line) :
    (parser.direct directive).Ascends := by
  refine ⟨?_, ?_, ascends.tokens⟩
  · rw [lines_direct]
    refine List.pairwise_append.mpr ⟨ascends.code, ?_, ?_⟩
    · exact List.pairwise_of_forall_mem_list fun line member other also =>
        Nat.le_of_eq ((own line member).trans (own other also).symm)
    · intro line member other new
      rw [own other new]
      exact ascends.below line member
  · intro line member
    rw [lines_direct] at member
    rcases List.mem_append.mp member with before | new
    · exact ascends.below line before
    · exact Nat.le_of_eq (own line new)

private theorem Ascends.advance {parser : Parser} (ascends : parser.Ascends) :
    parser.advance.Ascends := by
  obtain ⟨first, tokens⟩ := List.pairwise_cons.mp ascends.tokens
  have previous : parser.advance.previous = parser.current := previous_advance parser
  refine ⟨by rw [lines_advance]; exact ascends.code, ?_, ?_⟩
  · intro line member
    rw [lines_advance] at member
    rw [previous]
    exact Nat.le_trans (ascends.below line member) (first _ List.mem_cons_self)
  · rcases pull_cases { parser with previous := parser.current } parser.rest with
      ⟨skipped, token, rest, split, _, _, result⟩ | ⟨_, result⟩
    · rw [Parser.advance, result]
      rw [split] at tokens
      exact tokens.sublist (.cons_cons _ (List.sublist_append_right skipped _))
    · rw [Parser.advance, result]
      simp

private theorem Ascends.step {before after : Parser} (ascends : before.Ascends)
    (step : Step before after) : after.Ascends := by
  cases step with
  | advance => exact ascends.advance
  | operation inner => exact ascends.direct (by simp [Directive.cells])
  | number kind => exact ascends.direct (by simp [Directive.cells])
  | unfit => exact ascends.direct (List.forall_mem_nil _)
  | blocked syntactic => exact ascends.direct (List.forall_mem_nil _)

private theorem Ascends.steps {before after : Parser} (ascends : before.Ascends)
    (steps : Steps before after) : after.Ascends := by
  induction steps with
  | refl => exact ascends
  | tail _ step ih => exact ih.step step

private theorem ascends_start {tokens : List Token} (positive : ∀ token ∈ tokens, 1 ≤ token.line)
    (order : tokens.Pairwise fun token later => token.line ≤ later.line) :
    (ofTokens tokens).Ascends where
  code := .nil
  below := List.forall_mem_nil _
  tokens := by
    have all : ∀ token ∈ tokens, (ofTokens tokens).current.line ≤ token.line := positive
    exact .cons (List.forall_mem_cons.mpr ⟨Nat.le_refl _, all⟩) (.cons all order)

end Parser

private theorem lines_directivesOf (source : String) (number : Nat) :
    ((Directive.cells number (directivesOf (tokensOf source))).map Prod.snd).Pairwise (· ≤ ·) := by
  have start := ascends_start (fun token member => (line_of_mem_tokensOf member).1)
    (lines_tokensOf source)
  have last := start.advance.steps (readAll_steps (tokensOf source))
  rw [directivesOf_eq, Directive.lines_cells number 0]
  generalize readAll (tokensOf source) = parser at last
  have whole : (parser.direct (.operation .return parser.previous.line)).Ascends :=
    last.direct (by simp [Directive.cells])
  simpa [Parser.lines, Parser.direct] using whole.code

/-- The tokens that a source is scanned into are those of its tiles. Each is on the line that
counts the newlines up to the end of its text, which for a string that is not closed is the end
of the source; behind the last tile the line counts all newlines. So lines never go down, neither
from token to token nor, whether the source compiles or not, from byte to byte of its code. -/
theorem line_numbers_exact (config : Config) (source : String) (chunk : Chunk) :
    let scanner := Scanner.ofString source
    (∃ tiles last, Tiling source.toList tiles last ∧
      (∀ front tile behind, tiles = front ++ tile :: behind →
        let before := front.flatMap Tile.whole ++ tile.layout
        let after := behind.flatMap Tile.whole ++ last
        source.toList = before ++ (tile.text ++ after) ∧
        Munch tile.text after tile.kind tile.lexeme ∧
        scanner.call front.length =
          ⟨tile.kind, tile.lexeme, 1 + (before ++ tile.text).count '\n'⟩ ∧
        (tile.kind = .error → tile.lexeme = "Unterminated string." →
          before ++ tile.text = source.toList)) ∧
      ∀ calls, tiles.length ≤ calls →
        scanner.call calls = ⟨.eof, "", 1 + source.toList.count '\n'⟩) ∧
    (∀ calls later, calls ≤ later → (scanner.call calls).line ≤ (scanner.call later).line) ∧
    ∃ lines, (compile config source chunk).chunk.lines.toList = chunk.lines.toList ++ lines ∧
      lines.Pairwise (· ≤ ·) := by
  intro scanner
  obtain ⟨tiles, last, tiling⟩ := exists_tiling source.toList
  refine ⟨⟨tiles, last, tiling, ?_, ?_⟩, fun _ _ => Scanner.line_call_mono scanner, _,
    (Chunk.grows_compile config source chunk).lines, lines_directivesOf source _⟩
  · rintro front tile behind rfl before after
    have split : source.toList = before ++ (tile.text ++ after) := by
      simpa [before, after, Tile.whole] using tiling.eq_flatMap
    refine ⟨split, tiling.munch, ?_, ?_⟩
    · have handed : scanner.call front.length = _ := tiling.call rfl front.length
      have line : 1 + (front.flatMap Tile.whole).count '\n' + tile.whole.count '\n' =
          1 + (before ++ tile.text).count '\n' := by
        simp only [before, Tile.whole, List.count_append, Nat.add_assoc]
      rw [handed, Tile.tokens_append, List.getElem?_append_right (Tile.length_tokens _ _).le,
        Tile.length_tokens, Nat.sub_self, ← line]
      rfl
    · intro error message
      have none : after = [] := tiling.munch.rest_of_unterminated error message
      rw [split, none, List.append_nil]
  · intro calls beyond
    have handed : scanner.call calls = _ := tiling.call rfl calls
    rw [handed, List.getElem?_eq_none (by rwa [Tile.length_tokens])]
    rfl

end StackCalc
