import StackCalc.Proofs.LongestMatch

/-! A text is tiled, from left to right and in one way only, by layout and by what is
taken behind it. The scanner hands out the tiles one after another, and then the end of
the text as often as it is asked. -/

namespace StackCalc

/-- A piece of layout: a blank, a newline, or a comment up to the end of its line. -/
inductive Gap : (piece after : List Char) → Prop where
  | blank {c after} (kind : c ∈ [' ', '\t', '\r', '\n']) : Gap [c] after
  | comment {body after} (inside : '\n' ∉ body) (ends : after = [] ∨ after.head? = some '\n') :
      Gap ('/' :: '/' :: body) after

/-- The text does not begin with layout. -/
def Bare (text : List Char) : Prop := ∀ piece after, text = piece ++ after → ¬ Gap piece after

/-- All the layout there is at the beginning of a text. -/
inductive Layout : (layout after : List Char) → Prop where
  | none {after} (bare : Bare after) : Layout [] after
  | more {piece layout after} (gap : Gap piece (layout ++ after)) (rest : Layout layout after) :
      Layout (piece ++ layout) after

/-- Layout, and the text of one token behind it. -/
structure Tile where
  layout : List Char
  text : List Char
  kind : TokenKind
  lexeme : String

/-- The tiles of a text, and the layout at its end. -/
inductive Tiling : (text : List Char) → List Tile → (last : List Char) → Prop where
  | ended {layout} (skipped : Layout layout []) : Tiling layout [] layout
  | tile {tile rest tiles last} (skipped : Layout tile.layout (tile.text ++ rest))
      (taken : Munch tile.text rest tile.kind tile.lexeme) (others : Tiling rest tiles last) :
      Tiling (tile.layout ++ (tile.text ++ rest)) (tile :: tiles) last

namespace Tile

def whole (tile : Tile) : List Char := tile.layout ++ tile.text

/-- Each token is on the line on which its tile ends. -/
def tokens (line : Nat) : List Tile → List Token
  | [] => []
  | tile :: tiles =>
    let line := line + tile.whole.count '\n'
    ⟨tile.kind, tile.lexeme, line⟩ :: tokens line tiles

end Tile

namespace Scanner

/-- What is handed out after this many calls. -/
def call (scanner : Scanner) : Nat → Token
  | 0 => scanner.scanToken.1
  | calls + 1 => scanner.scanToken.2.call calls

private theorem skipLayout_comment {body after : List Char} (line : Nat) (inside : '\n' ∉ body)
    (ends : after = [] ∨ after.head? = some '\n') :
    skipLayout true line (body ++ after) = skipLayout false line after := by
  induction body with
  | nil =>
    rcases ends with rfl | head
    · rfl
    · obtain ⟨rest, rfl⟩ := List.head?_eq_some_iff.mp head
      rfl
  | cons c body ih =>
    simp only [List.mem_cons, not_or] at inside
    rw [List.cons_append, skipLayout, if_neg (by simpa using Ne.symm inside.1), if_pos (by simp),
      ih inside.2]

private theorem skipLayout_gap {piece after : List Char} (line : Nat) (gap : Gap piece after) :
    skipLayout false line (piece ++ after) = skipLayout false (line + piece.count '\n') after := by
  cases gap with
  | blank kind =>
    simp only [List.mem_cons, List.not_mem_nil, or_false] at kind
    rcases kind with rfl | rfl | rfl | rfl <;> rfl
  | @comment body _ inside ends =>
    have none : ('/' :: '/' :: body).count '\n' = 0 := by simpa using List.count_eq_zero.mpr inside
    have slash : '\n' ∉ '/' :: body := by simpa using inside
    rw [none]
    exact skipLayout_comment line slash ends

/-- Two slashes begin a comment, however the line goes on. -/
theorem gap_of_slashes (rest : List Char) : ∃ body after, rest = body ++ after ∧
    Gap ('/' :: '/' :: body) after := by
  refine ⟨rest.takeWhile (· != '\n'), rest.dropWhile (· != '\n'),
    List.takeWhile_append_dropWhile.symm, .comment ?_ ?_⟩
  · intro member
    simpa using List.all_eq_true.mp List.all_takeWhile _ member
  · have stopped := List.head?_dropWhile_not (· != '\n') rest
    cases found : rest.dropWhile (· != '\n') with
    | nil => exact .inl rfl
    | cons c after => exact .inr (by simpa [found] using stopped)

private theorem skipLayout_of_bare {text : List Char} (line : Nat) (bare : Bare text) :
    skipLayout false line text = (line, text) := by
  cases text with
  | nil => rfl
  | cons c rest =>
    have blank : c ∉ [' ', '\t', '\r', '\n'] := fun kind => bare [c] rest rfl (.blank kind)
    simp only [List.mem_cons, List.not_mem_nil, or_false, not_or] at blank
    have comment : ¬ (c = '/' ∧ rest.head? = some '/') := by
      rintro ⟨rfl, head⟩
      obtain ⟨more, rfl⟩ := List.head?_eq_some_iff.mp head
      obtain ⟨body, after, rfl, gap⟩ := gap_of_slashes more
      exact bare _ after rfl gap
    rw [skipLayout, if_neg (by simp [blank]), if_neg (by simpa using comment),
      if_neg (by simp [isBlank, blank])]

/-- The scanner skips the layout and counts its lines. -/
theorem skipLayout_layout {layout after : List Char} (line : Nat) (skipped : Layout layout after) :
    skipLayout false line (layout ++ after) = (line + layout.count '\n', after) := by
  induction skipped generalizing line with
  | none bare => exact skipLayout_of_bare line bare
  | more gap rest ih => rw [List.append_assoc, skipLayout_gap line gap, ih, List.count_append, Nat.add_assoc]

end Scanner

private theorem Gap.ne_nil {piece after : List Char} (gap : Gap piece after) : piece ≠ [] := by
  cases gap with
  | blank => exact List.cons_ne_nil _ _
  | comment => exact List.cons_ne_nil _ _

theorem bare_of_not_mem {c : Char} (other : c ∉ [' ', '\t', '\r', '\n', '/']) (rest : List Char) :
    Bare (c :: rest) := by
  intro piece after split gap
  cases gap with
  | blank kind =>
    cases split
    exact other (List.mem_append_left ['/'] kind)
  | comment =>
    cases split
    exact other (by decide)

theorem bare_nil : Bare [] := by
  intro piece after split gap
  exact gap.ne_nil (List.append_eq_nil_iff.mp split.symm).1

private theorem exists_layout (text : List Char) :
    ∃ layout after, text = layout ++ after ∧ Layout layout after := by
  by_cases begins : ∃ piece after, text = piece ++ after ∧ Gap piece after
  · obtain ⟨piece, after, split, gap⟩ := begins
    have some := List.length_pos_iff.mpr gap.ne_nil
    have shorter : after.length < text.length := by simp [split, some]
    obtain ⟨layout, rest, rfl, skipped⟩ := exists_layout after
    exact ⟨piece ++ layout, rest, by simp [split], .more gap skipped⟩
  · exact ⟨[], text, rfl, .none fun piece after split gap => begins ⟨piece, after, split, gap⟩⟩
termination_by text.length

private theorem Layout.unique {layout other after behind : List Char} (first : Layout layout after)
    (second : Layout other behind) (same : layout ++ after = other ++ behind) :
    layout = other ∧ after = behind := by
  have skipped := Scanner.skipLayout_layout 0 first
  rw [same, Scanner.skipLayout_layout 0 second] at skipped
  obtain rfl : after = behind := (congrArg Prod.snd skipped).symm
  exact ⟨List.append_cancel_right same, rfl⟩

private theorem Munch.unique {text rest other behind : List Char} {kind also : TokenKind}
    {lexeme spelt : String} (first : Munch text rest kind lexeme)
    (second : Munch other behind also spelt) (same : text ++ rest = other ++ behind) :
    text = other ∧ rest = behind ∧ kind = also ∧ lexeme = spelt := by
  obtain ⟨c, tail, rfl, text, rest, token⟩ := first.read_eq
  obtain ⟨d, more, rfl, others, left, tokens⟩ := second.read_eq
  rw [List.cons_append, List.cons_append] at same
  obtain ⟨rfl, tails⟩ := List.cons.inj same
  rw [tails] at text rest token
  have tokens := (token 0).symm.trans (tokens 0)
  exact ⟨text.symm.trans others, rest.symm.trans left, congrArg Token.kind tokens, congrArg Token.lexeme tokens⟩

theorem exists_tiling (text : List Char) : ∃ tiles last, Tiling text tiles last := by
  obtain ⟨layout, after, split, skipped⟩ := exists_layout text
  cases after with
  | nil =>
    rw [split, List.append_nil]
    exact ⟨[], layout, .ended skipped⟩
  | cons c rest =>
    have left := Lexeme.length_rest_le c rest
    have shorter : (Lexeme.read c rest).rest.length < text.length := by
      rw [split, List.length_append, List.length_cons]
      omega
    obtain ⟨tiles, last, others⟩ := exists_tiling (Lexeme.read c rest).rest
    let token := (Lexeme.read c rest).token 0
    let tile : Tile := ⟨layout, (Lexeme.read c rest).text, token.kind, token.lexeme⟩
    rw [← Lexeme.text_append_rest c rest] at split skipped
    have whole : Tiling (tile.layout ++ (tile.text ++ _)) (tile :: tiles) last :=
      .tile skipped (munch_read c rest 0) others
    exact ⟨_, _, split ▸ whole⟩
termination_by text.length

private theorem Munch.ne_nil {text rest : List Char} {kind : TokenKind} {lexeme : String}
    (munch : Munch text rest kind lexeme) : text ≠ [] := by
  obtain ⟨c, tail, rfl, _⟩ := munch.read_eq
  exact List.cons_ne_nil c tail

/-- A tile that has no layout before it. -/
theorem Tiling.cons {text rest last : List Char} {kind : TokenKind} {lexeme : String} {tiles : List Tile}
    (bare : Bare (text ++ rest)) (munch : Munch text rest kind lexeme)
    (others : Tiling rest tiles last) :
    Tiling (text ++ rest) (⟨[], text, kind, lexeme⟩ :: tiles) last := by
  let tile : Tile := ⟨[], text, kind, lexeme⟩
  have skipped : Layout tile.layout (tile.text ++ rest) := .none bare
  exact .tile skipped munch others

private theorem Tiling.unique {text last ending : List Char} {tiles others : List Tile}
    (first : Tiling text tiles last) (second : Tiling text others ending) :
    others = tiles ∧ ending = last := by
  induction first generalizing others ending with
  | ended skipped =>
    cases second with
    | ended => exact ⟨rfl, rfl⟩
    | tile second taken =>
      obtain ⟨_, none⟩ := skipped.unique second (by simp)
      exact absurd (List.append_eq_nil_iff.mp none.symm).1 taken.ne_nil
  | @tile tile rest tiles last skipped taken _ ih =>
    generalize same : tile.layout ++ _ = text at second
    cases second with
    | ended second =>
      obtain ⟨_, none⟩ := skipped.unique second (by simpa using same)
      exact absurd (List.append_eq_nil_iff.mp none).1 taken.ne_nil
    | @tile other behind more end' second also others =>
      obtain ⟨layouts, texts⟩ := skipped.unique second same
      obtain ⟨text, rfl, kind, lexeme⟩ := taken.unique also texts
      obtain ⟨rfl, rfl⟩ := ih others
      refine ⟨congrArg (· :: more) ?_, rfl⟩
      cases tile
      cases other
      simp_all

theorem Tiling.eq_flatMap {text last : List Char} {tiles : List Tile}
    (tiling : Tiling text tiles last) : text = tiles.flatMap Tile.whole ++ last := by
  induction tiling with
  | ended => rfl
  | tile _ _ _ ih => simp [Tile.whole, ← ih]

namespace Scanner

theorem scanToken_of_layout {scanner : Scanner} {layout : List Char}
    (skipped : Layout layout []) (text : scanner.rest = layout) :
    scanner.scanToken = (⟨.eof, "", scanner.line + layout.count '\n'⟩,
      { scanner with rest := [], line := scanner.line + layout.count '\n' }) := by
  have found := skipLayout_layout scanner.line skipped
  rw [List.append_nil] at found
  simp only [scanToken, text, found]

theorem scanToken_of_munch {scanner : Scanner} {layout text rest : List Char} {kind : TokenKind}
    {lexeme : String} (skipped : Layout layout (text ++ rest)) (taken : Munch text rest kind lexeme)
    (whole : scanner.rest = layout ++ (text ++ rest)) :
    let line := scanner.line + (layout ++ text).count '\n'
    scanner.scanToken = (⟨kind, lexeme, line⟩, { scanner with rest, line }) := by
  have found := skipLayout_layout scanner.line skipped
  obtain ⟨c, tail, rfl, text, left, token⟩ := taken.read_eq
  rw [← whole, List.cons_append] at found
  simp only [scanToken, found, token, left, Lexeme.newlines, text, List.count_append, Nat.add_assoc]

private theorem scanToken_of_empty {scanner : Scanner} (empty : scanner.rest = []) :
    scanner.scanToken = (⟨.eof, "", scanner.line⟩, scanner) := by
  cases scanner
  cases empty
  rfl

private theorem call_of_empty {scanner : Scanner} (empty : scanner.rest = []) (calls : Nat) :
    scanner.call calls = ⟨.eof, "", scanner.line⟩ := by
  induction calls with
  | zero => rw [call, scanToken_of_empty empty]
  | succ calls ih => rw [call, scanToken_of_empty empty, ih]

end Scanner

theorem Tiling.call {text last : List Char} {tiles : List Tile} (tiling : Tiling text tiles last)
    {scanner : Scanner} (whole : scanner.rest = text) (calls : Nat) :
    scanner.call calls = ((Tile.tokens scanner.line tiles)[calls]?).getD
      ⟨.eof, "", scanner.line + text.count '\n'⟩ := by
  induction tiling generalizing scanner calls with
  | ended skipped =>
    cases calls with
    | zero => rw [Scanner.call, Scanner.scanToken_of_layout skipped whole]; rfl
    | succ calls =>
      rw [Scanner.call, Scanner.scanToken_of_layout skipped whole, Scanner.call_of_empty rfl]
      rfl
  | tile skipped taken others ih =>
    have step := Scanner.scanToken_of_munch skipped taken whole
    cases calls with
    | zero => rw [Scanner.call, step]; rfl
    | succ calls =>
      rw [Scanner.call, step, ih rfl]
      simp [Tile.tokens, Tile.whole, Nat.add_assoc]

/-- A text is tiled in one way, and the tiles make up all of it. Whatever the number of
calls, the scanner hands out the token of the next tile, and behind the last tile the end
of the text. -/
theorem scanner_tiles (source : String) :
    ∃ tiles last, Tiling source.toList tiles last ∧
      (∀ others ending, Tiling source.toList others ending → others = tiles ∧ ending = last) ∧
      source.toList = tiles.flatMap Tile.whole ++ last ∧
      ∀ calls, (Scanner.ofString source).call calls =
        ((Tile.tokens 1 tiles)[calls]?).getD ⟨.eof, "", 1 + source.toList.count '\n'⟩ := by
  obtain ⟨tiles, last, tiling⟩ := exists_tiling source.toList
  exact ⟨tiles, last, tiling, fun _ _ => tiling.unique, tiling.eq_flatMap, tiling.call rfl⟩

end StackCalc
