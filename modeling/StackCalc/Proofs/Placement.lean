import Mathlib.Data.List.DropRight
import StackCalc.Proofs.Mending
import StackCalc.Proofs.Tiling
import StackCalc.Text

/-! Where tokens stand in their source. The scanner counts newlines as it goes, and an
excerpt is found by counting newlines again, but both tell the same line: that of a token
shows the token, or the part of it behind its last newline. -/

namespace StackCalc

namespace Excerpt

/-- Up to its newline, what is left of a text after some lines is one of the parts between
newlines. -/
theorem takeWhile_dropLines (index : Nat) (text : List Char) :
    (dropLines index text).map (·.takeWhile (· != '\n')) = (text.splitOn '\n')[index]? := by
  rw [List.splitOn_eq_splitOnP]
  induction text generalizing index with
  | nil => cases index <;> simp [dropLines]
  | cons c text ih =>
    rw [List.splitOnP_cons_eq_if_modifyHead]
    cases index with
    | zero =>
      have first := ih 0
      by_cases newline : c = '\n'
      · simp [dropLines, newline]
      · simp [dropLines, newline, ← first]
    | succ index =>
      by_cases newline : c = '\n'
      · simp [dropLines, newline, ih]
      · simp [dropLines, newline, ih]

theorem line?_eq_splitOn (source : String) (index : Nat) :
    line? source (index + 1) = (source.toList.splitOn '\n')[index]?.map fun part =>
      String.ofList (part.rdropWhile (· == '\r')) := by
  rw [line?, ← takeWhile_dropLines, Option.map_map]
  rfl

/-- What stands behind the last newline. -/
def lastPart (text : List Char) : List Char := text.rtakeWhile (· != '\n')

private theorem lastPart_newline (text : List Char) : lastPart (text ++ ['\n']) = [] :=
  List.rtakeWhile_concat_neg _ _ _ (by simp)

private theorem lastPart_concat (text : List Char) {c : Char} (other : c ≠ '\n') :
    lastPart (text ++ [c]) = lastPart text ++ [c] :=
  List.rtakeWhile_concat_pos _ _ _ (by simp [other])

private theorem newline_not_mem_lastPart (text : List Char) : '\n' ∉ lastPart text := by
  intro member
  simpa using List.mem_rtakeWhile_imp member

private theorem lastPart_suffix (front text : List Char) :
    lastPart text <:+ lastPart (front ++ text) := by
  induction text using List.reverseRecOn with
  | nil => exact List.nil_suffix
  | append_singleton text c ih =>
    rw [← List.append_assoc]
    by_cases newline : c = '\n'
    · simp only [newline, lastPart_newline, List.suffix_refl]
    · rw [lastPart_concat _ newline, lastPart_concat _ newline]
      exact List.suffix_append_self_iff.mpr ih

private theorem dropLines_newline (part rest : List Char) (single : '\n' ∉ part) :
    dropLines 1 (part ++ '\n' :: rest) = some rest := by
  induction part with
  | nil => simp [dropLines]
  | cons c part ih =>
    simp only [List.mem_cons, not_or] at single
    rw [List.cons_append, dropLines, if_neg (by simpa using Ne.symm single.1), ih single.2]

private theorem dropLines_succ {count : Nat} {text part rest : List Char}
    (found : dropLines count text = some (part ++ '\n' :: rest)) (single : '\n' ∉ part) :
    dropLines (count + 1) text = some rest := by
  induction text generalizing count with
  | nil => cases count <;> simp [dropLines] at found
  | cons c text ih =>
    cases count with
    | zero =>
      rw [dropLines] at found
      rw [Option.some.inj found, dropLines_newline part rest single]
    | succ count =>
      rw [dropLines] at found ⊢
      split at found
      next newline => rw [if_pos newline, ih found]
      next other => rw [if_neg other, ih found]

/-- Dropping as many lines as there are newlines leaves what follows the last of them. -/
theorem dropLines_count (front rest : List Char) :
    dropLines (front.count '\n') (front ++ rest) = some (lastPart front ++ rest) := by
  induction front using List.reverseRecOn generalizing rest with
  | nil => simp [dropLines, lastPart]
  | append_singleton front c ih =>
    have found := ih (c :: rest)
    rw [List.count_append, ← List.append_cons]
    by_cases newline : c = '\n'
    · subst newline
      rw [lastPart_newline]
      exact dropLines_succ found (newline_not_mem_lastPart front)
    · have none : [c].count '\n' = 0 := by simp [newline]
      rw [none, lastPart_concat _ newline, ← List.append_cons]
      exact found

/-- The line on which the front of a source ends begins with the last part of that. -/
theorem line?_of_split {source : String} {front rest : List Char}
    (split : source.toList = front ++ rest) :
    line? source (1 + front.count '\n') = some (String.ofList (trimEnd (· == '\r')
      (lastPart front ++ rest.takeWhile (· != '\n')))) := by
  have inside : ∀ c ∈ lastPart front, (c != '\n') = true := fun c => List.mem_rtakeWhile_imp
  rw [Nat.add_comm, line?, split, dropLines_count, Option.map_some,
    List.takeWhile_append_of_pos inside]

private theorem trimEnd_concat (drop : Char → Bool) (text : List Char) (c : Char) :
    trimEnd drop (text ++ [c]) = if drop c then trimEnd drop text else text ++ [c] :=
  List.rdropWhile_concat drop text c

/-- What is cut off at the end does not reach back behind a character that stays. -/
theorem infix_trimEnd {drop : Char → Bool} {part : List Char}
    (stays : ∀ c, part.getLast? = some c → drop c = false) (front behind : List Char) :
    part <:+: trimEnd drop (front ++ (part ++ behind)) := by
  induction behind using List.reverseRecOn with
  | nil =>
    rcases List.eq_nil_or_concat part with rfl | ⟨body, last, rfl⟩
    · exact List.nil_infix
    · rw [List.append_nil, List.concat_eq_append, ← List.append_assoc, trimEnd_concat,
        if_neg (by simp [stays last])]
      exact ⟨front, [], by simp⟩
  | append_singleton behind c ih =>
    rw [← List.append_assoc, ← List.append_assoc, trimEnd_concat]
    split
    · rwa [List.append_assoc]
    · exact ⟨front, behind ++ [c], by simp⟩

/-- The line on which a part of the source ends shows what is behind its last newline, if
it does not end in what is cut off. -/
theorem exists_line {source : String} {before text after : List Char}
    (split : source.toList = before ++ (text ++ after)) (ends : text.getLast? ≠ some '\r') :
    ∃ line, line? source (1 + (before ++ text).count '\n') = some line ∧
      lastPart text <:+: line.toList := by
  rw [← List.append_assoc] at split
  obtain ⟨front, whole⟩ := lastPart_suffix before text
  refine ⟨_, line?_of_split split, ?_⟩
  rw [String.toList_ofList, ← whole, List.append_assoc]
  apply infix_trimEnd
  intro c last
  obtain ⟨start, split⟩ : lastPart text <:+ text := List.rtakeWhile_suffix _ _
  rw [← split, List.getLast?_append, last] at ends
  simpa using ends

end Excerpt

theorem Written.ordinary {kind : TokenKind} {text : List Char} (written : Written kind text) :
    kind ≠ .error ∧ kind ≠ .eof := by
  cases written with
  | symbol spelt => constructor <;> rintro rfl <;> cases spelt
  | word _ _ names =>
    constructor <;> rintro rfl <;> exact absurd names.mem (by decide)
  | _ => decide

/-- Nothing that is written for a token ends in a carriage return. -/
theorem Written.getLast?_ne {kind : TokenKind} {text : List Char} (written : Written kind text) :
    text.getLast? ≠ some '\r' := by
  have digits {text : List Char} (inside : ∀ c ∈ text, DigitChar c) : '\r' ∉ text :=
    fun member => absurd (isDigit_iff.mpr (inside _ member)) (by decide)
  cases written with
  | symbol spelt => cases kind <;> cases spelt <;> decide
  | whole some inside => exact fun last => digits inside (List.mem_of_getLast? last)
  | @fraction whole places some inside more others =>
    intro last
    have member := List.mem_of_getLast? last
    simp only [List.mem_append, List.mem_cons, digits inside, digits others] at member
    simp at member
  | @quoted body inside => simp [List.getLast?_cons]
  | @word _ first more starts inside names =>
    intro last
    have letters : ∀ c ∈ first :: more, Lexeme.isWordChar c :=
      List.forall_mem_cons.mpr ⟨isWordChar_iff.mpr (.inl starts),
        fun c member => isWordChar_iff.mpr (inside c member)⟩
    exact absurd (letters _ (List.mem_of_getLast? last)) (by decide)

/-- The token is taken from its source, and its line is the one on which that ends. -/
inductive Token.Stands (source : List Char) (token : Token) : Prop where
  | taken {before text after} (split : source = before ++ (text ++ after))
      (munch : Munch text after token.kind token.lexeme)
      (line : token.line = 1 + (before ++ text).count '\n')

theorem Tiling.stands {text last : List Char} {tiles : List Tile} (tiling : Tiling text tiles last)
    (front : List Char) : ∀ token ∈ Tile.tokens (1 + front.count '\n') tiles,
      token.Stands (front ++ text) := by
  induction tiling generalizing front with
  | ended => exact nofun
  | @tile tile rest tiles last skipped munch others ih =>
    have line : 1 + front.count '\n' + tile.whole.count '\n' =
        1 + (front ++ tile.whole).count '\n' := by rw [List.count_append, Nat.add_assoc]
    intro token member
    rw [Tile.tokens, line] at member
    rcases List.mem_cons.mp member with rfl | member
    · have split : front ++ (tile.layout ++ (tile.text ++ rest)) =
          (front ++ tile.layout) ++ (tile.text ++ rest) := (List.append_assoc _ _ _).symm
      exact .taken split munch (by simp [Tile.whole])
    · have inner := ih _ token member
      rwa [Tile.whole, List.append_assoc, List.append_assoc] at inner

private theorem Munch.ne_eof {text rest : List Char} {kind : TokenKind} {lexeme : String}
    (munch : Munch text rest kind lexeme) : kind ≠ .eof := by
  cases munch with
  | lexeme written => exact written.ordinary.2
  | _ => decide

/-- Until the end of the text, the scanner hands out the tiles. -/
theorem Tiling.yields {text last : List Char} {tiles : List Tile} (tiling : Tiling text tiles last)
    {scanner : Scanner} (whole : scanner.rest = text) :
    Scanner.Yields scanner (Tile.tokens scanner.line tiles ++
      [⟨.eof, "", scanner.line + text.count '\n'⟩]) := by
  induction tiling generalizing scanner with
  | @ended layout skipped =>
    have step := congrArg Prod.fst (Scanner.scanToken_of_layout skipped whole)
    have yields : Scanner.Yields scanner [scanner.scanToken.1] := .last (by rw [step])
    rwa [step] at yields
  | @tile tile rest tiles last skipped munch others ih =>
    have step := Scanner.scanToken_of_munch skipped munch whole
    have more : scanner.scanToken.1.kind ≠ .eof := by
      rw [step]
      exact munch.ne_eof
    have later := Scanner.Yields.more more (ih (by rw [step]))
    simp only [step] at later
    simpa [Tile.tokens, Tile.whole, Nat.add_assoc] using later

theorem tokensOf_eq {source : String} {tiles : List Tile} {last : List Char}
    (tiling : Tiling source.toList tiles last) :
    tokensOf source = Tile.tokens 1 tiles ++ [⟨.eof, "", 1 + source.toList.count '\n'⟩] :=
  (Scanner.tokensOf_yields source).unique (tiling.yields rfl)

theorem tokensOf_ofList {text last : List Char} {tiles : List Tile}
    (tiling : Tiling text tiles last) :
    tokensOf (String.ofList text) = Tile.tokens 1 tiles ++ [⟨.eof, "", 1 + text.count '\n'⟩] := by
  have whole : Tiling (String.ofList text).toList tiles last := by rwa [String.toList_ofList]
  rw [tokensOf_eq whole, String.toList_ofList]

theorem stands_of_mem_tokensOf {source : String} {token : Token} (member : token ∈ tokensOf source)
    (inner : token.kind ≠ .eof) : token.Stands source.toList := by
  obtain ⟨tiles, last, tiling⟩ := exists_tiling source.toList
  rw [tokensOf_eq tiling] at member
  rcases List.mem_append.mp member with member | ended
  · exact tiling.stands [] token (by simpa using member)
  · rw [List.mem_singleton.mp ended] at inner
    exact absurd rfl inner

/-- The line of a token shows the token, as far as it is on that line. -/
theorem Token.Stands.shown {source : String} {token : Token} (stands : token.Stands source.toList)
    (proper : token.kind ≠ .error) :
    ∃ text, Excerpt.line? source token.line = some text ∧
      Excerpt.lastPart token.lexeme.toList <:+: text.toList := by
  obtain ⟨split, munch, line⟩ := stands
  rw [line]
  generalize token.kind = kind at munch proper
  generalize token.lexeme = lexeme at munch
  cases munch with
  | lexeme written =>
    rw [String.toList_ofList]
    exact Excerpt.exists_line split written.getLast?_ne
  | _ => exact absurd rfl proper

theorem Token.Stands.on_last_line {source : List Char} {token : Token} (stands : token.Stands source)
    (error : token.kind = .error) (message : token.lexeme = "Unterminated string.") :
    token.line = 1 + source.count '\n' := by
  obtain ⟨rfl, munch, line⟩ := stands
  rw [error, message] at munch
  generalize same : "Unterminated string." = lexeme at munch
  generalize kind : TokenKind.error = other at munch
  cases munch with
  | lexeme written => exact absurd kind.symm written.ordinary.1
  | unterminated => simpa using line
  | unexpected => simp at same

/-- The line of a token is a line of the source. -/
theorem line_of_mem_tokensOf {source : String} {token : Token} (member : token ∈ tokensOf source) :
    1 ≤ token.line ∧ token.line ≤ 1 + source.toList.count '\n' ∧
      ∃ text, Excerpt.line? source token.line = some text := by
  obtain ⟨front, rest, split, line⟩ : ∃ front rest, source.toList = front ++ rest ∧
      token.line = 1 + front.count '\n' := by
    by_cases ends : token.kind = .eof
    · exact ⟨source.toList, [], by simp, eof_line member ends⟩
    · obtain ⟨split, _, line⟩ := stands_of_mem_tokensOf member ends
      exact ⟨_, _, by rw [split, List.append_assoc], line⟩
  rw [line, split, List.count_append]
  exact ⟨by omega, by omega, _, Excerpt.line?_of_split split⟩

end StackCalc
