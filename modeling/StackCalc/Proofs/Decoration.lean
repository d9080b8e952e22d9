import StackCalc.Proofs.ListingText
import StackCalc.Rendering

/-! Colour is decoration. A rendering is a row of pieces, some of them with a style; colour puts
an escape sequence in front of these and a reset behind them, and nothing else is different. -/

namespace StackCalc

namespace Escape

/-- What stands behind an escape sequence, if the text begins with one. -/
def behind? : List Char → Option (List Char)
  | '\x1b' :: '[' :: text => (text.dropWhile (· != 'm')).tail?
  | _ => none

private theorem length_behind? {text rest : List Char} (found : behind? text = some rest) :
    rest.length < text.length := by
  unfold behind? at found
  split at found
  next inner =>
    have shorter : (inner.dropWhile (· != 'm')).length ≤ inner.length :=
      (List.dropWhile_suffix _).length_le
    cases dropped : inner.dropWhile (· != 'm') with
    | nil => simp [dropped] at found
    | cons last rest =>
      simp only [dropped, List.tail?_cons, Option.some.injEq, List.length_cons] at found shorter ⊢
      subst found
      omega
  next => cases found

/-- What is left of a text without its escape sequences. -/
def strip (text : List Char) : List Char :=
  match text with
  | [] => []
  | c :: text =>
    match _found : behind? (c :: text) with
    | some rest => strip rest
    | none => c :: strip text
termination_by text.length
decreasing_by
  · exact length_behind? _found
  · exact Nat.lt_succ_self _

private theorem strip_nil : strip [] = [] := by
  rw [strip]

private theorem strip_cons {c : Char} (other : c ≠ '\x1b') (text : List Char) :
    strip (c :: text) = c :: strip text := by
  have none : behind? (c :: text) = none := by
    unfold behind?
    split
    next same => exact absurd (List.cons.inj same).1 other
    next => rfl
  rw [strip]
  split <;> simp_all

private theorem strip_append {part : List Char} (bare : '\x1b' ∉ part) (text : List Char) :
    strip (part ++ text) = part ++ strip text := by
  induction part with
  | nil => rfl
  | cons c part ih =>
    simp only [List.mem_cons, not_or] at bare
    rw [List.cons_append, strip_cons (Ne.symm bare.1), ih bare.2, List.cons_append]

private theorem strip_sequence {code : List Char} (bare : 'm' ∉ code) (text : List Char) :
    strip ('\x1b' :: '[' :: (code ++ 'm' :: text)) = strip text := by
  have found : behind? ('\x1b' :: '[' :: (code ++ 'm' :: text)) = some text := by
    have inner : ∀ c ∈ code, (c != 'm') = true := by
      rintro c member
      simpa using ne_of_mem_of_not_mem member bare
    simp [behind?, List.dropWhile_append_of_pos inner]
  rw [strip]
  split <;> simp_all

end Escape

/-- Text with a style of its own, or with none. -/
structure Piece where
  style : Option Style := none
  text : String

namespace Piece

open Escape

def shown (colour : Bool) (piece : Piece) : String :=
  match piece.style with
  | none => piece.text
  | some style => style.paint colour piece.text

/-- The characters of pieces one after another. -/
def shownAll (colour : Bool) (pieces : List Piece) : List Char :=
  pieces.flatMap fun piece => (piece.shown colour).toList

private theorem shownAll_cons (colour : Bool) (piece : Piece) (pieces : List Piece) :
    shownAll colour (piece :: pieces) = (piece.shown colour).toList ++ shownAll colour pieces :=
  List.flatMap_cons

private theorem shownAll_append (colour : Bool) (pieces more : List Piece) :
    shownAll colour (pieces ++ more) = shownAll colour pieces ++ shownAll colour more :=
  List.flatMap_append

def Unescaped (pieces : List Piece) : Prop := ∀ piece ∈ pieces, '\x1b' ∉ piece.text.toList

private theorem shown_plain (piece : Piece) : piece.shown false = piece.text := by
  unfold shown
  split <;> rfl

private theorem toList_paint (style : Style) (text : String) :
    (style.paint true text).toList = '\x1b' :: '[' :: (style.code.toList ++
      'm' :: (text.toList ++ '\x1b' :: '[' :: (['0'] ++ 'm' :: []))) := by
  simp [Style.paint]

private theorem code_bare (style : Style) :
    'm' ∉ style.code.toList ∧ '\x1b' ∉ style.code.toList := by
  cases style <;> decide

variable {pieces : List Piece}

private theorem bare_shownAll (bare : Unescaped pieces) : '\x1b' ∉ shownAll false pieces := by
  intro member
  obtain ⟨piece, inside, found⟩ := List.mem_flatMap.mp member
  rw [shown_plain] at found
  exact bare piece inside found

private theorem strip_shownAll (bare : Unescaped pieces) :
    strip (shownAll true pieces) = shownAll false pieces := by
  induction pieces with
  | nil => exact strip_nil
  | cons piece pieces ih =>
    obtain ⟨first, others⟩ := List.forall_mem_cons.mp bare
    rw [shownAll_cons, shownAll_cons, shown_plain, ← ih others]
    cases styled : piece.style with
    | none => rw [shown, styled, strip_append first]
    | some style =>
      rw [shown, styled, toList_paint]
      simp only [List.cons_append, List.append_assoc]
      rw [strip_sequence (code_bare style).1, strip_append first]
      exact congrArg (piece.text.toList ++ ·) (strip_sequence (show 'm' ∉ ['0'] by decide) _)

/-- An escape sequence begins behind text that has none. -/
theorem split_bare {part more before after : List Char} (bare : '\x1b' ∉ part)
    (same : part ++ more = before ++ '\x1b' :: after) :
    ∃ between, before = part ++ between ∧ more = between ++ '\x1b' :: after := by
  rcases List.append_eq_append_iff.mp same with ⟨between, split, rest⟩ | ⟨between, split, rest⟩
  · exact ⟨between, split, rest⟩
  · cases between with
    | nil => exact ⟨[], by simpa using split.symm, by simpa using rest.symm⟩
    | cons c between =>
      obtain ⟨rfl, _⟩ := List.cons.inj rest
      simp [split] at bare

/-- The sequence is the one in front of the text, or it comes behind the reset. -/
theorem closed_paint {style : Style} {text : String} {more before code after : List Char}
    (bare : '\x1b' ∉ text.toList)
    (opens : (style.paint true text).toList ++ more =
      before ++ '\x1b' :: '[' :: (code ++ 'm' :: after))
    (whole : 'm' ∉ code) (other : code ≠ ['0']) :
    (∃ rest, after = text.toList ++ '\x1b' :: '[' :: '0' :: 'm' :: rest) ∨
      ∃ between, more = between ++ '\x1b' :: '[' :: (code ++ 'm' :: after) := by
  obtain ⟨codeWhole, codeBare⟩ := code_bare style
  simp only [toList_paint, List.cons_append, List.append_assoc, List.nil_append] at opens
  cases before with
  | nil =>
    simp only [List.nil_append, List.cons.injEq, true_and] at opens
    exact .inl ⟨more, (cut_unique whole codeWhole opens.symm).2⟩
  | cons _ before =>
    have front : '\x1b' ∉ '[' :: (style.code.toList ++ 'm' :: text.toList) := by
      simp [codeBare, bare]
    obtain ⟨between, _, reset⟩ := split_bare front (by simpa using (List.cons.inj opens).2)
    cases between with
    | nil =>
      simp only [List.nil_append, List.cons.injEq, true_and] at reset
      exact absurd (cut_unique (show 'm' ∉ ['0'] by decide) whole reset).1.symm other
    | cons _ between =>
      obtain ⟨between, _, later⟩ := split_bare (show '\x1b' ∉ ['[', '0', 'm'] by decide)
        (List.cons.inj reset).2
      exact .inr ⟨between, later⟩

/-- Every sequence but a reset opens the text of a piece, and a reset closes it. -/
theorem closed_shownAll (bare : Unescaped pieces) {before code after : List Char}
    (opens : shownAll true pieces = before ++ '\x1b' :: '[' :: (code ++ 'm' :: after))
    (whole : 'm' ∉ code) (other : code ≠ ['0']) :
    ∃ piece ∈ pieces, piece.style.isSome ∧
      ∃ rest, after = piece.text.toList ++ '\x1b' :: '[' :: '0' :: 'm' :: rest := by
  induction pieces generalizing before with
  | nil => simp [shownAll] at opens
  | cons piece pieces ih =>
    obtain ⟨first, others⟩ := List.forall_mem_cons.mp bare
    rw [shownAll_cons] at opens
    cases styled : piece.style with
    | none =>
      rw [shown, styled] at opens
      obtain ⟨between, _, opens⟩ := split_bare first opens
      obtain ⟨piece, member, closed⟩ := ih others opens
      exact ⟨piece, .tail _ member, closed⟩
    | some style =>
      rw [shown, styled] at opens
      rcases closed_paint first opens whole other with closed | ⟨between, opens⟩
      · exact ⟨piece, List.mem_cons_self, by rw [styled]; rfl, closed⟩
      · obtain ⟨piece, member, closed⟩ := ih others opens
        exact ⟨piece, .tail _ member, closed⟩

end Piece

namespace Excerpt

private theorem dropLines_suffix {count : Nat} {text rest : List Char}
    (found : dropLines count text = some rest) : rest <:+ text := by
  induction text generalizing count with
  | nil =>
    cases count with
    | zero => exact Option.some.inj found ▸ List.suffix_refl _
    | succ count => cases found
  | cons c text ih =>
    cases count with
    | zero => exact Option.some.inj found ▸ List.suffix_refl _
    | succ count =>
      rw [dropLines] at found
      split at found
      · exact (ih found).trans (List.suffix_cons _ _)
      · exact (ih found).trans (List.suffix_cons _ _)

/-- A line is made of the characters of its source. -/
theorem subset_line? {source text : String} {line : Nat} (found : line? source line = some text) :
    text.toList ⊆ source.toList := by
  cases line with
  | zero => cases found
  | succ index =>
    obtain ⟨rest, dropped, rfl⟩ := Option.map_eq_some_iff.mp found
    intro c member
    rw [String.toList_ofList, trimEnd, List.mem_reverse] at member
    have inLine := List.mem_reverse.mp ((List.dropWhile_suffix _).subset member)
    exact (dropLines_suffix dropped).subset ((List.takeWhile_prefix _).subset inLine)

end Excerpt

namespace Diagnostic

open Piece

variable (diagnostic : Diagnostic)

def excerptPieces (line : Nat) (text : String) : List Piece :=
  let number := toString line
  let blank := [{ text := Column.left number.length "" ++ " " },
    { style := some .cyan, text := "|" }, { text := "\n" }]
  blank ++ [{ style := some .cyan, text := number }, { text := " " },
    { style := some .cyan, text := "|" }, { text := " " ++ text ++ "\n" }] ++ blank

/-- What is rendered: which parts there are, and the style of each. -/
def pieces : List Piece :=
  [{ style := some .boldRed, text := diagnostic.label }, { text := ": " },
    { style := some .bold, text := diagnostic.message }, { text := "\n" }] ++
    match diagnostic.line with
    | none => []
    | some line =>
      [{ text := "  " }, { style := some .cyan, text := "-->" },
        { text := " " ++ diagnostic.place line ++ "\n" }] ++
        match diagnostic.source.bind (Excerpt.line? · line) with
        | some text => excerptPieces line text
        | none => []

private theorem toList_excerpt (colour : Bool) (line : Nat) (text : String) :
    (excerpt colour line text).toList = shownAll colour (excerptPieces line text) := by
  simp [excerpt, excerptPieces, shownAll, shown]

/-- Colour has no part in what is rendered. -/
theorem toList_render (colour : Bool) :
    (diagnostic.render colour).toList = shownAll colour diagnostic.pieces := by
  have head : (diagnostic.headline colour).toList = shownAll colour
      [{ style := some .boldRed, text := diagnostic.label }, { text := ": " },
        { style := some .bold, text := diagnostic.message }, { text := "\n" }] := by
    simp [headline, shownAll, shown]
  rw [render, pieces, shownAll_append, String.toList_append, head]
  cases diagnostic.line with
  | none => rfl
  | some line =>
    cases quoted : diagnostic.source.bind (Excerpt.line? · line) with
    | none => simp [quoted, shownAll, shown]
    | some text => simp [quoted, toList_excerpt, shownAll, shown]

private theorem bare_label : '\x1b' ∉ diagnostic.label.toList ∧ '\n' ∉ diagnostic.label.toList := by
  unfold label
  cases diagnostic.phase <;> cases diagnostic.severity <;> decide

section Unescaped

variable {diagnostic}

private theorem bare_place (location : ∀ text ∈ diagnostic.location, '\x1b' ∉ text.toList)
    (line : Nat) : '\x1b' ∉ (diagnostic.place line).toList := by
  have number := toList_toString line ▸ not_mem_toString (c := '\x1b') (by decide) line
  unfold place
  split
  next text given => simp [number, location text given]
  next => simp [number]
  next => simp [number]

private theorem unescaped_excerptPieces (line : Nat) {text : String} (bare : '\x1b' ∉ text.toList) :
    Unescaped (excerptPieces line text) := by
  have number := toList_toString line ▸ not_mem_toString (c := '\x1b') (by decide) line
  simp [Unescaped, excerptPieces, Column.left, number, bare]

private theorem unescaped_pieces (message : '\x1b' ∉ diagnostic.message.toList)
    (location : ∀ text ∈ diagnostic.location, '\x1b' ∉ text.toList)
    (source : ∀ text ∈ diagnostic.source, '\x1b' ∉ text.toList) : Unescaped diagnostic.pieces := by
  have label := diagnostic.bare_label.1
  unfold pieces
  cases diagnostic.line with
  | none => simp [Unescaped, label, message]
  | some line =>
    have place := bare_place location line
    cases quoted : diagnostic.source.bind (Excerpt.line? · line) with
    | none => simp [Unescaped, label, message, place, quoted]
    | some text =>
      obtain ⟨whole, given, found⟩ := Option.bind_eq_some_iff.mp quoted
      have inner : '\x1b' ∉ text.toList := fun member =>
        source whole given (Excerpt.subset_line? found member)
      have excerpt := unescaped_excerptPieces line inner
      unfold Unescaped at excerpt ⊢
      simpa [label, message, place, quoted] using excerpt

/-- Only what is on a line of its own is coloured, but for the message. -/
theorem single_pieces (message : '\n' ∉ diagnostic.message.toList) {piece : Piece}
    (member : piece ∈ diagnostic.pieces) (styled : piece.style.isSome) :
    '\n' ∉ piece.text.toList := by
  have label := diagnostic.bare_label.2
  have number (line : Nat) := toList_toString line ▸ not_mem_toString (c := '\n') (by decide) line
  revert piece
  unfold pieces
  cases diagnostic.line with
  | none => simp [label, message]
  | some line =>
    cases quoted : diagnostic.source.bind (Excerpt.line? · line) with
    | none => simp [label, message, quoted]
    | some text => simp [label, message, quoted, excerptPieces, number]

end Unescaped

end Diagnostic

/-- Without escape characters in its parts, a diagnostic is rendered in colour as it is without
colour, but for escape sequences; there are some with colour and none without. Each that turns
a style on stands in front of a stretch of text that ends with a reset, and if the message is a
single line then so is the stretch. -/
theorem colour_is_decoration (diagnostic : Diagnostic)
    (message : '\x1b' ∉ diagnostic.message.toList)
    (location : ∀ text ∈ diagnostic.location, '\x1b' ∉ text.toList)
    (source : ∀ text ∈ diagnostic.source, '\x1b' ∉ text.toList) :
    Escape.strip (diagnostic.render true).toList = (diagnostic.render false).toList ∧
    '\x1b' ∈ (diagnostic.render true).toList ∧
    '\x1b' ∉ (diagnostic.render false).toList ∧
    ∀ before code after, 'm' ∉ code → code ≠ ['0'] →
      (diagnostic.render true).toList = before ++ ['\x1b', '['] ++ code ++ ['m'] ++ after →
      ∃ stretch rest, after = stretch ++ ['\x1b', '[', '0', 'm'] ++ rest ∧
        '\x1b' ∉ stretch ∧ ('\n' ∉ diagnostic.message.toList → '\n' ∉ stretch) := by
  have bare := Diagnostic.unescaped_pieces message location source
  simp only [Diagnostic.toList_render]
  refine ⟨Piece.strip_shownAll bare, ?_, Piece.bare_shownAll bare, ?_⟩
  · simp [Diagnostic.pieces, Piece.shownAll, Piece.shown, Style.paint]
  · intro before code after whole other opens
    obtain ⟨piece, member, styled, rest, closed⟩ :=
      Piece.closed_shownAll bare (by simpa using opens) whole other
    exact ⟨piece.text.toList, rest, by simpa using closed, bare piece member,
      fun single => Diagnostic.single_pieces single member styled⟩

/-- The gutter is as wide as the number of the line, in colour as well; and of what is cyan,
nothing goes over the end of its line. -/
theorem colour_is_decoration_beside_gutter :
    let diagnostic : Diagnostic :=
      { phase := .compile, message := "Expect expression.", line := some 10,
        location := some "at '[m'", source := some "\n\n\n\n\n\n\n\n\n(1 +\r\n[m" }
    Escape.strip (diagnostic.render true).toList =
        ("error: Expect expression.\n  --> line 10, at '[m'\n" ++
          "   |\n10 | (1 +\n   |\n").toList ∧
      ∀ before after, (diagnostic.render true).toList =
          before ++ ['\x1b', '['] ++ ['3', '6'] ++ ['m'] ++ after →
        ∃ stretch rest, after = stretch ++ ['\x1b', '[', '0', 'm'] ++ rest ∧ '\n' ∉ stretch := by
  intro diagnostic
  obtain ⟨stripped, _, _, closed⟩ :=
    colour_is_decoration diagnostic (by decide) (by decide) (by decide)
  refine ⟨stripped.trans (by decide +kernel), ?_⟩
  intro before after opens
  obtain ⟨stretch, rest, split, _, single⟩ :=
    closed before ['3', '6'] after (by decide) (by decide) opens
  exact ⟨stretch, rest, split, single (by decide)⟩

end StackCalc
