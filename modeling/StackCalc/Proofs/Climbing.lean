import StackCalc.Proofs.Binding
import StackCalc.Proofs.Encoding
import StackCalc.Proofs.Sifting

/-! Reading an expression at any level, from any state of the parser: unless an error comes up,
exactly the longest run of the level is consumed, and its code is added. -/

namespace StackCalc

open StackCalc.Expr StackCalc.Parser

namespace Assembly

open Directive

variable {directives : List Directive} {assembly : Assembly}

private theorem errors_of_foldl (quiet : (directives.foldl perform assembly).errors = []) :
    assembly.errors = [] := by
  apply Classical.byContradiction
  intro failed
  exact failed (errors_foldl_of_ne_nil failed directives ▸ quiet)

private theorem report_not_mem_of_quiet (quiet : (directives.foldl perform assembly).errors = []) :
    ∀ error, .report error ∉ directives :=
  fun _ member => errors_foldl_of_report member assembly quiet

/-- A number that cannot be read is reported. -/
theorem legible_of_quiet (quiet : (directives.foldl perform assembly).errors = []) :
    Legible directives := by
  intro token member
  obtain ⟨before, after, rfl⟩ := List.append_of_mem (mem_numbers.mp member)
  rw [List.foldl_append, List.foldl_cons] at quiet
  have performed := errors_of_foldl quiet
  rw [perform] at performed
  split at performed
  next found => simp [Token.value?, found]
  next => exact absurd performed (errors_report _ _)

private theorem room_of_quiet (quiet : (directives.foldl perform assembly).errors = []) :
    assembly.chunk.constants.size + (numbers directives).length ≤ maxConstants := by
  apply Nat.le_of_not_lt
  intro full
  exact errors_foldl_of_overflow (legible_of_quiet quiet) assembly full quiet

end Assembly

namespace Parser

/-- What has become of the directives so far, on top of a chunk. -/
def assembled (parser : Parser) (chunk : Chunk) : Assembly :=
  parser.directives.toList.foldl Assembly.perform { chunk }

variable {before after : Parser}

/-- As long as nothing is reported, clean tokens are consumed one after another. -/
theorem Ready.step_silent (ready : before.Ready) (step : Step before after)
    (silent : ∀ error, .report error ∉ after.directives) :
    ∃ consumed, before.upcoming = consumed ++ after.upcoming ∧
      ∀ token ∈ consumed, token.kind ≠ .error := by
  cases step with
  | advance =>
    rcases ready.advance_cases with
      ⟨empty, result⟩ | ⟨skipped, token, rest, split, errors, clean, result⟩
    · exact ⟨[], by rw [result]; rfl, by simp⟩
    · have none : skipped = [] := by
        apply List.eq_nil_iff_forall_not_mem.mpr
        intro error member
        apply silent (.ofErrorToken error)
        rw [result]
        exact Array.mem_append_right _ (by simpa using ⟨error, member, rfl⟩)
      refine ⟨[before.current], ?_, List.forall_mem_singleton.mpr ready.current⟩
      rw [result, upcoming, split, none]
      rfl
  | operation | number | unfit | blocked => exact ⟨[], rfl, by simp⟩

private theorem Ready.steps_silent (ready : before.Ready) (steps : Steps before after)
    (silent : ∀ error, .report error ∉ after.directives) :
    ∃ consumed, before.upcoming = consumed ++ after.upcoming ∧
      ∀ token ∈ consumed, token.kind ≠ .error := by
  induction steps with
  | refl => exact ⟨[], rfl, by simp⟩
  | @tail middle after steps step ih =>
    have quiet : ∀ error, .report error ∉ middle.directives := by
      intro error member
      have kept := step.directives_kept.subset (Array.mem_toList_iff.mpr member)
      exact silent error (Array.mem_toList_iff.mp kept)
    obtain ⟨consumed, split, clean⟩ := ih quiet
    obtain ⟨more, next, others⟩ := (ready.steps steps).1.step_silent step silent
    refine ⟨consumed ++ more, by rw [split, next, List.append_assoc], ?_⟩
    exact List.forall_mem_append.mpr ⟨clean, others⟩

private theorem Ready.upcoming_sift (ready : before.Ready) :
    before.sift.upcoming = sifted before.upcoming := by
  rw [upcoming, upcoming, sifted, List.filter_cons_of_pos (by simpa using ready.current)]
  rfl

private theorem Ready.clean_sift (ready : before.Ready) :
    ∀ token ∈ before.sift.upcoming, token.kind ≠ .error := by
  intro token member
  rw [ready.upcoming_sift] at member
  simpa using (List.mem_filter.mp member).2

section Silent

variable {room : Nat} {level : Precedence} (tight : .assignment ≤ level) (ready : before.Ready)
  (silent : ∀ error, .report error ∉ (expression room level before).directives)

include tight ready silent

private theorem Ready.readable_sifted : Readable room level before.sift.upcoming := by
  refine (readable_or_blocked room level _ tight ready.sift.ended).resolve_right ?_
  rintro ⟨front, token, rest, objection, impasse, split⟩
  have clean := ready.clean_sift token (by simp [split])
  have reported := (impasse.reports clean _ rest split).mem
  rw [← sift_translates.expression room tight ready] at reported
  exact silent _ (Array.mem_filter.mp reported).1

/-- Without error tokens the parser reads what there is to read, and in silence it passes no
error tokens. -/
theorem Ready.readable : ∃ layer expr next rest, In layer expr ∧ level ≤ layer.precedence ∧
    expr.nesting ≤ room ∧ ¬ level ≤ next.kind.rule.precedence ∧ next.kind ≠ .error ∧
    before.upcoming = expr.tokens ++ next :: rest := by
  obtain ⟨layer, expr, next, rest, inside, reads, fits, stops, split⟩ :=
    ready.readable_sifted tight silent
  let after := expression room level before
  have steps : Steps before after := expression_steps room level before
  have clean := ready.clean_sift next (by simp [split])
  have read : after.sift = before.sift.past expr next rest :=
    (sift_translates.expression room tight ready).trans
      (inside.reached.read _ reads stops clean fits split)
  obtain ⟨consumed, whole, others⟩ := ready.steps_silent steps silent
  have kept : sifted consumed = consumed := List.filter_eq_self.mpr (by simpa using others)
  have same : consumed = expr.tokens := by
    have left : sifted after.upcoming = next :: rest := by
      rw [← (ready.steps steps).1.upcoming_sift, read]
      rfl
    rw [ready.upcoming_sift, whole, sifted, List.filter_append, ← sifted, ← sifted, kept,
      left] at split
    exact List.append_cancel_right split
  have current : after.current = next := congrArg Parser.current read
  refine ⟨layer, expr, next, after.rest, inside, reads, fits, stops, clean, ?_⟩
  rw [whole, same, upcoming, current]

end Silent

/-- The tokens begin with an expression for the level, with no more nested ones than there is
room for, and something looser follows. -/
structure Begins (room : Nat) (level : Precedence) (tokens : List Token) (expr : Expr)
    (next : Token) (rest : List Token) : Prop where
  whole : tokens = expr.tokens ++ next :: rest
  ordered : Ordered expr
  binds : level ≤ expr.grip
  fits : expr.nesting ≤ room
  stops : next.kind.rule.precedence.rank < level.rank
  clean : next.kind ≠ .error

section Begins

variable {room : Nat} {level : Precedence} {tokens : List Token} {expr : Expr} {next : Token}
  {rest : List Token}

private theorem Begins.read (begins : Begins room level before.upcoming expr next rest) :
    expression room level before = before.past expr next rest := by
  obtain ⟨layer, inside, grip⟩ := begins.ordered.inside
  exact inside.reached.read before (grip ▸ begins.binds) (Nat.not_le_of_lt begins.stops)
    begins.clean begins.fits begins.whole

private theorem Begins.run (begins : Begins room level tokens expr next rest) :
    Expr.Run level expr.tokens := by
  obtain ⟨layer, inside, grip⟩ := begins.ordered.inside
  exact inside.run (grip ▸ begins.binds)

private theorem Begins.longest (begins : Begins room level tokens expr next rest)
    {other : List Token}
    (also : Expr.Run level other) (front : other <+: tokens) :
    other.length ≤ expr.tokens.length := by
  obtain ⟨behind, split⟩ := front
  exact begins.run.length_le also begins.stops (begins.whole.symm.trans split.symm)

/-- A token that starts no expression is reported. So is whatever else is no beginning of one. -/
theorem begins_of_silent (tight : .assignment ≤ level)
    (ended : before.current.kind ≠ .eof → Ended before.rest)
    (silent : ∀ error, .report error ∉ (expression (room + 1) level before).directives) :
    ∃ expr next rest, Begins (room + 1) level before.upcoming expr next rest := by
  have starts : before.current.kind.rule.atStart ≠ none := by
    intro unfit
    apply silent (.atToken before.current Objection.expectExpression.message)
    simp [expression, unfit, reportAtPrevious, direct]
  have inner := TokenKind.inner_of_atStart starts
  simp only [List.mem_cons, List.not_mem_nil, or_false, not_or] at inner
  -- The token before the expression has no part in reading it.
  let start : Parser := { before with previous := before.current }
  have same : expression (room + 1) level start = expression (room + 1) level before := rfl
  have ready : start.Ready := ⟨(ended inner.2).cons inner.2, inner.1, inner.1⟩
  rw [← same] at silent
  obtain ⟨layer, expr, next, rest, inside, reads, fits, stops, clean, whole⟩ :=
    ready.readable tight silent
  obtain ⟨ordered, grip⟩ := inside.ordered
  exact ⟨expr, next, rest, whole, ordered, Nat.le_trans reads grip, fits,
    Nat.lt_of_not_le stops, clean⟩

end Begins

/-- All numbers of the expression have a value, and the chunk has places for them. -/
structure Loadable (chunk : Chunk) (expr : Expr) : Prop where
  legible : ∀ token ∈ expr.numbers, token.value?.isSome
  room : chunk.constants.size + expr.numbers.length ≤ maxConstants

section Assembled

variable {chunk : Chunk} {expr : Expr} {layer : Layer}

private theorem assembled_past (parser : Parser) (chunk : Chunk) (expr : Expr) (next : Token)
    (rest : List Token) : (parser.past expr next rest).assembled chunk =
      expr.directives.foldl Assembly.perform (parser.assembled chunk) := by
  simp [assembled, past, List.foldl_append]

section Inside

variable {assembly : Assembly} (inside : In layer expr)

include inside

private theorem legible_iff :
    Directive.Legible expr.directives ↔ ∀ token ∈ expr.numbers, token.value?.isSome := by
  rw [Directive.Legible, inside.numbers_directives]

private theorem loadable_of_quiet
    (quiet : (expr.directives.foldl Assembly.perform assembly).errors = []) :
    Loadable assembly.chunk expr where
  legible := (legible_iff inside).mp (Assembly.legible_of_quiet quiet)
  room := by
    have room := Assembly.room_of_quiet quiet
    rwa [inside.numbers_directives] at room

variable (loadable : Loadable assembly.chunk expr)

include loadable

private theorem errors_foldl_of_loadable :
    (expr.directives.foldl Assembly.perform assembly).errors = assembly.errors := by
  apply Assembly.errors_foldl_of_silent ((legible_iff inside).mpr loadable.legible)
  · exact report_not_mem_directives expr
  · rw [inside.numbers_directives]
    exact loadable.room

private theorem grows_of_loadable :
    ∃ values, Chunk.Grows assembly.chunk (expr.encoding assembly.chunk.constants.size) values
        (expr.directives.foldl Assembly.perform assembly).chunk ∧
      values.map some = expr.numbers.map Token.value? := by
  have legible := (legible_iff inside).mpr loadable.legible
  have room := loadable.room
  have bounded := Nat.min_eq_left assembly.chunk.constants_size
  have grows := Assembly.foldl_perform_grows legible assembly bounded.symm
  have few : (Directive.values expr.directives).length ≤
      maxConstants - assembly.chunk.constants.size := by
    rw [Directive.length_values legible, inside.numbers_directives]
    omega
  rw [inside.cells_directives room, List.take_of_length_le few] at grows
  refine ⟨_, grows, ?_⟩
  rw [Directive.map_some_values legible, inside.numbers_directives]

end Inside

variable {room : Nat} {level : Precedence} {next : Token} {rest : List Token}

private theorem Begins.quiet (begins : Begins room level before.upcoming expr next rest)
    (clean : (before.assembled chunk).errors = [])
    (loadable : Loadable (before.assembled chunk).chunk expr) :
    ((expression room level before).assembled chunk).errors = [] := by
  rw [begins.read, assembled_past, errors_foldl_of_loadable begins.ordered.equality loadable,
    clean]

private theorem begins_of_quiet (tight : .assignment ≤ level)
    (ended : before.current.kind ≠ .eof → Ended before.rest)
    (quiet : ((expression (room + 1) level before).assembled chunk).errors = []) :
    ∃ expr next rest, Begins (room + 1) level before.upcoming expr next rest ∧
      (before.assembled chunk).errors = [] ∧ Loadable (before.assembled chunk).chunk expr := by
  have silent : ∀ error, .report error ∉ (expression (room + 1) level before).directives :=
    fun error member =>
      Assembly.report_not_mem_of_quiet quiet error (Array.mem_toList_iff.mpr member)
  obtain ⟨expr, next, rest, begins⟩ := begins_of_silent tight ended silent
  rw [begins.read, assembled_past] at quiet
  exact ⟨expr, next, rest, begins, Assembly.errors_of_foldl quiet,
    loadable_of_quiet begins.ordered.equality quiet⟩

end Assembled

end Parser

/-- An expression is read at a level from any state that is less than 1024 deep, whatever was
asked for before and on top of any chunk; only the tokens must end, as those of a source do.
There is no error exactly if there was none before and the tokens to come begin with an
expression of the level that nests no deeper than it may and whose numbers can be loaded. Then
the longest run is consumed that consists of unary expressions, joined by operators that bind at
least as tightly as the level; and the chunk is kept, with the code of the run's one tree behind
it in which tighter operators bind first and equal ones from left to right. What comes next is
looser than the level. -/
theorem expression_reads_longest_run (level : Precedence) (tight : .assignment ≤ level)
    (depth : Nat) (shallow : depth < 1024) (before : Parser) (chunk : Chunk)
    (ended : before.current.kind ≠ .eof → Ended before.rest) :
    let after := Parser.expression (1024 - depth) level before
    let held := (before.assembled chunk).chunk
    ((after.assembled chunk).errors = [] ↔ (before.assembled chunk).errors = [] ∧
      ∃ expr next rest, Begins (1024 - depth) level before.upcoming expr next rest ∧
        Loadable held expr) ∧
    ((after.assembled chunk).errors = [] →
      ∃ expr values, Ordered expr ∧
        (∀ other, Ordered other → other.tokens = expr.tokens → other = expr) ∧
        before.upcoming = expr.tokens ++ after.upcoming ∧
        Expr.Run level expr.tokens ∧
        (∀ other, Expr.Run level other → other <+: before.upcoming →
          other.length ≤ expr.tokens.length) ∧
        Chunk.Grows held (expr.encoding held.constants.size) values (after.assembled chunk).chunk ∧
        values.map some = expr.numbers.map (fun token =>
          (Numeral.read? token.lexeme).map Value.number) ∧
        after.current.kind.rule.precedence.rank < level.rank ∧
        expr.tokens.getLast? = some after.previous) := by
  obtain ⟨room, more⟩ : ∃ room, 1024 - depth = room + 1 := ⟨1023 - depth, by omega⟩
  rw [more]
  intro after held
  refine ⟨⟨fun quiet => ?_, ?_⟩, fun quiet => ?_⟩
  · obtain ⟨expr, next, rest, begins, clean, loadable⟩ := begins_of_quiet tight ended quiet
    exact ⟨clean, expr, next, rest, begins, loadable⟩
  · rintro ⟨clean, expr, next, rest, begins, loadable⟩
    exact begins.quiet clean loadable
  · obtain ⟨expr, next, rest, begins, clean, loadable⟩ := begins_of_quiet tight ended quiet
    obtain ⟨values, grows, known⟩ := grows_of_loadable begins.ordered.equality loadable
    have read : after = before.past expr next rest := begins.read
    refine ⟨expr, values, begins.ordered, fun other ordered => ordered.unique begins.ordered, ?_,
      begins.run, fun other => begins.longest, ?_, known, ?_, ?_⟩
    · rw [begins.whole, read]
      rfl
    · rwa [read, assembled_past]
    · rw [read]
      exact begins.stops
    · rw [read]
      exact expr.getLast?_tokens

/-- Behind a comparison the difference is read up to the equality, with the product first, and
its code is added to that of the left operand. -/
theorem expression_reads_longest_run_behind_comparison :
    let before : Parser :=
      { previous := ⟨.less, "<", 1⟩, current := ⟨.number, "1", 1⟩,
        rest := tokensOf "- 2 * 3 == 4", directives := #[.operation .nil 1] }
    let after := Parser.expression 1023 .term before
    (after.assembled .empty).errors = [] ∧
      ∃ expr, Ordered expr ∧ before.upcoming = expr.tokens ++ after.upcoming ∧
        expr.tokens.length = 5 ∧ (expr.encoding 0).map Prod.fst = [0, 0, 0, 1, 0, 2, 9, 8] := by
  intro before after
  have quiet : (after.assembled .empty).errors = [] := by decide +kernel
  have size : (after.assembled .empty).chunk.code.toList =
      [Operation.nil.byte] ++ [0, 0, 0, 1, 0, 2, 9, 8] := by decide +kernel
  have lengths : before.upcoming.length = 5 + after.upcoming.length := by decide +kernel
  obtain ⟨expr, _, ordered, _, whole, _, _, grows, _⟩ :=
    (expression_reads_longest_run .term (by decide) 1 (by decide) before .empty
      fun _ => ended_tokensOf _).2 quiet
  refine ⟨quiet, expr, ordered, whole, ?_, List.append_cancel_left (grows.code.symm.trans size)⟩
  have split : before.upcoming.length = expr.tokens.length + after.upcoming.length :=
    (congrArg List.length whole).trans List.length_append
  omega

end StackCalc
