import StackCalc.Proofs.Payload
import StackCalc.Proofs.Placement
import StackCalc.Rendering

/-! Errors are about the source. Whatever is reported goes back to one token, which gives
it its line, and whatever fault comes up is on the line of some token; so a diagnostic
always has a line of the source to show. -/

namespace StackCalc

/-- The error is about a token; if that is an error token, the message is the token's own. -/
def CompileError.About (tokens : List Token) (error : CompileError) : Prop :=
  ∃ token ∈ tokens, error = .atToken token error.message ∧
    (token.kind = .error → error.message = token.lexeme)

/-- Whatever the directive may lead to is about a token. -/
def Directive.Founded (tokens : List Token) (directive : Directive) : Prop :=
  ∀ error, Assembly.Raises directive error → error.About tokens

namespace Parser

/-- The token in view is a clean one, and it is one of the tokens, as all are that follow. -/
structure Upon (tokens : List Token) (parser : Parser) : Prop where
  rest : ∀ token ∈ parser.rest, token ∈ tokens
  current : parser.current ∈ tokens
  clean : parser.current.kind ≠ .error
  founded : ∀ directive ∈ parser.directives, directive.Founded tokens

/-- So is the token in front of it. -/
structure Amid (tokens : List Token) (parser : Parser) : Prop extends Upon tokens parser where
  previous : parser.previous ∈ tokens
  cleanBefore : parser.previous.kind ≠ .error

variable {tokens : List Token} {parser : Parser}

private theorem about_of_clean {token : Token} (member : token ∈ tokens)
    (clean : token.kind ≠ .error)
    (message : String) : (CompileError.atToken token message).About tokens :=
  ⟨token, member, rfl, fun kind => absurd kind clean⟩

private theorem founded_skipped {skipped : List Token} {directives : Array Directive}
    (founded : ∀ directive ∈ directives, directive.Founded tokens)
    (inside : ∀ token ∈ skipped, token ∈ tokens) :
    ∀ directive ∈ directives ++ (skipped.map Directive.lexical).toArray,
      directive.Founded tokens := by
  intro directive member
  simp only [Array.mem_append, List.mem_toArray, List.mem_map] at member
  rcases member with member | ⟨token, member, rfl⟩
  · exact founded directive member
  · rintro _ ⟨⟩
    exact ⟨token, inside token member, rfl, fun _ => rfl⟩

/-- Bringing up a token needs a clean one, in view or to come. -/
theorem upon_advance (rest : ∀ token ∈ parser.rest, token ∈ tokens)
    (founded : ∀ directive ∈ parser.directives, directive.Founded tokens)
    (more : (∃ token ∈ parser.rest, token.kind ≠ .error) ∨
      parser.current ∈ tokens ∧ parser.current.kind ≠ .error) : parser.advance.Upon tokens := by
  rcases pull_cases { parser with previous := parser.current } parser.rest with
    ⟨skipped, token, after, split, errors, clean, result⟩ | ⟨errors, result⟩
  · rw [advance, result]
    rw [split] at rest
    exact ⟨fun other member => rest other (by simp [member]), rest token (by simp), clean,
      founded_skipped founded fun other member => rest other (by simp [member])⟩
  · rw [advance, result]
    rcases more with ⟨token, member, clean⟩ | ⟨current, clean⟩
    · exact absurd (errors token member) clean
    · exact ⟨fun _ member => absurd member List.not_mem_nil, current, clean,
        founded_skipped founded rest⟩

private theorem Upon.advance (upon : parser.Upon tokens) : parser.advance.Amid tokens where
  toUpon := upon_advance upon.rest upon.founded (.inr ⟨upon.current, upon.clean⟩)
  previous := by
    rw [previous_advance]
    exact upon.current
  cleanBefore := by
    rw [previous_advance]
    exact upon.clean

private theorem Amid.direct {directive : Directive} (amid : parser.Amid tokens)
    (founded : directive.Founded tokens) : (parser.direct directive).Amid tokens where
  rest := amid.rest
  current := amid.current
  clean := amid.clean
  previous := amid.previous
  cleanBefore := amid.cleanBefore
  founded other member := by
    rcases Array.mem_push.mp member with member | rfl
    · exact amid.founded other member
    · exact founded

private theorem Amid.step {before after : Parser} (amid : before.Amid tokens)
    (step : Step before after) : after.Amid tokens := by
  cases step with
  | advance => exact amid.toUpon.advance
  | operation => exact amid.direct nofun
  | number | unfit =>
    refine amid.direct ?_
    rintro _ ⟨⟩
    exact about_of_clean amid.previous amid.cleanBefore _
  | blocked =>
    refine amid.direct ?_
    rintro _ ⟨⟩
    exact about_of_clean amid.current amid.clean _

private theorem Amid.steps {before after : Parser} (amid : before.Amid tokens)
    (steps : Steps before after) : after.Amid tokens := by
  induction steps with
  | refl => exact amid
  | tail _ step ih => exact ih.step step

private theorem amid_start (ended : Ended tokens) :
    (ofTokens tokens).advance.advance.Amid tokens := by
  have more : ∃ token ∈ tokens, token.kind ≠ .error := by
    obtain ⟨body, eof, rfl, kind, _⟩ := ended
    exact ⟨eof, by simp, by simp [kind]⟩
  have none : ∀ directive ∈ (ofTokens tokens).directives, directive.Founded tokens :=
    fun _ member => absurd member (Array.not_mem_empty _)
  exact (upon_advance (fun _ member => member) none (.inl more)).advance

private theorem founded_directivesOf (ended : Ended tokens) :
    ∀ directive ∈ directivesOf tokens, directive.Founded tokens := by
  have read := (amid_start ended).steps
    ((expression_steps_succ (expression_steps 1023) .assignment _).trans
      (expect_steps _ .eof (show .expectEnd ∈ _ by decide)))
  have returns (line : Nat) : Directive.Founded tokens (.operation .return line) := nofun
  have done : Amid tokens ((readAll tokens).emit [.return]) := read.direct (returns _)
  intro directive member
  exact done.founded directive (Array.mem_toList_iff.mp member)

end Parser

private theorem about_of_mem_errors {source : String} {chunk : Chunk} {error : CompileError}
    (member : error ∈ (Assembly.ofTokens (tokensOf source) chunk).errors) :
    error.About (tokensOf source) := by
  have ended := ended_tokensOf source
  have legible := legible_directivesOf ended (readings_tokensOf source)
  rcases Assembly.errors_foldl_raised legible { chunk } rfl with
    none | ⟨other, one, directive, inside, raises⟩
  · rw [Assembly.ofTokens, none] at member
    cases member
  · rw [Assembly.ofTokens, one] at member
    rw [List.mem_singleton.mp member]
    exact Parser.founded_directivesOf ended directive inside other raises

namespace Expr

private theorem last_mem_tokens (expr : Expr) : expr.last ∈ expr.tokens :=
  List.mem_of_getLast? expr.getLast?_tokens

private theorem line_of_mapError {result : Except Fault Value} {line : Nat} {error : RuntimeError}
    (fails : result.mapError (⟨·, line⟩) = .error error) : error.line = line := by
  cases result with
  | error fault => cases fails; rfl
  | ok value => cases fails

/-- What fails is either the first part or what is done with its value. -/
theorem error_cases {first : Except RuntimeError Value} {next : Value → Except RuntimeError Value}
    {error : RuntimeError} (fails : first >>= next = .error error) :
    first = .error error ∨ ∃ value, next value = .error error := by
  cases first with
  | error other => exact .inl fails
  | ok value => exact .inr ⟨value, fails⟩

/-- The line of a fault is that of a token. -/
theorem exists_line_of_error {expr : Expr} {waiting : Nat} {error : RuntimeError}
    (fails : expr.evaluate waiting = .error error) : ∃ token ∈ expr.tokens, error.line = token.line := by
  induction expr generalizing waiting with
  | literal token =>
    simp only [evaluate, literalValue] at fails
    split at fails
    · cases fails
    · cases fails
      exact ⟨token, List.mem_singleton_self token, rfl⟩
  | group opening inner closing ih =>
    obtain ⟨token, member, line⟩ := ih fails
    exact ⟨token, by simp [tokens, member], line⟩
  | unary operator operand ih =>
    rcases error_cases fails with within | ⟨value, fails⟩
    · obtain ⟨token, member, line⟩ := ih within
      exact ⟨token, .tail _ member, line⟩
    · exact ⟨operand.last, .tail _ operand.last_mem_tokens, line_of_mapError fails⟩
  | binary left operator right ihLeft ihRight =>
    rcases error_cases fails with within | ⟨a, fails⟩
    · obtain ⟨token, member, line⟩ := ihLeft within
      exact ⟨token, List.mem_append_left _ member, line⟩
    · rcases error_cases fails with within | ⟨b, fails⟩
      · obtain ⟨token, member, line⟩ := ihRight within
        exact ⟨token, List.mem_append_right _ (.tail _ member), line⟩
      · exact ⟨right.last, List.mem_append_right _ (.tail _ right.last_mem_tokens),
          line_of_mapError fails⟩

end Expr

namespace Diagnostic

/-- A line of the source as it is shown: its number and a bar in front, and above and below
it a row with the bar alone. With colour, numbers and bars are in cyan. -/
def rows (line : Nat) (text : String) (colour : Bool) : String :=
  let gutter := String.ofList (List.replicate (toString line).length ' ')
  let number := if colour then "\x1b[36m" ++ toString line ++ "\x1b[0m" else toString line
  let bar := if colour then "\x1b[36m|\x1b[0m" else "|"
  gutter ++ " " ++ bar ++ "\n" ++
  number ++ " " ++ bar ++ " " ++ text ++ "\n" ++
  gutter ++ " " ++ bar ++ "\n"

/-- The source has the line, without what ends it, and the diagnostic is rendered with it. -/
structure Shows (source : String) (diagnostic : Diagnostic) (line : Nat) : Prop where
  placed : diagnostic.line = some line
  positive : 1 ≤ line
  within : line ≤ 1 + source.toList.count '\n'
  shown : ∃ text, Excerpt.line? source line = some text ∧
    (source.toList.splitOn '\n')[line - 1]?.map (List.rdropWhile (· == '\r')) = some text.toList ∧
    ∀ colour, (diagnostic.withSource source).render colour =
      diagnostic.render colour ++ rows line text colour

private theorem excerpt_eq_rows (colour : Bool) (line : Nat) (text : String) :
    excerpt colour line text = rows line text colour := by
  have gutter : Column.left (toString line).length "" =
      String.ofList (List.replicate (toString line).length ' ') := String.empty_append
  have number : Style.cyan.paint colour (toString line) =
      if colour then "\x1b[36m" ++ toString line ++ "\x1b[0m" else toString line := by
    rw [Style.paint, show "\x1b[" ++ Style.cyan.code ++ "m" = "\x1b[36m" by decide]
  have bar : Style.cyan.paint colour "|" = if colour then "\x1b[36m|\x1b[0m" else "|" := by
    cases colour <;> decide
  unfold excerpt rows
  simp only [gutter, number, bar, String.append_assoc]

private theorem render_withSource {diagnostic : Diagnostic} {source text : String} {line : Nat}
    (placed : diagnostic.line = some line) (bare : diagnostic.source = none)
    (found : Excerpt.line? source line = some text) (colour : Bool) :
    (diagnostic.withSource source).render colour =
      diagnostic.render colour ++ rows line text colour := by
  have sourced : (diagnostic.withSource source).source = some source := rfl
  have same : (diagnostic.withSource source).line = some line := placed
  simp only [render, same, sourced, placed, bare, Option.bind_some, Option.bind_none, found,
    excerpt_eq_rows, String.append_assoc, String.append_empty]
  rfl

end Diagnostic

/-- The source has what the error is about on the line that it gives. -/
def CompileError.Points (source : String) (error : CompileError) : Prop :=
  match error.location with
  | .at lexeme => ∃ text, Excerpt.line? source error.line = some text ∧
      Excerpt.lastPart lexeme.toList <:+: text.toList
  | .atEnd => error.line = 1 + source.toList.count '\n'
  | .lexical => error.message = "Unterminated string." → error.line = 1 + source.toList.count '\n'

/-- Some token ends on the line that the error gives. -/
def RuntimeError.Points (source : String) (error : RuntimeError) : Prop :=
  ∃ token ∈ tokensOf source, token.kind ∉ [.error, .eof] ∧ token.Stands source.toList ∧
    error.line = token.line

private theorem CompileError.About.points {source : String} {error : CompileError}
    (about : error.About (tokensOf source)) : error.Points source := by
  obtain ⟨token, member, same, own⟩ := about
  rw [same]
  unfold Points atToken Location.ofToken
  cases kind : token.kind
  case eof => exact eof_line member kind
  case error =>
    intro message
    apply (stands_of_mem_tokensOf member (by simp [kind])).on_last_line kind
    rw [← own kind]
    exact message
  all_goals exact (stands_of_mem_tokensOf member (by simp [kind])).shown (by simp [kind])

private theorem points_of_fault {source : String}
    (compiles : (Assembly.ofTokens (tokensOf source) .empty).errors = [])
    {machine : Machine} {error : RuntimeError}
    (fails : (machine.run (Assembly.ofTokens (tokensOf source) .empty).chunk).outcome = .error error) :
    error.Points source := by
  have ended := ended_tokensOf source
  obtain ⟨expr, ⟨inside, eof, _, split⟩, evaluates⟩ :=
    run_of_accepted ended (readings_tokensOf source) compiles
  rw [evaluates] at fails
  obtain ⟨token, member, line⟩ := Expr.exists_line_of_error fails
  have ordinary : token.kind ∉ [.error, .eof] := by
    obtain ⟨body, last, whole, _, inner⟩ := ended
    obtain ⟨rfl, _⟩ := List.append_inj' (whole.symm.trans split) rfl
    simp [inside.clean token member, inner token member]
  have known : token ∈ tokensOf source := split ▸ List.mem_append_left _ member
  exact ⟨token, known, ordinary, stands_of_mem_tokensOf known (by simp_all), line⟩

private theorem shows_of_mem_tokensOf {source : String} {token : Token}
    (member : token ∈ tokensOf source)
    {diagnostic : Diagnostic} (placed : diagnostic.line = some token.line)
    (bare : diagnostic.source = none) : diagnostic.Shows source token.line := by
  obtain ⟨positive, within, text, found⟩ := line_of_mem_tokensOf member
  refine ⟨placed, positive, within, text, found, ?_, Diagnostic.render_withSource placed bare found⟩
  have split := found
  rw [← Nat.sub_add_cancel positive, Excerpt.line?_eq_splitOn] at split
  obtain ⟨part, there, rfl⟩ := Option.map_eq_some_iff.mp split
  rw [there, Option.map_some, String.toList_ofList]

private theorem Machine.failure_cases {machine : Machine} {source : String} {error : InterpretError}
    (fails : (machine.interpret source).outcome = .error error) :
    (∃ errors ≠ [], error = .compile errors ∧
      (Assembly.ofTokens (tokensOf source) .empty).errors = errors) ∨
      ∃ fault, error = .runtime fault ∧ (Assembly.ofTokens (tokensOf source) .empty).errors = [] ∧
        (machine.run (Assembly.ofTokens (tokensOf source) .empty).chunk).outcome = .error fault := by
  by_cases compiles : (Assembly.ofTokens (tokensOf source) .empty).errors = []
  · have ran := @outcome_of_compiles machine.config source compiles machine
    rw [fails] at ran
    cases ended : (machine.run (Assembly.ofTokens (tokensOf source) .empty).chunk).outcome with
    | ok value =>
      rw [ended] at ran
      cases ran
    | error fault =>
      rw [ended] at ran
      cases ran
      exact .inr ⟨fault, rfl, compiles, rfl⟩
  · rw [outcome_of_rejected rfl compiles] at fails
    cases fails
    exact .inl ⟨_, compiles, rfl, rfl⟩

/-- Whatever makes a source fail, there is a diagnostic for each error, with the line that
the error gives; the source has this line, and it is shown. What a compile error is located
at is on the line, and on the last line if it is the end; the line of a fault is one on which
a token ends. -/
theorem diagnostics_point_into_source (machine : Machine) (source : String)
    (error : InterpretError) (fails : (machine.interpret source).outcome = .error error) :
    match error with
    | .compile errors => errors ≠ [] ∧ List.Forall₂ (fun one diagnostic =>
        diagnostic.Shows source one.line ∧ one.Points source) errors
          (Diagnostic.ofInterpretError (.compile errors))
    | .runtime fault => ∃ diagnostic, Diagnostic.ofInterpretError (.runtime fault) = [diagnostic] ∧
        diagnostic.Shows source fault.line ∧ fault.Points source := by
  rcases Machine.failure_cases fails with ⟨errors, some, rfl, reported⟩ | ⟨fault, rfl, compiles, ran⟩
  · refine ⟨some, List.forall₂_map_right_iff.mpr (List.forall₂_same.mpr ?_)⟩
    intro one member
    rw [← reported] at member
    have points := (about_of_mem_errors member).points
    obtain ⟨token, inside, same, _⟩ := about_of_mem_errors member
    have line : one.line = token.line := by
      rw [same]
      rfl
    exact ⟨line ▸ shows_of_mem_tokensOf inside (congrArg Option.some line) rfl, points⟩
  · obtain ⟨token, inside, ordinary, stands, line⟩ := points_of_fault compiles ran
    exact ⟨_, rfl, line ▸ shows_of_mem_tokensOf inside (congrArg some line) rfl,
      token, inside, ordinary, stands, line⟩

/-- A string that goes on over two lines is shown by its second part, without the carriage
return behind it. -/
theorem diagnostics_point_into_split_string :
    let source := "1 \"a\r\nb\"\r\n"
    let error : CompileError := ⟨2, .at "\"a\r\nb\"", "Expect end of expression."⟩
    let diagnostic := Diagnostic.ofCompileError error
    (({} : Machine).interpret source).outcome = .error (.compile [error]) ∧
    (diagnostic.withSource source).render false =
      "error: Expect end of expression.\n  --> line 2, at '\"a\r\nb\"'\n" ++
      "  |\n2 | b\"\n  |\n" ∧
    (diagnostic.withSource source).render true = diagnostic.render true ++
      "  \x1b[36m|\x1b[0m\n\x1b[36m2\x1b[0m \x1b[36m|\x1b[0m b\"\n  \x1b[36m|\x1b[0m\n" ∧
    error.Points source := by
  intro source error diagnostic
  have rejected : (Assembly.ofTokens (tokensOf source) .empty).errors = [error] := by decide +kernel
  have fails := outcome_of_rejected rejected (List.cons_ne_nil _ _) {}
  have found : Excerpt.line? source 2 = some "b\"" := by decide +kernel
  obtain ⟨_, each⟩ := diagnostics_point_into_source {} source (.compile [error]) fails
  obtain ⟨⟨shows, points⟩, _⟩ := List.forall₂_cons.mp each
  obtain ⟨text, same, _, rendered⟩ := shows.shown
  cases found.symm.trans same
  exact ⟨fails, (rendered false).trans (by decide +kernel),
    (rendered true).trans (by decide +kernel), points⟩

end StackCalc
