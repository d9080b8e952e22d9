import StackCalc.Proofs.Acceptance

/-! A source has at most one error. Unless it nests too deeply or has too many numbers,
the error is at the first token that nothing could follow: up to there it was the
beginning of a text that compiles. -/

namespace StackCalc

open StackCalc.Expr StackCalc.Parser

/-- An operand and a closing parenthesis, with which any beginning can be completed. -/
def completions (line : Nat) : List Token :=
  [⟨.kwNil, "nil", line⟩, ⟨.rightParen, ")", line⟩]

private theorem completions_kind {line : Nat} {token : Token} (member : token ∈ completions line) :
    token.kind = .kwNil ∨ token.kind = .rightParen := by
  simp only [completions, List.mem_cons, List.not_mem_nil, or_false] at member
  exact member.imp (by rintro rfl; rfl) (by rintro rfl; rfl)

/-- The tokens before an impasse begin an expression, unless they nest as deep as
possible already. -/
theorem Impasse.viable {room : Nat} {level : Precedence} {before : List Token} {token : Token}
    {objection : Objection} (impasse : Impasse room level before token objection)
    (shallow : objection ≠ .nestedTooDeeply) (line : Nat) :
    ∃ layer expr suffix, In layer expr ∧ level ≤ layer.precedence ∧ expr.nesting ≤ room ∧
      expr.tokens = before ++ suffix ∧ ∀ other ∈ suffix, other ∈ completions line := by
  induction impasse with
  | depth => exact absurd rfl shallow
  | start unfit =>
    refine ⟨.primary, .literal ⟨.kwNil, "nil", line⟩, [⟨.kwNil, "nil", line⟩], .literal (by simp),
      Layer.le_precedence_unary _, ?_, rfl, by simp [completions]⟩
    simp only [nesting]
    omega
  | @group room level opening before token objection left inner ih =>
    obtain ⟨layer, expr, suffix, inside, reads, fits, tokens, filled⟩ := ih shallow
    refine ⟨.primary, .group opening expr ⟨.rightParen, ")", line⟩,
      suffix ++ [⟨.rightParen, ")", line⟩], .group left rfl inside.equality,
      Layer.le_precedence_unary _, ?_, by simp [Expr.tokens, tokens], ?_⟩
    · simp only [nesting]
      omega
    · intro other member
      rcases List.mem_append.mp member with member | member
      · exact filled other member
      · exact .tail _ member
  | @closing room level opening inner token left inside fits stops other =>
    refine ⟨.primary, .group opening inner ⟨.rightParen, ")", line⟩, [⟨.rightParen, ")", line⟩],
      .group left rfl inside, Layer.le_precedence_unary _, ?_, rfl, by simp [completions]⟩
    simp only [nesting]
    omega
  | @unary room level operator before token objection kind operand ih =>
    obtain ⟨layer, expr, suffix, inside, reads, fits, tokens, filled⟩ := ih shallow
    refine ⟨.unary, .unary operator expr, suffix,
      .unary kind (inside.loosen .unary (Layer.rank_unary_le reads)),
      Layer.le_precedence_unary _, ?_, by simp [Expr.tokens, tokens], filled⟩
    simp only [nesting]
    omega
  | @binary room level layer left operator before token objection joins binds first fits second ih =>
    obtain ⟨tighter, expr, suffix, inside, reads, rightFits, tokens, filled⟩ := ih shallow
    have outer := Layer.rank_of_ofOperator? joins
    refine ⟨layer, .binary left operator expr, suffix,
      .binary joins first (inside.loosen _ (Layer.rank_tighter_le outer reads)), binds, ?_,
      by simp [Expr.tokens, tokens], filled⟩
    simp only [nesting]
    omega

private theorem Rejects.viable {before : List Token} {token : Token} {objection : Objection}
    (rejects : Rejects before token objection) (shallow : objection ≠ .nestedTooDeeply)
    (line : Nat) :
    ∃ expr suffix, In .equality expr ∧ expr.nesting ≤ maxNesting ∧
      expr.tokens = before ++ suffix ∧ ∀ other ∈ suffix, other ∈ completions line := by
  cases rejects with
  | impasse impasse =>
    obtain ⟨_, expr, suffix, inside, _, fits, tokens, filled⟩ := impasse.viable shallow line
    exact ⟨expr, suffix, inside.equality, fits, tokens, filled⟩
  | @trailing expr _ inside fits => exact ⟨expr, [], inside, fits, by simp, by simp⟩

private theorem errors_of_completed {before suffix : List Token} {expr : Expr} {line : Nat}
    (inside : In .equality expr) (fits : expr.nesting ≤ maxNesting)
    (tokens : expr.tokens = before ++ suffix)
    (filled : ∀ other ∈ suffix, other ∈ completions line) (readings : Readings before)
    {chunk : Chunk}
    (room : (before.filter (·.kind = .number)).length ≤ maxConstants - chunk.constants.size) :
    (Assembly.ofTokens (before ++ suffix ++ [⟨.eof, "", line⟩]) chunk).errors = [] := by
  have noNumber : ∀ other ∈ suffix, other.kind ≠ .number := by
    intro other member
    rcases completions_kind (filled other member) with kind | kind <;> rw [kind] <;> decide
  have ended : Ended (expr.tokens ++ [⟨.eof, "", line⟩]) :=
    ⟨expr.tokens, _, rfl, rfl, fun other member atEnd =>
      inside.inner other member (by simp [atEnd])⟩
  have legible : Readings (before ++ suffix ++ [⟨.eof, "", line⟩]) := by
    intro other member number
    simp only [List.mem_append, List.mem_singleton] at member
    rcases member with (member | member) | rfl
    · exact readings other member number
    · exact absurd number (noNumber other member)
    · cases number
  have count : (suffix.filter (·.kind = .number)) = [] := by simpa using noNumber
  rw [← tokens] at legible ⊢
  refine (errors_ofTokens_iff ended legible chunk).mpr ⟨?_, expr, ⟨inside, _, rfl, rfl⟩, ?_, fits⟩
  · intro other member error
    rcases List.mem_append.mp member with member | member
    · exact inside.clean other member error
    · rw [List.mem_singleton.mp member] at error
      cases error
  · simpa [tokens, count] using room

/-- The text could still have become right before this token, and cannot any more. -/
structure FirstMistake (chunk : Chunk) (before : List Token) (token : Token) : Prop where
  viable : ∃ suffix, (∀ other ∈ suffix, other ∈ completions token.line) ∧
    (Assembly.ofTokens (before ++ suffix ++ [⟨.eof, "", token.line⟩]) chunk).errors = []
  final : ∀ more, (Assembly.ofTokens (before ++ token :: more) chunk).errors ≠ []

private theorem Rejects.firstMistake {before : List Token} {token : Token} {objection : Objection}
    (rejects : Rejects before token objection) (shallow : objection ≠ .nestedTooDeeply)
    (clean : token.kind ≠ .error) (readings : Readings before) {chunk : Chunk}
    (room : (before.filter (·.kind = .number)).length ≤ maxConstants - chunk.constants.size) :
    FirstMistake chunk before token where
  viable := by
    obtain ⟨expr, suffix, inside, fits, tokens, filled⟩ := rejects.viable shallow token.line
    exact ⟨suffix, filled, errors_of_completed inside fits tokens filled readings room⟩
  final more :=
    Assembly.errors_foldl_of_report (report_mem_directivesOf (rejects.reports clean more).mem) _

theorem Rejects.errors {before after : List Token} {token : Token} {objection : Objection}
    (rejects : Rejects before token objection)
    (clean : ∀ other ∈ before ++ token :: after, other.kind ≠ .error)
    (ended : Ended (before ++ token :: after)) (readings : Readings (before ++ token :: after))
    {chunk : Chunk}
    (room : (before.filter (·.kind = .number)).length ≤ maxConstants - chunk.constants.size) :
    (Assembly.ofTokens (before ++ token :: after) chunk).errors =
      [.atToken token objection.message] := by
  obtain ⟨codes, silent, numbers, rest, reported⟩ := rejects.reports (clean token (by simp)) after
  have passed : overtaking objection after = [] := by
    have skipped : after.takeWhile (·.kind = .error) = [] := by
      cases after with
      | nil => rfl
      | cons next after =>
        exact List.takeWhile_cons_of_neg (by simpa using clean next (by simp))
    simp [overtaking, skipped]
  have whole : directivesOf (before ++ token :: after) =
      codes ++ .report (.atToken token objection.message) ::
        (rest ++ [.operation .return (readAll (before ++ token :: after)).previous.line]) := by
    rw [directivesOf_eq, ← reported, passed]
    simp [ofTokens]
  have legible : Directive.Legible codes := by
    intro other member
    apply legible_directivesOf ended readings
    rw [whole, Directive.numbers_append]
    exact List.mem_append_left _ member
  have bounded := chunk.constants_size
  have quiet : (codes.foldl Assembly.perform { chunk }).errors = [] :=
    Assembly.errors_foldl_of_silent legible silent { chunk } (by rw [numbers]; simp only; omega)
  have first := Assembly.errors_report_of_nil quiet (.atToken token objection.message)
  rw [Assembly.ofTokens, whole, List.foldl_append, List.foldl_cons, Assembly.errors_foldl_of_ne_nil]
  · exact first
  · intro none
    exact List.cons_ne_nil _ _ (first.symm.trans none)

private theorem LexicalError.message_ne (error : LexicalError) :
    error.message ≠ Objection.invalidNumber.message := by
  cases error <;> decide

/-- A number that the scanner lets through can always be read. -/
theorem message_ne_of_reportable {source : String} {error : CompileError}
    (reportable : Assembly.Reportable (directivesOf (tokensOf source)) error) :
    error.message ≠ Objection.invalidNumber.message := by
  rcases reportable with member | ⟨token, rfl⟩
  · rw [directivesOf_eq] at member
    rcases List.mem_append.mp member with inside | last
    · cases justified_readAll (ended_tokensOf source) _ (Array.mem_toList_iff.mp inside) with
      | @lexical token present kind =>
        obtain ⟨error, message⟩ := (sound_of_mem_tokensOf present (by simp [kind])).message kind
        rw [CompileError.ofErrorToken, CompileError.atToken, message]
        exact error.message_ne
      | @objection token objection syntactic =>
        simp only [List.mem_cons, List.not_mem_nil, or_false] at syntactic
        rcases syntactic with rfl | rfl | rfl | rfl <;>
          simp [CompileError.atToken, Objection.message]
    · cases List.mem_singleton.mp last
  · simp [CompileError.atToken, Objection.message, ChunkError.message]

/-- A failed compilation reports one error, which is never about a number that cannot
be read. If the source has no error tokens and its numbers fit into the pool, and
something is expected that does not come, then the error is at the first mistake. -/
theorem one_error_at_first_mistake (config : Config) (source : String) (chunk : Chunk) :
    (compile config source chunk).errors = [] ∨
    ∃ error, (compile config source chunk).errors = [error] ∧
      error.message ≠ "Invalid number literal." ∧
      ((∀ token ∈ tokensOf source, token.kind ≠ .error) →
        ((tokensOf source).filter (·.kind = .number)).length ≤ 256 - chunk.constants.size →
        error.message ∈ ["Expect expression.", "Expect ')' after expression.",
          "Expect end of expression."] →
        ∃ before token after, tokensOf source = before ++ token :: after ∧
          error.line = token.line ∧
          error.location = (if token.kind = .eof then .atEnd else .at token.lexeme) ∧
          FirstMistake chunk before token) := by
  have ended := ended_tokensOf source
  have readings := readings_tokensOf source
  rcases Assembly.errors_foldl_cases (legible_directivesOf ended readings) { chunk } rfl with
    none | ⟨error, one, reportable⟩
  · exact .inl none
  · refine .inr ⟨error, one, message_ne_of_reportable reportable, ?_⟩
    intro clean room expected
    rcases denotes_or_rejects ended with
      ⟨expr, denotes, fits⟩ | ⟨before, token, after, objection, split, rejects⟩
    · have accepted := (errors_ofTokens_iff ended readings chunk).mpr
        ⟨clean, expr, denotes, room, fits⟩
      exact absurd (one.symm.trans accepted) (List.cons_ne_nil _ _)
    · have front : (before.filter (·.kind = .number)).length ≤
          maxConstants - chunk.constants.size := by
        rw [split, List.filter_append, List.length_append] at room
        exact Nat.le_trans (Nat.le_add_right _ _) room
      have found : (Assembly.ofTokens (tokensOf source) chunk).errors = _ := one
      rw [split] at clean ended readings found
      rw [rejects.errors clean ended readings front] at found
      obtain ⟨rfl, _⟩ := List.cons.inj found
      have shallow : objection ≠ .nestedTooDeeply := by
        rintro rfl
        simp [CompileError.atToken, Objection.message] at expected
      have inner := clean token (by simp)
      have readable : Readings before := by
        intro other member
        exact readings other (List.mem_append_left _ member)
      have mistake := rejects.firstMistake shallow inner readable front
      refine ⟨before, token, after, split, rfl, ?_, mistake⟩
      simp only [CompileError.atToken, Location.ofToken]
      split <;> simp_all

/-- The operand that is missing here is missed at the parenthesis, on the second line. -/
theorem one_error_at_missing_operand :
    (compile {} "(nil\n-)" .empty).errors = [⟨2, .at ")", "Expect expression."⟩] ∧
      ∃ before token after, tokensOf "(nil\n-)" = before ++ token :: after ∧
        token.line = 2 ∧ FirstMistake .empty before token := by
  have reported : (compile {} "(nil\n-)" .empty).errors = [⟨2, .at ")", "Expect expression."⟩] := by decide +kernel
  refine ⟨reported, ?_⟩
  rcases one_error_at_first_mistake {} "(nil\n-)" .empty with none | ⟨error, one, _, located⟩
  · exact absurd (none.symm.trans reported) (List.cons_ne_nil _ _).symm
  · obtain ⟨rfl, _⟩ := List.cons.inj (one.symm.trans reported)
    obtain ⟨before, token, after, split, line, _, mistake⟩ :=
      located (by decide +kernel) (by decide +kernel) (by decide)
    exact ⟨before, token, after, split, line.symm, mistake⟩

end StackCalc
