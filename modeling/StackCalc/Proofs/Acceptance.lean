import StackCalc.Proofs.TokenStream
import StackCalc.Proofs.Verdict

/-! The compiler accepts exactly its language: the sentences of the grammar that do
not nest too deeply and whose numbers fit into the pool of constants. -/

namespace StackCalc

open StackCalc.Expr StackCalc.Parser

/-- Every number of the tokens can be read, as those of a source can. -/
def Readings (tokens : List Token) : Prop :=
  ∀ token ∈ tokens, token.kind = .number → (Numeral.read? token.lexeme).isSome

theorem readings_tokensOf (source : String) : Readings (tokensOf source) := by
  intro token member number
  exact (sound_of_mem_tokensOf member (by simp [number])).legible number

theorem legible_directivesOf {tokens : List Token} (ended : Ended tokens)
    (readings : Readings tokens) : Directive.Legible (directivesOf tokens) := by
  intro token member
  have directive := Directive.mem_numbers.mp member
  rw [directivesOf_eq] at directive
  rcases List.mem_append.mp directive with inside | last
  · cases justified_readAll ended _ (Array.mem_toList_iff.mp inside) with
    | number member kind => simpa [Token.value?] using readings token member kind
  · cases List.mem_singleton.mp last

theorem legible_tokensOf (source : String) :
    Directive.Legible (directivesOf (tokensOf source)) :=
  legible_directivesOf (ended_tokensOf source) (readings_tokensOf source)

theorem report_mem_directivesOf {tokens : List Token} {error : CompileError}
    (member : .report error ∈ (readAll tokens).directives) :
    .report error ∈ directivesOf tokens := by
  rw [directivesOf_eq]
  exact List.mem_append_left _ (Array.mem_toList_iff.mpr member)

theorem numbers_directivesOf {expr : Expr} {eof : Token} (inside : In .equality expr)
    (fits : expr.nesting ≤ maxNesting) (last : eof.kind = .eof) :
    Directive.numbers (directivesOf (expr.tokens ++ [eof])) =
      (expr.tokens ++ [eof]).filter (·.kind = .number) := by
  rw [directivesOf_tokens inside fits last, Directive.numbers_append, inside.numbers_directives]
  simp [numbers, last, Directive.numbers]

theorem silent_directivesOf {expr : Expr} {eof : Token} (inside : In .equality expr)
    (fits : expr.nesting ≤ maxNesting) (last : eof.kind = .eof) :
    ∀ error, .report error ∉ directivesOf (expr.tokens ++ [eof]) := by
  intro error member
  rw [directivesOf_tokens inside fits last] at member
  rcases List.mem_append.mp member with member | member
  · exact report_not_mem_directives expr error member
  · cases List.mem_singleton.mp member

/-- Silence is acceptance by the grammar. -/
theorem denotes_of_silent {tokens : List Token} (ended : Ended tokens)
    (silent : ∀ error, .report error ∉ directivesOf tokens) :
    (∀ token ∈ tokens, token.kind ≠ .error) ∧
      ∃ expr, Denotes tokens expr ∧ expr.nesting ≤ maxNesting := by
  have clean : ∀ token ∈ tokens, token.kind ≠ .error := by
    apply clean_of_silent ended
    intro error member
    exact silent error (report_mem_directivesOf member)
  refine ⟨clean, (denotes_or_rejects ended).resolve_right ?_⟩
  rintro ⟨before, token, after, objection, rfl, rejects⟩
  exact silent _ (report_mem_directivesOf (rejects.reports (clean token (by simp)) after).mem)

theorem errors_ofTokens_iff {tokens : List Token} (ended : Ended tokens)
    (readings : Readings tokens) (chunk : Chunk) :
    (Assembly.ofTokens tokens chunk).errors = [] ↔
      (∀ token ∈ tokens, token.kind ≠ .error) ∧
      ∃ expr, Denotes tokens expr ∧
        (tokens.filter (·.kind = .number)).length ≤ maxConstants - chunk.constants.size ∧
        expr.nesting ≤ maxNesting := by
  have legible := legible_directivesOf ended readings
  have bounded := chunk.constants_size
  constructor
  · intro accepted
    have silent : ∀ error, .report error ∉ directivesOf tokens := by
      intro error member
      exact Assembly.errors_foldl_of_report member { chunk } accepted
    obtain ⟨clean, expr, denotes, fits⟩ := denotes_of_silent ended silent
    refine ⟨clean, expr, denotes, ?_, fits⟩
    obtain ⟨inside, eof, last, rfl⟩ := denotes
    rw [← numbers_directivesOf inside fits last]
    apply Nat.le_of_not_lt
    intro full
    exact Assembly.errors_foldl_of_overflow legible { chunk } (by simp only; omega) accepted
  · rintro ⟨_, expr, ⟨inside, eof, last, rfl⟩, room, fits⟩
    rw [← numbers_directivesOf inside fits last] at room
    have silent := silent_directivesOf inside fits last
    exact Assembly.errors_foldl_of_silent legible silent { chunk } (by simp only; omega)

/-- A source compiles if and only if no error token occurs in it, it is a sentence of
the grammar, its numbers fit into what is left of the pool, and it nests at most 1024
deep. -/
theorem compiles_iff (config : Config) (source : String) (chunk : Chunk) :
    (compile config source chunk).errors = [] ↔
      (∀ token ∈ tokensOf source, token.kind ≠ .error) ∧
      ∃ expr, Denotes (tokensOf source) expr ∧
        ((tokensOf source).filter (·.kind = .number)).length ≤ 256 - chunk.constants.size ∧
        expr.nesting ≤ 1024 :=
  errors_ofTokens_iff (ended_tokensOf source) (readings_tokensOf source) chunk

end StackCalc
