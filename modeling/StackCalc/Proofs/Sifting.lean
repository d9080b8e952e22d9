import StackCalc.Proofs.Translation

/-! Error tokens can be left out, and nothing but the reports on them is lost: the parser
asks for the same code, and the chunk is the same. -/

namespace StackCalc

def sifted (tokens : List Token) : List Token := tokens.filter (·.kind ≠ .error)

theorem Ended.sifted {tokens : List Token} (ended : Ended tokens) : Ended (sifted tokens) := by
  obtain ⟨body, eof, rfl, kind, inner⟩ := ended
  refine ⟨StackCalc.sifted body, eof, by simp [StackCalc.sifted, kind], kind, ?_⟩
  intro token member
  exact inner token (List.mem_filter.mp member).1

namespace Directive

def isLexical : Directive → Bool
  | .report error => error.location = .lexical
  | .operation _ _ | .number _ => false

theorem isLexical_lexical {token : Token} (error : token.kind = .error) :
    (lexical token).isLexical := by
  simp [lexical, isLexical, CompileError.ofErrorToken, CompileError.atToken, Location.ofToken,
    error]

theorem not_isLexical_atToken {token : Token} (clean : token.kind ≠ .error) (message : String) :
    (report (.atToken token message)).isLexical = false := by
  apply decide_eq_false
  simp only [CompileError.atToken, Location.ofToken]
  split <;> simp_all

end Directive

namespace Parser

def sift (parser : Parser) : Parser :=
  { parser with
    rest := sifted parser.rest
    directives := parser.directives.filter (!·.isLexical) }

private theorem sift_direct (parser : Parser) {directive : Directive}
    (other : directive.isLexical = false) :
    (parser.direct directive).sift = parser.sift.direct directive := by
  simp [direct, sift, other]

private theorem sift_pull (parser : Parser) (tokens : List Token) :
    (parser.pull tokens).sift = parser.sift.pull (sifted tokens) := by
  induction tokens generalizing parser with
  | nil => rfl
  | cons token tokens ih =>
    by_cases error : token.kind = .error
    · have lost : (parser.direct (.lexical token)).sift = parser.sift := by
        simp [direct, sift, Directive.isLexical_lexical error]
      have left : sifted (token :: tokens) = sifted tokens := by simp [sifted, error]
      rw [left, ← lost, ← ih, pull, if_pos error, Directive.lexical]
    · simp [pull, sifted, error, sift]

private theorem sift_advance (parser : Parser) : parser.advance.sift = parser.sift.advance :=
  sift_pull _ _

theorem Ready.sift {parser : Parser} (ready : parser.Ready) : parser.sift.Ready where
  ended := by
    have ended := ready.ended.sifted
    rwa [upcoming, sifted, List.filter_cons_of_pos (by simpa using ready.current)] at ended
  current := ready.current
  previous := ready.previous

theorem sift_translates : Translates sift where
  ready _ := Ready.sift
  current _ _ := rfl
  previous _ _ := rfl
  shorter _ := List.length_filter_le _ _
  advance parser _ := sift_advance parser
  operation parser _ := sift_direct parser rfl
  number parser := sift_direct parser rfl
  atPrevious parser _ ready := sift_direct parser (Directive.not_isLexical_atToken ready.previous _)
  atCurrent parser _ ready := sift_direct parser (Directive.not_isLexical_atToken ready.current _)

theorem directivesOf_sifted {tokens : List Token} (ended : Ended tokens) :
    directivesOf (sifted tokens) = (directivesOf tokens).filter (!·.isLexical) := by
  have start : (ofTokens tokens).advance.advance.sift = (ofTokens (sifted tokens)).advance.advance := by
    rw [sift_advance, sift_advance]
    rfl
  rw [directivesOf, ← sift_translates.readAll ended start, directivesOf]
  simp [sift]

end Parser

namespace Assembly

open Directive

private theorem chunk_perform_congr {first second : Assembly} (same : first.chunk = second.chunk)
    (directive : Directive) :
    (first.perform directive).chunk = (second.perform directive).chunk := by
  have constants (value : Value) (token : Token) :
      (first.constant value token).chunk = (second.constant value token).chunk := by
    simp only [constant, same]
    split <;> simp [load, Assembly.write, same]
  cases directive with
  | operation action line => simp [perform, Assembly.write, same]
  | report error => simp [perform, same]
  | number token =>
    simp only [perform]
    split
    · exact constants _ _
    · simp [same]

/-- Reports leave no trace in the chunk. -/
theorem chunk_foldl_filter {first second : Assembly} (same : first.chunk = second.chunk)
    (directives : List Directive) :
    ((directives.filter (!·.isLexical)).foldl perform first).chunk =
      (directives.foldl perform second).chunk := by
  induction directives generalizing first second with
  | nil => exact same
  | cons directive directives ih =>
    cases lexical : directive.isLexical with
    | false =>
      rw [List.filter_cons_of_pos (by simp [lexical]), List.foldl_cons, List.foldl_cons]
      exact ih (chunk_perform_congr same directive)
    | true =>
      rw [List.filter_cons_of_neg (by simp [lexical]), List.foldl_cons]
      refine ih (same.trans ?_)
      cases directive with
      | report error => exact (chunk_report second error).symm
      | operation action line => cases lexical
      | number token => cases lexical

theorem chunk_ofTokens_sifted {tokens : List Token} (ended : Ended tokens) (chunk : Chunk) :
    (ofTokens (sifted tokens) chunk).chunk = (ofTokens tokens chunk).chunk := by
  rw [ofTokens, Parser.directivesOf_sifted ended, chunk_foldl_filter rfl]
  rfl

end Assembly

end StackCalc
