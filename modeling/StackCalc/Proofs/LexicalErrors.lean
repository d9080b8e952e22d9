import StackCalc.Proofs.Acceptance
import StackCalc.Proofs.Lookahead
import StackCalc.Proofs.Mending

/-! Lexical errors leave no trace in the code, and it is settled which error is reported.
The mended source gives the same chunk; and unless it is rejected early enough, the
first error token is what the source is rejected for. -/

namespace StackCalc

open StackCalc.Parser

private theorem Directive.Legible.of_subset {directives others : List Directive}
    (legible : Legible directives) (inside : ∀ directive ∈ others, directive ∈ directives) :
    Legible others := by
  intro token member
  exact legible token (mem_numbers.mpr (inside _ (mem_numbers.mp member)))

private theorem CompileError.Cites.not_isLexical {tokens : List Token} {error : CompileError}
    (cites : error.Cites tokens) : (Directive.report error).isLexical = false := by
  obtain ⟨token, _, clean, same⟩ := cites
  rw [same]
  exact Directive.not_isLexical_atToken clean _

private theorem Directive.Early.not_isLexical {tokens : List Token} {place : Nat}
    {directive : Directive}
    (early : directive.Early tokens place) : directive.isLexical = false := by
  cases directive with
  | operation action line => rfl
  | number token => rfl
  | report error => exact (early error (.report error)).1.not_isLexical

private theorem Directive.filter_of_early {tokens : List Token} {place : Nat}
    {directives : List Directive}
    (early : ∀ directive ∈ directives, directive.Early tokens place) :
    directives.filter (!·.isLexical) = directives :=
  List.filter_eq_self.mpr fun directive member => by simp [(early directive member).not_isLexical]

/-- How the errors with the error tokens compare to those without: there is the same one,
if it is seen before the first error token; else that is reported, whatever comes later. -/
inductive Settled (tokens : List Token) (place : Nat) (flaw : Token) :
    (errors others : List CompileError) → Prop where
  | earlier {error} (cites : error.Cites tokens) (seen : error.seenFrom < place) :
      Settled tokens place flaw [error] [error]
  | only : Settled tokens place flaw [.ofErrorToken flaw] []
  | later {error} (cites : error.Cites tokens) (unseen : place ≤ error.seenFrom) :
      Settled tokens place flaw [.ofErrorToken flaw] [error]

section Settling

variable {tokens : List Token} {place : Nat} {flaw : Token} {directives : List Directive}

private theorem settled_of_early (early : ∀ directive ∈ directives, directive.Early tokens place)
    (legible : Directive.Legible directives) {start : Assembly} (clean : start.errors = [])
    (failed : (directives.foldl Assembly.perform start).errors ≠ []) :
    Settled tokens place flaw (directives.foldl Assembly.perform start).errors
      ((directives.filter (!·.isLexical)).foldl Assembly.perform start).errors := by
  rw [Directive.filter_of_early early]
  rcases Assembly.errors_foldl_raised legible start clean with
    none | ⟨error, one, directive, member, raises⟩
  · exact absurd none failed
  · obtain ⟨cites, seen⟩ := early directive member error raises
    rw [one]
    exact .earlier cites seen

private theorem settled_of_late (late : ∀ directive ∈ directives, directive.Late tokens place)
    (legible : Directive.Legible directives) {start : Assembly} (clean : start.errors = []) :
    Settled tokens place flaw
      ((.lexical flaw :: directives).foldl Assembly.perform start).errors
      ((directives.filter (!·.isLexical)).foldl Assembly.perform start).errors := by
  have reported : (start.perform (.lexical flaw)).errors = [.ofErrorToken flaw] :=
    Assembly.errors_report_of_nil clean _
  rw [List.foldl_cons, Assembly.errors_foldl_of_ne_nil (by simp [reported]), reported]
  have inside : Directive.Legible (directives.filter (!·.isLexical)) :=
    legible.of_subset fun _ member => (List.mem_filter.mp member).1
  rcases Assembly.errors_foldl_raised inside start clean with
    none | ⟨error, one, directive, member, raises⟩
  · rw [none]
    exact .only
  · obtain ⟨inside, other⟩ := List.mem_filter.mp member
    obtain ⟨cites, unseen⟩ := (late directive inside).resolve_left (by simpa using other) error raises
    rw [one]
    exact .later cites unseen

private theorem settled_of_parted (parted : Directive.Parted tokens place flaw directives)
    (kind : flaw.kind = .error) (legible : Directive.Legible directives) {start : Assembly}
    (clean : start.errors = []) :
    Settled tokens place flaw (directives.foldl Assembly.perform start).errors
      ((directives.filter (!·.isLexical)).foldl Assembly.perform start).errors := by
  obtain ⟨first, second, rfl, early, late⟩ := parted
  have front := legible.of_subset fun _ => List.mem_append_left _
  have back := legible.of_subset fun _ member => List.mem_append_right first (.tail _ member)
  rw [List.filter_append, List.filter_cons_of_neg (by simp [Directive.isLexical_lexical kind]),
    Directive.filter_of_early early, List.foldl_append, List.foldl_append]
  by_cases failed : (first.foldl Assembly.perform start).errors = []
  · exact settled_of_late late back failed
  · have settled : Settled tokens place flaw _ _ := settled_of_early early front clean failed
    rw [Directive.filter_of_early early] at settled
    rwa [Assembly.errors_foldl_of_ne_nil failed, Assembly.errors_foldl_of_ne_nil failed]

private theorem Flawed.settled (flawed : Flawed tokens place flaw) (readings : Readings tokens)
    (chunk : Chunk) : Settled tokens place flaw (Assembly.ofTokens tokens chunk).errors
      (Assembly.ofTokens (sifted tokens) chunk).errors := by
  have legible := legible_directivesOf flawed.ended readings
  have failed : (Assembly.ofTokens tokens chunk).errors ≠ [] := by
    intro accepted
    have clean := ((errors_ofTokens_iff flawed.ended readings chunk).mp accepted).1
    exact clean flaw (List.mem_of_getElem? flawed.found) flawed.kind
  rw [Assembly.ofTokens, Assembly.ofTokens, directivesOf_sifted flawed.ended]
  rcases directivesOf_parted flawed with early | parted
  · exact settled_of_early early legible rfl failed
  · exact settled_of_parted parted flawed.kind legible rfl

end Settling

section Numbered

variable {tokens : List Token}

private theorem Readings.numbered (readings : Readings tokens) : Readings (numbered tokens) := by
  intro token member
  obtain ⟨place, found⟩ := List.mem_iff_getElem?.mp member
  obtain ⟨former, known, rfl⟩ := of_getElem?_numbered found
  exact readings former (List.mem_of_getElem? known)

private theorem flawed_numbered {front behind : List Token} {flaw : Token} (ended : Ended tokens)
    (split : tokens = front ++ flaw :: behind) (clean : ∀ token ∈ front, token.kind ≠ .error)
    (kind : flaw.kind = .error) :
    Flawed (numbered tokens) front.length { flaw with line := front.length } where
  ended := ended.numbered
  lines found := by
    obtain ⟨former, _, rfl⟩ := of_getElem?_numbered found
    rfl
  found := by simp [getElem?_numbered, split]
  kind := kind
  clean before found := by
    obtain ⟨former, known, rfl⟩ := of_getElem?_numbered found
    rw [split, List.getElem?_append_left before] at known
    exact clean former (List.mem_of_getElem? known)

private theorem CompileError.Cites.onLine {error : CompileError}
    (cites : error.Cites (numbered tokens)) :
    ∃ token, tokens[error.line]? = some token ∧ token.kind ≠ .error ∧
      error = .atToken { token with line := error.line } error.message ∧
      error.onLine (lineOf tokens) = .atToken token error.message := by
  obtain ⟨placed, found, clean, same⟩ := cites
  obtain ⟨token, known, rfl⟩ := of_getElem?_numbered found
  refine ⟨token, known, clean, same, ?_⟩
  have line : (error.onLine (lineOf tokens)).line = token.line := lineOf_eq known
  have location : error.location = .ofToken token := congrArg CompileError.location same
  simp only [CompileError.onLine, CompileError.atToken, location, lineOf_eq known]

end Numbered

private theorem onLine_ofErrorToken {flaw : Token} {place : Nat} {line : Nat → Nat}
    (kind : flaw.kind = .error) :
    (CompileError.ofErrorToken { flaw with line := place }).onLine line =
      ⟨line place, .lexical, flaw.lexeme⟩ := by
  simp [CompileError.ofErrorToken, CompileError.atToken, CompileError.onLine, Location.ofToken, kind]

private theorem CompileError.seenFrom_lt_iff (error : CompileError) (place : Nat) :
    error.seenFrom < place ↔ error.line < place ∧
      (error.message ∈ ["Expect expression.", "Too many constants in one chunk."] →
        error.line + 1 < place) := by
  unfold seenFrom
  split
  next late => exact ⟨fun seen => ⟨by omega, fun _ => seen⟩, fun seen => seen.2 late⟩
  next other => exact ⟨fun seen => ⟨seen, fun late => absurd late other⟩, And.left⟩

/-- The mended source has this error at the token that has this place in the source. To
tell equal tokens apart, each is put on a line of its own, which is its place. -/
def RejectedAt (config : Config) (source : String) (chunk : Chunk) (place : Nat)
    (message : String) : Prop :=
  ∃ token, (tokensOf source)[place]? = some token ∧ token.kind ≠ .error ∧
    (compile config (mended source) chunk).errors = [.atToken token message] ∧
    (Assembly.ofTokens (sifted (numbered (tokensOf source))) chunk).errors =
      [.atToken { token with line := place } message]

/-- The mended source has an error before the token of this place; and if it is one that
is only raised with the next token in view, there is such a token in between. -/
def RejectedBefore (config : Config) (source : String) (chunk : Chunk) (place : Nat) : Prop :=
  ∃ earlier message, RejectedAt config source chunk earlier message ∧ earlier < place ∧
    (message ∈ ["Expect expression.", "Too many constants in one chunk."] → earlier + 1 < place)

section Mended

variable {source : String} {chunk : Chunk} {error : CompileError}

private theorem errors_compile (config : Config) (source : String) (chunk : Chunk) :
    (compile config source chunk).errors =
      (Assembly.ofTokens (numbered (tokensOf source)) chunk).errors.map
        (.onLine (lineOf (tokensOf source))) := by
  rw [← errors_numbered (ended_tokensOf source)]
  rfl

private theorem errors_compile_mended (config : Config) (source : String) (chunk : Chunk) :
    (compile config (mended source) chunk).errors =
      (Assembly.ofTokens (sifted (numbered (tokensOf source))) chunk).errors.map
        (.onLine (lineOf (tokensOf source))) := by
  rw [← errors_sifted_numbered (ended_tokensOf source), ← tokensOf_mended]
  rfl

private theorem chunk_compile_mended (config : Config) (source : String) (chunk : Chunk) :
    (compile config (mended source) chunk).chunk = (compile config source chunk).chunk := by
  have same := Assembly.chunk_ofTokens_sifted (ended_tokensOf source) chunk
  rwa [← tokensOf_mended] at same

private theorem rejectedAt_of_cites (config : Config)
    (one : (Assembly.ofTokens (sifted (numbered (tokensOf source))) chunk).errors = [error])
    (cites : error.Cites (numbered (tokensOf source))) :
    RejectedAt config source chunk error.line error.message := by
  obtain ⟨token, known, clean, placed, same⟩ := cites.onLine
  refine ⟨token, known, clean, ?_, one.trans (congrArg (List.cons · []) placed)⟩
  rw [errors_compile_mended, one, List.map_singleton, same]

private theorem rejectedBefore_iff (config : Config) (place : Nat)
    (one : (Assembly.ofTokens (sifted (numbered (tokensOf source))) chunk).errors = [error])
    (cites : error.Cites (numbered (tokensOf source))) :
    RejectedBefore config source chunk place ↔ error.seenFrom < place := by
  rw [error.seenFrom_lt_iff]
  constructor
  · rintro ⟨earlier, message, ⟨token, _, _, _, placed⟩, before, between⟩
    cases one.symm.trans placed
    exact ⟨before, between⟩
  · rintro ⟨before, between⟩
    exact ⟨error.line, error.message, rejectedAt_of_cites config one cites, before, between⟩

private theorem not_rejectedBefore_of_nil (config : Config) (place : Nat)
    (none : (Assembly.ofTokens (sifted (numbered (tokensOf source))) chunk).errors = []) :
    ¬ RejectedBefore config source chunk place := by
  rintro ⟨earlier, message, ⟨token, _, _, _, placed⟩, _⟩
  cases none.symm.trans placed

end Mended

private theorem exists_first_error {tokens : List Token}
    (wrong : ∃ token ∈ tokens, token.kind = .error) :
    ∃ front flaw behind, tokens = front ++ flaw :: behind ∧
      (∀ token ∈ front, token.kind ≠ .error) ∧ flaw.kind = .error := by
  obtain ⟨flaw, found⟩ := Option.isSome_iff_exists.mp
    (List.find?_isSome.mpr (by simpa using wrong) :
      (tokens.find? fun token => decide (token.kind = .error)).isSome)
  obtain ⟨kind, front, behind, split, clean⟩ := List.find?_eq_some_iff_append.mp found
  exact ⟨front, flaw, behind, split, by simpa using clean, by simpa using kind⟩

/-- A source with error tokens gives the chunk that the mended source gives. It is
rejected for the first error token, unless the mended source is rejected before it: then
it is rejected as that is. -/
theorem lexical_errors_transparent (config : Config) (source : String) (chunk : Chunk)
    (wrong : ∃ token ∈ tokensOf source, token.kind = .error) :
    (compile config source chunk).chunk = (compile config (mended source) chunk).chunk ∧
    ((compile config (mended source) chunk).errors = [] ∨
      ∃ place message, RejectedAt config source chunk place message) ∧
    ∃ front flaw behind, tokensOf source = front ++ flaw :: behind ∧
      (∀ token ∈ front, token.kind ≠ .error) ∧ flaw.kind = .error ∧
      (RejectedBefore config source chunk front.length →
        (compile config source chunk).errors = (compile config (mended source) chunk).errors) ∧
      (¬ RejectedBefore config source chunk front.length →
        (compile config source chunk).errors = [⟨flaw.line, .lexical, flaw.lexeme⟩]) := by
  have ended := ended_tokensOf source
  obtain ⟨front, flaw, behind, split, clean, kind⟩ := exists_first_error wrong
  have settled := (flawed_numbered ended split clean kind).settled
    (readings_tokensOf source).numbered chunk
  have chunks := (chunk_compile_mended config source chunk).symm
  have errors := errors_compile config source chunk
  have others := errors_compile_mended config source chunk
  have line : lineOf (tokensOf source) front.length = flaw.line := lineOf_eq (by simp [split])
  generalize (Assembly.ofTokens (numbered (tokensOf source)) chunk).errors = placed at settled errors
  generalize rest : (Assembly.ofTokens (sifted (numbered (tokensOf source))) chunk).errors = sparse
    at settled others
  cases settled with
  | earlier cites seen =>
    have before := (rejectedBefore_iff config front.length rest cites).mpr seen
    exact ⟨chunks, .inr ⟨_, _, rejectedAt_of_cites config rest cites⟩, front, flaw, behind, split,
      clean, kind, fun _ => errors.trans others.symm, fun after => absurd before after⟩
  | only =>
    have after := not_rejectedBefore_of_nil config front.length rest
    rw [List.map_singleton, onLine_ofErrorToken kind, line] at errors
    exact ⟨chunks, .inl others, front, flaw, behind, split, clean, kind,
      fun before => absurd before after, fun _ => errors⟩
  | later cites unseen =>
    have after : ¬ RejectedBefore config source chunk front.length := by
      rw [rejectedBefore_iff config front.length rest cites]
      exact Nat.not_lt.mpr unseen
    rw [List.map_singleton, onLine_ofErrorToken kind, line] at errors
    exact ⟨chunks, .inr ⟨_, _, rejectedAt_of_cites config rest cites⟩, front, flaw, behind, split,
      clean, kind, fun before => absurd before after, fun _ => errors⟩

/-- The parenthesis is unfit, and `nil` was in view: the character behind it is not
reported. Directly behind the parenthesis it would have been. -/
theorem lexical_errors_transparent_behind_operand :
    (∃ token ∈ tokensOf ") nil @", token.kind = .error) ∧
      (compile {} ") nil @" .empty).chunk = (compile {} (mended ") nil @") .empty).chunk ∧
      RejectedBefore {} ") nil @" .empty 2 ∧
      (compile {} ") nil @" .empty).errors = (compile {} (mended ") nil @") .empty).errors := by
  have tokens : tokensOf ") nil @" = [⟨.rightParen, ")", 1⟩, ⟨.kwNil, "nil", 1⟩,
      ⟨.error, "Unexpected character.", 1⟩, ⟨.eof, "", 1⟩] := by decide +kernel
  have wrong : ∃ token ∈ tokensOf ") nil @", token.kind = .error := by simp [tokens]
  have before : RejectedBefore {} ") nil @" .empty 2 :=
    ⟨0, "Expect expression.", ⟨⟨.rightParen, ")", 1⟩, by simp [tokens], by simp,
      by decide +kernel, by decide +kernel⟩, by simp, fun _ => by simp⟩
  obtain ⟨chunks, _, front, flaw, behind, split, clean, kind, rejected, _⟩ :=
    lexical_errors_transparent {} ") nil @" .empty wrong
  have length : front.length = 2 := by
    rw [tokens] at split
    rcases front with _ | ⟨first, _ | ⟨second, _ | ⟨third, front⟩⟩⟩
    · cases split
      cases kind
    · cases split
      cases kind
    · rfl
    · simp only [List.cons_append, List.cons.injEq] at split
      have wrong : third.kind = .error := by rw [← split.2.2.1]
      exact absurd wrong (clean third (by simp))
  rw [length] at rejected
  exact ⟨wrong, chunks, before, rejected before⟩

end StackCalc
