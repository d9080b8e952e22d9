import StackCalc.Proofs.Sifting

/-! Lines can be renumbered, and nothing but the lines is changed. With each token on a
line of its own, the line of an error tells at which of the tokens it is. -/

namespace StackCalc

private theorem Ended.of_kinds {tokens others : List Token} (ended : Ended tokens)
    (same : others.map Token.kind = tokens.map Token.kind) : Ended others := by
  obtain ⟨body, eof, rfl, kind, inner⟩ := ended
  rw [List.map_append] at same
  obtain ⟨front, last, rfl, fronts, lasts⟩ := List.map_eq_append_iff.mp same
  obtain ⟨other, rfl, found⟩ := List.map_eq_singleton_iff.mp lasts
  refine ⟨front, other, rfl, found.trans kind, ?_⟩
  intro token member atEnd
  have inside : token.kind ∈ body.map Token.kind := by
    rw [← fronts]
    exact List.mem_map_of_mem member
  obtain ⟨former, member, kinds⟩ := List.mem_map.mp inside
  exact inner former member (kinds.trans atEnd)

def Token.onLine (line : Nat → Nat) (token : Token) : Token :=
  { token with line := line token.line }

def CompileError.onLine (line : Nat → Nat) (error : CompileError) : CompileError :=
  { error with line := line error.line }

def Directive.onLine (line : Nat → Nat) : Directive → Directive
  | .operation action place => .operation action (line place)
  | .number token => .number (token.onLine line)
  | .report error => .report (error.onLine line)

namespace Parser

variable (line : Nat → Nat)

def onLine (parser : Parser) : Parser :=
  ⟨parser.previous.onLine line, parser.current.onLine line, parser.rest.map (.onLine line),
    parser.directives.map (.onLine line)⟩

private theorem onLine_direct (parser : Parser) (directive : Directive) :
    (parser.direct directive).onLine line =
      (parser.onLine line).direct (directive.onLine line) := by
  simp [direct, onLine]

private theorem onLine_pull (parser : Parser) (tokens : List Token) :
    (parser.pull tokens).onLine line = (parser.onLine line).pull (tokens.map (.onLine line)) := by
  induction tokens generalizing parser with
  | nil => rfl
  | cons token tokens ih =>
    by_cases error : token.kind = .error
    · have found : (token.onLine line).kind = .error := error
      rw [List.map_cons, pull, pull, if_pos error, if_pos found, ih, onLine_direct]
      rfl
    · have other : (token.onLine line).kind ≠ .error := error
      rw [List.map_cons, pull, pull, if_neg error, if_neg other]
      rfl

private theorem onLine_advance (parser : Parser) :
    parser.advance.onLine line = (parser.onLine line).advance :=
  onLine_pull line _ _

private theorem onLine_translates : Translates (onLine line) where
  ready parser ready :=
    ⟨ready.ended.of_kinds (by simp [onLine, upcoming, Token.onLine, Function.comp_def]),
      ready.current, ready.previous⟩
  current _ _ := rfl
  previous _ _ := rfl
  shorter _ := Nat.le_of_eq (List.length_map _)
  advance parser _ := onLine_advance line parser
  operation parser _ := onLine_direct line parser _
  number parser := onLine_direct line parser _
  atPrevious parser _ _ := onLine_direct line parser _
  atCurrent parser _ _ := onLine_direct line parser _

/-- Once a token comes up, nothing is left of what was in view before. -/
theorem pull_of_mem {first second : Parser} (same : first.directives = second.directives)
    {tokens : List Token} (more : ∃ token ∈ tokens, token.kind ≠ .error) :
    first.pull tokens = { second.pull tokens with previous := first.previous } := by
  induction tokens generalizing first second with
  | nil =>
    obtain ⟨token, member, _⟩ := more
    cases member
  | cons token tokens ih =>
    by_cases error : token.kind = .error
    · rw [pull, pull, if_pos error, if_pos error]
      apply ih (by simp [direct, same])
      simpa [error] using more
    · rw [pull, pull, if_neg error, if_neg error]
      simp [same]

private theorem advance_advance_congr {first second : Parser} (rest : first.rest = second.rest)
    (same : first.directives = second.directives)
    (more : ∃ token ∈ second.rest, token.kind ≠ .error) :
    first.advance.advance = second.advance.advance := by
  have upcoming : first.advance = { second.advance with previous := first.current } := by
    rw [advance, rest]
    exact @pull_of_mem { first with previous := first.current, rest := second.rest }
      { second with previous := second.current } same _ more
  rw [upcoming]
  rfl

theorem directivesOf_onLine {tokens : List Token} (ended : Ended tokens) :
    directivesOf (tokens.map (.onLine line)) = (directivesOf tokens).map (.onLine line) := by
  have more : ∃ token ∈ tokens.map (Token.onLine line), token.kind ≠ .error := by
    obtain ⟨body, eof, rfl, kind, _⟩ := ended
    exact ⟨eof.onLine line, by simp, by simp [Token.onLine, kind]⟩
  have start : (ofTokens tokens).advance.advance.onLine line =
      (ofTokens (tokens.map (.onLine line))).advance.advance := by
    rw [onLine_advance, onLine_advance]
    exact advance_advance_congr rfl (by simp [onLine, ofTokens]) more
  rw [directivesOf, ← (onLine_translates line).readAll ended start, directivesOf]
  simp [onLine]

end Parser

namespace Assembly

/-- The same errors on other lines, and the same room in the pool. -/
structure OnLine (line : Nat → Nat) (first second : Assembly) : Prop where
  size : second.chunk.constants.size = first.chunk.constants.size
  errors : second.errors = first.errors.map (.onLine line)

namespace OnLine

variable {line : Nat → Nat} {first second : Assembly}

private theorem report (same : OnLine line first second) (error : CompileError) :
    OnLine line (first.report error) (second.report (error.onLine line)) := by
  refine ⟨by simp [same.size], ?_⟩
  cases empty : first.errors with
  | nil =>
    have none : second.errors = [] := by simp [same.errors, empty]
    rw [errors_report_of_nil empty, errors_report_of_nil none]
    rfl
  | cons error errors =>
    have some : first.errors ≠ [] := by simp [empty]
    have others : second.errors ≠ [] := by simp [same.errors, empty]
    rw [errors_report_of_ne_nil some, errors_report_of_ne_nil others, same.errors]

private theorem constant (same : OnLine line first second) (value : Value) (token : Token) :
    OnLine line (first.constant value token) (second.constant value (token.onLine line)) := by
  by_cases free : first.chunk.constants.size < maxConstants
  · obtain ⟨chunk, result, grows⟩ := constant_of_free first value token free
    obtain ⟨other, result', grows'⟩ :=
      constant_of_free second value (token.onLine line) (by rwa [same.size])
    refine ⟨?_, by rw [result, result', errors_load, errors_load, same.errors]⟩
    have size : other.constants.size = chunk.constants.size := by
      rw [grows.size, grows'.size, same.size]
    rw [result, result', (load_grows _ _ _).size, (load_grows _ _ _).size]
    exact congrArg (· + 0) size
  · have reported := same.report (.atToken token Objection.tooManyConstants.message)
    rw [constant_of_full first value token free,
      constant_of_full second value (token.onLine line) (by rwa [same.size])]
    refine ⟨?_, reported.errors⟩
    rw [(load_grows _ _ _).size, (load_grows _ _ _).size]
    exact congrArg (· + 0) reported.size

private theorem perform (same : OnLine line first second) (directive : Directive) :
    OnLine line (first.perform directive) (second.perform (directive.onLine line)) := by
  cases directive with
  | operation action place => exact ⟨same.size, same.errors⟩
  | report error => exact same.report error
  | number token =>
    simp only [Assembly.perform, Directive.onLine, Token.onLine]
    split
    · exact same.constant _ token
    · exact same.report (.atToken token Objection.invalidNumber.message)

private theorem foldl (same : OnLine line first second) (directives : List Directive) :
    OnLine line (directives.foldl Assembly.perform first)
      ((directives.map (.onLine line)).foldl Assembly.perform second) := by
  induction directives generalizing first second with
  | nil => exact same
  | cons directive directives ih => exact ih (same.perform directive)

end OnLine

private theorem errors_ofTokens_onLine {tokens : List Token} (ended : Ended tokens)
    (line : Nat → Nat)
    (chunk : Chunk) :
    (ofTokens (tokens.map (.onLine line)) chunk).errors =
      (ofTokens tokens chunk).errors.map (.onLine line) := by
  have start : OnLine line { chunk } { chunk } := ⟨rfl, rfl⟩
  rw [ofTokens, Parser.directivesOf_onLine line ended]
  exact (start.foldl _).errors

end Assembly

/-- Each token on a line of its own, which is its place. -/
def numbered (tokens : List Token) : List Token :=
  tokens.mapIdx fun place token => { token with line := place }

section Numbered

variable {tokens : List Token}

theorem getElem?_numbered (tokens : List Token) (place : Nat) :
    (numbered tokens)[place]? = tokens[place]?.map fun token => { token with line := place } :=
  List.getElem?_mapIdx

theorem of_getElem?_numbered {place : Nat} {token : Token}
    (found : (numbered tokens)[place]? = some token) :
    ∃ former, tokens[place]? = some former ∧ token = { former with line := place } := by
  rw [getElem?_numbered] at found
  obtain ⟨former, known, rfl⟩ := Option.map_eq_some_iff.mp found
  exact ⟨former, known, rfl⟩

theorem Ended.numbered (ended : Ended tokens) : Ended (numbered tokens) := by
  apply ended.of_kinds
  apply List.ext_getElem?
  intro place
  rw [List.getElem?_map, List.getElem?_map, getElem?_numbered, Option.map_map]
  rfl

/-- The line of the token that has this place. -/
def lineOf (tokens : List Token) (place : Nat) : Nat := (tokens[place]?.map Token.line).getD 0

theorem lineOf_eq {place : Nat} {token : Token} (found : tokens[place]? = some token) :
    lineOf tokens place = token.line := by
  simp [lineOf, found]

theorem map_lineOf_numbered (tokens : List Token) :
    (numbered tokens).map (.onLine (lineOf tokens)) = tokens := by
  apply List.ext_getElem?
  intro place
  rw [List.getElem?_map, getElem?_numbered]
  cases found : tokens[place]? with
  | none => rfl
  | some token => simp [Token.onLine, lineOf_eq found]

/-- Numbered and back again: the errors are the same, with lines for places. -/
theorem errors_numbered (ended : Ended tokens) (chunk : Chunk) :
    (Assembly.ofTokens tokens chunk).errors =
      (Assembly.ofTokens (numbered tokens) chunk).errors.map (.onLine (lineOf tokens)) := by
  rw [← Assembly.errors_ofTokens_onLine ended.numbered, map_lineOf_numbered]

theorem errors_sifted_numbered (ended : Ended tokens) (chunk : Chunk) :
    (Assembly.ofTokens (sifted tokens) chunk).errors =
      (Assembly.ofTokens (sifted (numbered tokens)) chunk).errors.map
        (.onLine (lineOf tokens)) := by
  have same : sifted tokens = (sifted (numbered tokens)).map (.onLine (lineOf tokens)) := by
    conv => lhs; rw [← map_lineOf_numbered tokens]
    rw [sifted, sifted, List.filter_map]
    rfl
  rw [same, Assembly.errors_ofTokens_onLine ended.numbered.sifted]

end Numbered

end StackCalc
