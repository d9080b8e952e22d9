import StackCalc.Proofs.Consumption
import StackCalc.Proofs.Growth

/-! How much a source can come to. Every token that is consumed for a parselet adds two bytes
at most, and only a number adds a constant, so that the output is linear in the tokens. -/

namespace StackCalc

open StackCalc.Parser

namespace Directive

/-- The lines do not depend on the places of the constants. -/
theorem lines_cells (number other : Nat) (directives : List Directive) :
    (cells number directives).map Prod.snd = (cells other directives).map Prod.snd := by
  induction directives generalizing number other with
  | nil => rfl
  | cons directive directives ih =>
    cases directive with
    | operation action line => exact congrArg (line :: ·) (ih number other)
    | number token =>
      exact congrArg (token.line :: token.line :: ·) (ih (number + 1) (other + 1))
    | report error => exact ih number other

private theorem length_cells_congr (number other : Nat) (directives : List Directive) :
    (cells number directives).length = (cells other directives).length := by
  simpa using congrArg List.length (lines_cells number other directives)

private theorem numbers_lexical (tokens : List Token) : numbers (tokens.map lexical) = [] := by
  induction tokens with
  | nil => rfl
  | cons token tokens ih => exact ih

theorem cells_lexical (number : Nat) (tokens : List Token) :
    cells number (tokens.map lexical) = [] := by
  induction tokens with
  | nil => rfl
  | cons token tokens ih => exact ih

end Directive

namespace TokenKind

private theorem length_unaryOperations (kind : TokenKind) : kind.unaryOperations.length ≤ 2 := by
  cases kind <;> decide

private theorem length_binaryOperations (kind : TokenKind) : kind.binaryOperations.length ≤ 2 := by
  cases kind <;> decide

private theorem length_literalOperations (kind : TokenKind) :
    kind.literalOperations.length ≤ 2 := by
  cases kind <;> decide

end TokenKind

namespace Parser

/-- The number of bytes that the directives so far come to. -/
def bytes (parser : Parser) : Nat := (Directive.cells 0 parser.directives.toList).length

/-- From one parser to the other, these numbers are loaded, and no more bytes than that are
asked for. -/
structure Adds (before : Parser) (loaded : List Token) (size : Nat) (after : Parser) : Prop where
  numbers : Directive.numbers after.directives.toList =
    Directive.numbers before.directives.toList ++ loaded
  bytes : after.bytes ≤ before.bytes + size

namespace Adds

private theorem refl (parser : Parser) : Adds parser [] 0 parser := ⟨by simp, Nat.le_refl _⟩

private theorem trans {first second third : Parser} {loaded others : List Token} {size more : Nat}
    (start : Adds first loaded size second) (rest : Adds second others more third) :
    Adds first (loaded ++ others) (size + more) third := by
  refine ⟨by rw [rest.numbers, start.numbers, List.append_assoc], ?_⟩
  have := start.bytes
  have := rest.bytes
  omega

private theorem mono {before after : Parser} {loaded others : List Token} {size more : Nat}
    (adds : Adds before loaded size after) (same : loaded = others) (enough : size ≤ more) :
    Adds before others more after :=
  ⟨same ▸ adds.numbers, Nat.le_trans adds.bytes (Nat.add_le_add_left enough _)⟩

/-- What is added is told from the directives that are added. -/
theorem of_directives {before after : Parser} (directives : List Directive)
    (added : after.directives.toList = before.directives.toList ++ directives) :
    Adds before (Directive.numbers directives) (Directive.cells 0 directives).length after := by
  refine ⟨by rw [added, Directive.numbers_append], Nat.le_of_eq ?_⟩
  rw [Parser.bytes, added, Directive.cells_append, List.length_append,
    Directive.length_cells_congr (0 + _) 0, ← Parser.bytes]

variable (parser : Parser)

private theorem report (error : CompileError) : Adds parser [] 0 (parser.direct (.report error)) :=
  of_directives [.report error] Array.toList_push

private theorem atPrevious (objection : Objection) :
    Adds parser [] 0 (parser.reportAtPrevious objection) :=
  report parser _

private theorem atCurrent (objection : Objection) :
    Adds parser [] 0 (parser.reportAtCurrent objection) :=
  report parser _

private theorem number (token : Token) : Adds parser [token] 2 (parser.direct (.number token)) :=
  of_directives [.number token] Array.toList_push

private theorem emit {operations : List Operation} {size : Nat} (few : operations.length ≤ size) :
    Adds parser [] size (parser.emit operations) := by
  induction operations generalizing parser size with
  | nil => exact (refl parser).mono rfl (Nat.zero_le _)
  | cons operation operations ih =>
    have first : Adds parser [] 1
        (parser.direct (.operation operation parser.previous.line)) :=
      of_directives [.operation operation parser.previous.line] Array.toList_push
    rw [List.length_cons] at few
    exact (first.trans (ih _ (Nat.le_refl _))).mono rfl (by omega)

private theorem advance : Adds parser [] 0 parser.advance := by
  have adds := of_directives ((parser.rest.takeWhile (·.kind = .error)).map Directive.lexical)
    (show parser.advance.directives.toList = parser.directives.toList ++ _ by
      simp [directives_advance])
  rwa [Directive.numbers_lexical, Directive.cells_lexical] at adds

private theorem expect (kind : TokenKind) (objection : Objection) :
    Adds parser [] 0 (parser.expect kind objection) := by
  unfold Parser.expect
  split
  · exact advance parser
  · exact atCurrent parser objection

end Adds

end Parser

namespace Task

/-- The number that is loaded by the parselet itself. -/
def loads (parser : Parser) : Task → List Token
  | .act .number => [parser.previous]
  | _ => []

/-- The bytes that the parselet itself may ask for. -/
def bytes : Task → Nat
  | .act _ => 2
  | _ => 0

private theorem loads_of_starts {parser : Parser} {parselet : Parselet}
    (starts : parser.advance.previous.kind.rule.atStart = some parselet) :
    (Task.act parselet).loads parser.advance = [parser.current].filter (·.kind = .number) := by
  rw [previous_advance] at starts
  by_cases number : parser.current.kind = .number
  · rw [TokenKind.atStart_number_iff.mpr number] at starts
    cases starts
    simp [loads, number]
  · have other : parselet ≠ .number := by
      rintro rfl
      exact number (TokenKind.atStart_number_iff.mp starts)
    cases parselet with
    | number => exact absurd rfl other
    | _ => simp [loads, number]

end Task

namespace Counted

/-- Each use accounts for its own number and for two bytes, and the parselet that is under
way for those of the token before. -/
theorem Consumes.adds {task : Task} {start last : Counted} {height : Nat} {uses : List Use}
    (consumes : Consumes task start height uses last) (fits : task.Fits start.parser) :
    Adds start.parser (task.loads start.parser ++ (uses.map Use.token).filter (·.kind = .number))
      (task.bytes + 2 * uses.countP (·.Acts)) last.parser := by
  induction consumes with
  | @refused level start full => exact .atCurrent start.parser .nestedTooDeeply
  | @unfit level start room unfit =>
    have other : start.parser.current.kind ≠ .number := by
      intro number
      rw [enter, previous_advance, number] at unfit
      cases unfit
    have adds := (Adds.advance start.parser).trans (.atPrevious _ .expectExpression)
    exact adds.mono (by simp [Task.loads, use, other]) (Nat.zero_le _)
  | @expression level parselet height above uses more start middle last room starts applied climbed
      ihApplied ihClimbed =>
    have adds := ((Adds.advance start.parser).trans (ihApplied (Task.fits_of_starts starts))).trans
      (ihClimbed fits)
    have own : (Task.act parselet).loads start.enter.parser = [start.parser.current].filter _ :=
      Task.loads_of_starts starts
    have acts : (start.use (.starting parselet)).Acts := by simp [use, Use.Acts]
    refine adds.mono ?_ ?_
    · have split : ((start.use (.starting parselet) :: (uses ++ more)).map Use.token).filter
          (·.kind = .number) = [start.parser.current].filter (·.kind = .number) ++
            ((uses.map Use.token).filter (·.kind = .number) ++
              (more.map Use.token).filter (·.kind = .number)) := by
        rw [← List.filter_append, ← List.filter_append, ← List.map_append]
        rfl
      rw [own, split]
      simp [Task.loads]
    · simp only [Task.bytes, List.countP_cons, List.countP_append, acts, decide_true, if_true]
      omega
  | @group height uses start last inner closes ih =>
    have adds := (ih (Task.fits_assignment _)).trans
      (Adds.advance last.parser)
    refine adds.mono ?_ ?_
    · simp [Task.loads, use, closes]
    · simp only [Task.bytes, List.countP_append]
      omega
  | @unclosed height uses start last inner other ih =>
    have adds := (ih (Task.fits_assignment _)).trans
      (Adds.atCurrent last.parser .expectRightParen)
    refine adds.mono (by simp [Task.loads]) ?_
    simp only [Task.bytes]
    omega
  | @unary height uses start last operand ih =>
    have adds := (ih (show Precedence.assignment ≤ .unary by decide)).trans
      (.emit _ (start.parser.previous.kind.length_unaryOperations))
    refine adds.mono (by simp [Task.loads]) ?_
    simp only [Task.bytes]
    omega
  | @binary height uses start last operand ih =>
    have adds := (ih (Precedence.assignment_le_next _)).trans
      (.emit _ (start.parser.previous.kind.length_binaryOperations))
    refine adds.mono (by simp [Task.loads]) ?_
    simp only [Task.bytes]
    omega
  | @number start => exact .number start.parser start.parser.previous
  | @literal start => exact .emit start.parser (TokenKind.length_literalOperations _)
  | stop => exact .refl _
  | @operator level parselet height above uses more start middle last binds found applied others
      ihApplied ihOthers =>
    obtain ⟨layer, joins⟩ := TokenKind.ofOperator?_of_le fits binds
    obtain rfl := TokenKind.afterOperand_eq found
    have adds := ((Adds.advance start.parser).trans (ihApplied (Task.fits_binary _))).trans
      (ihOthers fits)
    have acts : (start.use (.joining (some .binary))).Acts := by simp [use, Use.Acts]
    refine adds.mono ?_ ?_
    · simp [Task.loads, use, TokenKind.ne_number_of_ofOperator? joins]
    · simp only [Task.bytes, List.countP_cons, List.countP_append, acts, decide_true, if_true]
      omega
  | @skip level height uses start last binds idle others ih =>
    obtain ⟨layer, joins⟩ := TokenKind.ofOperator?_of_le fits binds
    have adds := (Adds.advance start.parser).trans (ih fits)
    refine adds.mono ?_ ?_
    · simp [Task.loads, use, TokenKind.ne_number_of_ofOperator? joins]
    · simp only [Task.bytes, List.countP_cons]
      omega

/-- The parser before the first expression, with the first token in view. -/
def outset (tokens : List Token) : Counted := ⟨(ofTokens tokens).advance, 0⟩

variable {tokens : List Token} {last : Counted} {height : Nat} {uses : List Use}

private theorem upcoming_outset (ended : Ended tokens) :
    (outset tokens).parser.upcoming <:+ tokens := by
  rcases pull_cases { ofTokens tokens with previous := (ofTokens tokens).current } tokens with
    ⟨skipped, token, rest, split, errors, clean, result⟩ | ⟨errors, _⟩
  · have advanced : (outset tokens).parser = _ := result
    rw [advanced, split]
    exact List.suffix_append _ _
  · obtain ⟨body, eof, rfl, kind, _⟩ := ended
    have error := errors eof (by simp)
    rw [kind] at error
    cases error

private theorem exists_consumes (ended : Ended tokens) :
    ∃ height uses last, Consumes (.read .assignment) (outset tokens) height uses last := by
  obtain ⟨counts, last, performs⟩ :=
    exists_performs (Task.fits_assignment (outset tokens).parser) (show (outset tokens).parser.Ready from .ofTokens ended)
      (Nat.zero_le _)
  obtain ⟨height, uses, consumes⟩ := performs.consumes
  exact ⟨height, uses, last, consumes⟩

section Outset

variable (consumes : Consumes (.read .assignment) (outset tokens) height uses last)

include consumes

/-- What is consumed is all that there is to reading. -/
theorem Consumes.directivesOf_eq (ended : Ended tokens) :
    directivesOf tokens =
      ((last.parser.expect .eof .expectEnd).emit [.return]).directives.toList := by
  obtain ⟨counts, performs⟩ := consumes.performs
  have read : last.parser = Parser.expression maxNesting .assignment (outset tokens).parser :=
    performs.parser_eq (Task.fits_assignment _) (Ready.ofTokens ended)
      (Nat.zero_le _)
  rw [read]
  rfl

private theorem Consumes.countP_le (ended : Ended tokens) :
    uses.countP (·.Acts) ≤ (tokens.filter (·.kind ∉ [.error, .eof])).length := by
  have inner := consumes.inner (Task.fits_assignment _)
  obtain ⟨_, consecutive⟩ := consumes.consecutive (Ready.ofTokens ended)
  have proper : ∀ token : Token, token.kind = .eof → decide (token.kind ∉ [.error, .eof]) = false := by
    intro token ends
    simp [ends]
  calc uses.countP (·.Acts)
      ≤ uses.countP (fun use => decide (use.token.kind ∉ [.error, .eof])) :=
        List.countP_mono_left fun use member acts => by
          simpa using inner use member (by simpa using acts)
    _ = ((uses.map Use.token).filter (·.kind ∉ [.error, .eof])).length := by
        rw [← List.countP_eq_length_filter, List.countP_map]
        rfl
    _ ≤ (tokens.filter (·.kind ∉ [.error, .eof])).length :=
        ((consecutive.sublist proper).trans ((upcoming_outset ended).sublist.filter _)).length_le

private theorem Consumes.adds_all (ended : Ended tokens) :
    Directive.numbers (directivesOf tokens) = (uses.map Use.token).filter (·.kind = .number) ∧
      (Directive.cells 0 (directivesOf tokens)).length ≤ 2 * uses.countP (·.Acts) + 1 := by
  have adds := ((((Adds.advance (ofTokens tokens)).trans (consumes.adds (Task.fits_assignment _))).trans
    (.expect _ .eof .expectEnd)).trans (.emit _ (show [Operation.return].length ≤ 1 by decide)))
  rw [consumes.directivesOf_eq ended]
  refine ⟨?_, ?_⟩
  · rw [adds.numbers]
    simp [ofTokens, Task.loads, Directive.numbers]
  · have size : ((last.parser.expect .eof .expectEnd).emit [.return]).bytes ≤ _ := adds.bytes
    have none : (ofTokens tokens).bytes = 0 := rfl
    simp only [Task.bytes, none] at size
    exact Nat.le_trans size (by omega)

end Outset

end Counted

namespace Parser

variable {tokens : List Token} (ended : Ended tokens)

include ended

theorem numbers_directivesOf_sublist :
    (Directive.numbers (directivesOf tokens)).Sublist (tokens.filter (·.kind = .number)) := by
  obtain ⟨height, uses, last, consumes⟩ := Counted.exists_consumes ended
  obtain ⟨_, consecutive⟩ := consumes.consecutive (Ready.ofTokens ended)
  rw [(consumes.adds_all ended).1]
  refine (consecutive.sublist ?_).trans ((Counted.upcoming_outset ended).sublist.filter _)
  intro token ends
  simp [ends]

private theorem length_cells_directivesOf (number : Nat) :
    (Directive.cells number (directivesOf tokens)).length ≤
      2 * (tokens.filter (·.kind ∉ [.error, .eof])).length + 1 := by
  obtain ⟨height, uses, last, consumes⟩ := Counted.exists_consumes ended
  have few := consumes.countP_le ended
  have size := (consumes.adds_all ended).2
  rw [Directive.length_cells_congr number 0]
  omega

end Parser

/-- Compiling any source ends. Each round of taking operators and each parselet consume a token
for themselves, which is neither an error nor the end; and of what is consumed, all but the
end is consumed only once. At most 1024 expressions are read one inside another. The bytes
that are added are at most two for each token but errors and the end, and the return; the
constants are at most the numbers. -/
theorem compile_ends_with_linear_output (config : Config) (source : String) (chunk : Chunk) :
    let tokens := tokensOf source
    (∃ height uses last,
      Counted.Consumes (.read .assignment) (Counted.outset tokens) height uses last) ∧
    (∀ height uses last,
      Counted.Consumes (.read .assignment) (Counted.outset tokens) height uses last →
      directivesOf tokens =
        ((last.parser.expect .eof .expectEnd).emit [.return]).directives.toList ∧
      height ≤ 1024 ∧
      (∀ use ∈ uses, use.onward <:+ tokens) ∧
      (∀ use ∈ uses, use.Acts → use.token.kind ∉ [.error, .eof]) ∧
      uses.Pairwise fun use later =>
        use.token.kind ≠ .eof → later.behind.length < use.behind.length) ∧
    ∃ cells values, Chunk.Grows chunk cells values (compile config source chunk).chunk ∧
      cells.length ≤ 2 * (tokens.filter (·.kind ∉ [.error, .eof])).length + 1 ∧
      values.length ≤ (tokens.filter (·.kind = .number)).length := by
  intro tokens
  have ended := ended_tokensOf source
  have legible := legible_tokensOf source
  refine ⟨Counted.exists_consumes ended, ?_, _, _, Chunk.grows_compile config source chunk,
    length_cells_directivesOf ended _, ?_⟩
  · intro height uses last consumes
    obtain ⟨_, consecutive⟩ := consumes.consecutive (Ready.ofTokens ended)
    refine ⟨consumes.directivesOf_eq ended, consumes.height_le (Nat.zero_le _), ?_,
      consumes.inner (Task.fits_assignment _), consecutive.pairwise⟩
    intro use member
    exact (consecutive.suffix use member).trans (Counted.upcoming_outset ended)
  · rw [List.length_take, Directive.length_values legible]
    exact Nat.le_trans (Nat.min_le_right _ _) (numbers_directivesOf_sublist ended).length_le

end StackCalc
