import StackCalc.Proofs.DepthCounter

/-! What the parser uses up. Each parselet, and each round of taking operators, has a token of
its own, which was consumed for it just before. All that is consumed comes one after another
in the tokens, so that no token is consumed twice but the end. -/

namespace StackCalc

open StackCalc.Parser

/-- What a token is consumed for: to start an expression, to join an operand to one, or to
close a group. A token that is unfit to start an expression is consumed as well. -/
inductive Purpose where
  | starting (parselet : Parselet)
  | joining (parselet : Option Parselet)
  | closing
  | unfit
  deriving DecidableEq

/-- A token that is consumed, with the tokens behind it. -/
structure Use where
  purpose : Purpose
  token : Token
  behind : List Token

namespace Use

/-- The token is consumed for a parselet, or for a round of taking operators. -/
def Acts (use : Use) : Prop := use.purpose ∉ [.closing, .unfit]

instance (use : Use) : Decidable use.Acts := inferInstanceAs (Decidable (_ ∉ _))

/-- The token and those behind it. -/
def onward (use : Use) : List Token := use.token :: use.behind

/-- Uses one after another, from the tokens in view at first to those in view at last. What
is consumed is the first token in view. Error tokens are passed over, and the end stays in
view. -/
inductive Consecutive : (upcoming : List Token) → List Use → (left : List Token) → Prop where
  | none {upcoming} : Consecutive upcoming [] upcoming
  | next {purpose token skipped upcoming uses left} (inner : token.kind ≠ .eof)
      (errors : ∀ error ∈ skipped, error.kind = .error) (rest : Consecutive upcoming uses left) :
      Consecutive (token :: (skipped ++ upcoming))
        (⟨purpose, token, skipped ++ upcoming⟩ :: uses) left
  | last {purpose token uses left} (ends : token.kind = .eof)
      (rest : Consecutive [token] uses left) :
      Consecutive [token] (⟨purpose, token, []⟩ :: uses) left

variable {upcoming middle left : List Token} {uses more : List Use}

private theorem Consecutive.append (first : Consecutive upcoming uses middle)
    (second : Consecutive middle more left) : Consecutive upcoming (uses ++ more) left := by
  induction first with
  | none => exact second
  | next inner errors _ ih => exact .next inner errors (ih second)
  | last ends _ ih => exact .last ends (ih second)

theorem Consecutive.suffix (consecutive : Consecutive upcoming uses left) :
    ∀ use ∈ uses, use.onward <:+ upcoming := by
  induction consecutive with
  | none => exact List.forall_mem_nil _
  | next inner errors rest ih =>
    refine List.forall_mem_cons.mpr ⟨List.suffix_refl _, fun use member => ?_⟩
    exact ((ih use member).trans (List.suffix_append _ _)).trans (List.suffix_cons _ _)
  | last ends rest ih => exact List.forall_mem_cons.mpr ⟨List.suffix_refl _, ih⟩

/-- What is consumed later stands further behind, but for the end. -/
theorem Consecutive.pairwise (consecutive : Consecutive upcoming uses left) :
    uses.Pairwise fun use later =>
      use.token.kind ≠ .eof → later.behind.length < use.behind.length := by
  induction consecutive with
  | none => exact .nil
  | next inner errors rest ih =>
    refine .cons (fun later member _ => ?_) ih
    have inside := (rest.suffix later member).length_le
    simp only [onward, List.length_cons] at inside
    simp only [List.length_append]
    omega
  | last ends rest ih => exact .cons (fun later _ inner => absurd ends inner) ih

theorem Consecutive.sublist (consecutive : Consecutive upcoming uses left) {proper : Token → Bool}
    (inner : ∀ token, token.kind = .eof → proper token = false) :
    ((uses.map Use.token).filter proper).Sublist (upcoming.filter proper) := by
  induction consecutive with
  | none => exact List.nil_sublist _
  | @next purpose token skipped upcoming uses left _ errors rest ih =>
    have whole : ((token :: (skipped ++ upcoming)).filter proper) =
        [token].filter proper ++ (skipped.filter proper ++ upcoming.filter proper) := by
      rw [← List.filter_append, ← List.filter_append, List.singleton_append]
    have own : ((⟨purpose, token, skipped ++ upcoming⟩ :: uses).map Use.token).filter proper =
        [token].filter proper ++ (uses.map Use.token).filter proper := by
      rw [← List.filter_append, List.singleton_append, List.map_cons]
    rw [whole, own]
    exact (List.Sublist.refl _).append (ih.trans (List.sublist_append_right _ _))
  | @last purpose token uses left ends rest ih =>
    have none : [token].filter proper = [] := by simp [inner token ends]
    rw [none] at ih ⊢
    rwa [List.map_cons, List.filter_cons_of_neg (by simp [inner token ends])]

end Use

theorem Task.fits_assignment (parser : Parser) : (Task.read .assignment).Fits parser :=
  show Precedence.assignment ≤ .assignment by decide

namespace Counted

/-- The token in view is consumed next. -/
def use (counted : Counted) (purpose : Purpose) : Use :=
  ⟨purpose, counted.parser.current, counted.parser.rest⟩

/-- Doing a task, with all the tokens that are consumed for it, and the height of the calls
in it: so many expressions are at most read one inside another. A call that is refused at
once reads nothing. -/
inductive Consumes : Task → Counted → (height : Nat) → List Use → Counted → Prop where
  | refused {level} {start : Counted} (full : start.depth = maxNesting) :
      Consumes (.read level) start 0 [] (start.on (·.reportAtCurrent .nestedTooDeeply))
  | unfit {level} {start : Counted} (room : start.depth ≠ maxNesting)
      (unfit : start.enter.parser.previous.kind.rule.atStart = none) :
      Consumes (.read level) start 1 [start.use .unfit]
        (start.enter.on (·.reportAtPrevious .expectExpression)).leave
  | expression {level parselet height above uses more} {start middle last : Counted}
      (room : start.depth ≠ maxNesting)
      (starts : start.enter.parser.previous.kind.rule.atStart = some parselet)
      (applied : Consumes (.act parselet) start.enter height uses middle)
      (climbed : Consumes (.climb level) middle above more last) :
      Consumes (.read level) start (max height above + 1)
        (start.use (.starting parselet) :: (uses ++ more)) last.leave
  | group {height uses} {start last : Counted}
      (inner : Consumes (.read .assignment) start height uses last)
      (closes : last.parser.current.kind = .rightParen) :
      Consumes (.act .grouping) start height (uses ++ [last.use .closing])
        (last.on Parser.advance)
  | unclosed {height uses} {start last : Counted}
      (inner : Consumes (.read .assignment) start height uses last)
      (other : last.parser.current.kind ≠ .rightParen) :
      Consumes (.act .grouping) start height uses
        (last.on (·.reportAtCurrent .expectRightParen))
  | unary {height uses} {start last : Counted}
      (operand : Consumes (.read .unary) start height uses last) :
      Consumes (.act .unary) start height uses
        (last.on (·.emit start.parser.previous.kind.unaryOperations))
  | binary {height uses} {start last : Counted}
      (operand : Consumes (.read start.parser.previous.kind.rule.precedence.next)
        start height uses last) :
      Consumes (.act .binary) start height uses
        (last.on (·.emit start.parser.previous.kind.binaryOperations))
  | number {start : Counted} :
      Consumes (.act .number) start 0 []
        (start.on fun parser => parser.direct (.number parser.previous))
  | literal {start : Counted} :
      Consumes (.act .literal) start 0 []
        (start.on fun parser => parser.emit parser.previous.kind.literalOperations)
  | stop {level} {start : Counted}
      (looser : ¬ level ≤ start.parser.current.kind.rule.precedence) :
      Consumes (.climb level) start 0 [] start
  | operator {level parselet height above uses more} {start middle last : Counted}
      (binds : level ≤ start.parser.current.kind.rule.precedence)
      (found : start.parser.advance.previous.kind.rule.afterOperand = some parselet)
      (applied : Consumes (.act parselet) (start.on Parser.advance) height uses middle)
      (others : Consumes (.climb level) middle above more last) :
      Consumes (.climb level) start (max height above)
        (start.use (.joining (some parselet)) :: (uses ++ more)) last
  | skip {level height uses} {start last : Counted}
      (binds : level ≤ start.parser.current.kind.rule.precedence)
      (idle : start.parser.advance.previous.kind.rule.afterOperand = none)
      (others : Consumes (.climb level) (start.on Parser.advance) height uses last) :
      Consumes (.climb level) start height (start.use (.joining none) :: uses) last

variable {task : Task} {start last : Counted} {height : Nat} {uses : List Use}

theorem Performs.consumes {counts : List Nat} (performs : Performs task start counts last) :
    ∃ height uses, Consumes task start height uses last := by
  induction performs with
  | refused full => exact ⟨_, _, .refused full⟩
  | unfit room unfit => exact ⟨_, _, .unfit room unfit⟩
  | expression room starts applied climbed ihApplied ihClimbed =>
    obtain ⟨_, _, applied⟩ := ihApplied
    obtain ⟨_, _, climbed⟩ := ihClimbed
    exact ⟨_, _, .expression room starts applied climbed⟩
  | @grouping counts start last inner ih =>
    obtain ⟨_, _, inner⟩ := ih
    by_cases closes : last.parser.current.kind = .rightParen
    · have result : last.on (·.expect .rightParen .expectRightParen) = last.on Parser.advance := by
        simp only [on, Parser.expect, closes, if_true]
      rw [result]
      exact ⟨_, _, .group inner closes⟩
    · have result : last.on (·.expect .rightParen .expectRightParen) =
          last.on (·.reportAtCurrent .expectRightParen) := by
        simp only [on, Parser.expect, closes, if_false]
      rw [result]
      exact ⟨_, _, .unclosed inner closes⟩
  | unary operand ih =>
    obtain ⟨_, _, operand⟩ := ih
    exact ⟨_, _, .unary operand⟩
  | binary operand ih =>
    obtain ⟨_, _, operand⟩ := ih
    exact ⟨_, _, .binary operand⟩
  | number => exact ⟨_, _, .number⟩
  | literal => exact ⟨_, _, .literal⟩
  | stop looser => exact ⟨_, _, .stop looser⟩
  | operator binds found applied others ihApplied ihOthers =>
    obtain ⟨_, _, applied⟩ := ihApplied
    obtain ⟨_, _, others⟩ := ihOthers
    exact ⟨_, _, .operator binds found applied others⟩
  | skip binds idle others ih =>
    obtain ⟨_, _, others⟩ := ih
    exact ⟨_, _, .skip binds idle others⟩

theorem Consumes.performs (consumes : Consumes task start height uses last) :
    ∃ counts, Performs task start counts last := by
  induction consumes with
  | refused full => exact ⟨_, .refused full⟩
  | unfit room unfit => exact ⟨_, .unfit room unfit⟩
  | expression room starts applied climbed ihApplied ihClimbed =>
    obtain ⟨_, applied⟩ := ihApplied
    obtain ⟨_, climbed⟩ := ihClimbed
    exact ⟨_, .expression room starts applied climbed⟩
  | group inner closes ih =>
    obtain ⟨_, inner⟩ := ih
    have whole := Performs.grouping inner
    simp only [on, Parser.expect, closes, if_true] at whole
    exact ⟨_, whole⟩
  | unclosed inner other ih =>
    obtain ⟨_, inner⟩ := ih
    have whole := Performs.grouping inner
    simp only [on, Parser.expect, other, if_false] at whole
    exact ⟨_, whole⟩
  | unary operand ih =>
    obtain ⟨_, operand⟩ := ih
    exact ⟨_, .unary operand⟩
  | binary operand ih =>
    obtain ⟨_, operand⟩ := ih
    exact ⟨_, .binary operand⟩
  | number => exact ⟨_, .number⟩
  | literal => exact ⟨_, .literal⟩
  | stop looser => exact ⟨_, .stop looser⟩
  | operator binds found applied others ihApplied ihOthers =>
    obtain ⟨_, applied⟩ := ihApplied
    obtain ⟨_, others⟩ := ihOthers
    exact ⟨_, .operator binds found applied others⟩
  | skip binds idle others ih =>
    obtain ⟨_, others⟩ := ih
    exact ⟨_, .skip binds idle others⟩

theorem Consumes.height_le (consumes : Consumes task start height uses last)
    (within : start.depth ≤ maxNesting) : height + start.depth ≤ maxNesting := by
  induction consumes with
  | refused => simpa using within
  | unfit room => omega
  | expression room starts applied climbed ihApplied ihClimbed =>
    obtain ⟨_, performs⟩ := applied.performs
    have depth := performs.depth_eq
    simp only [enter] at depth ihApplied
    have inside := ihApplied (by omega)
    have behind := ihClimbed (by omega)
    omega
  | group inner closes ih => exact ih within
  | unclosed inner other ih => exact ih within
  | unary operand ih => exact ih within
  | binary operand ih => exact ih within
  | number => simpa using within
  | literal => simpa using within
  | stop => simpa using within
  | operator binds found applied others ihApplied ihOthers =>
    obtain ⟨_, performs⟩ := applied.performs
    have depth := performs.depth_eq
    simp only [on] at depth ihApplied
    have inside := ihApplied within
    have behind := ihOthers (by omega)
    omega
  | skip binds idle others ih => exact ih within

end Counted

namespace Parser

private theorem Ready.emit {parser : Parser} (ready : parser.Ready) (operations : List Operation) :
    (parser.emit operations).Ready := by
  rw [emit_eq]
  exact ⟨ready.ended, ready.current, ready.previous⟩

@[simp] theorem upcoming_emit (parser : Parser) (operations : List Operation) :
    (parser.emit operations).upcoming = parser.upcoming := by
  rw [emit_eq]
  rfl

/-- Advancing uses one token. -/
theorem Ready.consecutive_advance {parser : Parser} (ready : parser.Ready) (purpose : Purpose)
    {uses : List Use} {left : List Token}
    (rest : Use.Consecutive parser.advance.upcoming uses left) :
    Use.Consecutive parser.upcoming (⟨purpose, parser.current, parser.rest⟩ :: uses) left := by
  rcases ready.advance_cases with
    ⟨empty, result⟩ | ⟨skipped, token, tokens, split, errors, clean, result⟩
  · rw [result] at rest
    rw [upcoming] at rest ⊢
    simp only [empty] at rest ⊢
    exact .last (ready.rest_eq_nil_iff.mp empty) rest
  · have inner : parser.current.kind ≠ .eof := by
      intro ends
      rw [ready.rest_eq_nil_iff.mpr ends] at split
      simp at split
    rw [result] at rest
    rw [upcoming, split]
    exact .next inner errors rest

end Parser

namespace Counted

variable {task : Task} {start last : Counted} {height : Nat} {uses : List Use}

theorem Consumes.consecutive (consumes : Consumes task start height uses last)
    (ready : start.parser.Ready) :
    last.parser.Ready ∧ Use.Consecutive start.parser.upcoming uses last.parser.upcoming := by
  induction consumes with
  | refused => exact ⟨ready.direct _, .none⟩
  | unfit => exact ⟨ready.advance.direct _, ready.consecutive_advance _ .none⟩
  | expression room starts applied climbed ihApplied ihClimbed =>
    obtain ⟨kept, first⟩ := ihApplied ready.advance
    obtain ⟨done, second⟩ := ihClimbed kept
    exact ⟨done, ready.consecutive_advance _ (first.append second)⟩
  | group inner closes ih =>
    obtain ⟨kept, first⟩ := ih ready
    exact ⟨kept.advance, first.append (kept.consecutive_advance .closing .none)⟩
  | unclosed inner other ih =>
    obtain ⟨kept, first⟩ := ih ready
    exact ⟨kept.direct _, first⟩
  | unary operand ih =>
    obtain ⟨kept, first⟩ := ih ready
    exact ⟨kept.emit _, by simpa [on] using first⟩
  | binary operand ih =>
    obtain ⟨kept, first⟩ := ih ready
    exact ⟨kept.emit _, by simpa [on] using first⟩
  | number => exact ⟨ready.direct _, .none⟩
  | literal => exact ⟨ready.emit _, by simpa [on] using .none⟩
  | stop => exact ⟨ready, .none⟩
  | operator binds found applied others ihApplied ihOthers =>
    obtain ⟨kept, first⟩ := ihApplied ready.advance
    obtain ⟨done, second⟩ := ihOthers kept
    exact ⟨done, ready.consecutive_advance _ (first.append second)⟩
  | skip binds idle others ih =>
    obtain ⟨done, rest⟩ := ih ready.advance
    exact ⟨done, ready.consecutive_advance _ rest⟩

/-- What is consumed for a parselet or a round is neither an error nor the end. -/
theorem Consumes.inner (consumes : Consumes task start height uses last)
    (fits : task.Fits start.parser) : ∀ use ∈ uses, use.Acts → use.token.kind ∉ [.error, .eof] := by
  induction consumes with
  | refused => exact List.forall_mem_nil _
  | unfit => exact List.forall_mem_singleton.mpr fun acts => absurd acts (by simp [Use.Acts, use])
  | @expression level parselet height above uses more start middle last room starts applied climbed
      ihApplied ihClimbed =>
    refine List.forall_mem_cons.mpr ⟨fun _ => ?_, List.forall_mem_append.mpr
      ⟨ihApplied (Task.fits_of_starts starts), ihClimbed fits⟩⟩
    rw [enter, previous_advance] at starts
    exact TokenKind.inner_of_atStart (starts ▸ Option.some_ne_none _)
  | group inner closes ih =>
    refine List.forall_mem_append.mpr ⟨ih (Task.fits_assignment _), ?_⟩
    exact List.forall_mem_singleton.mpr fun acts => absurd acts (by simp [Use.Acts, use])
  | unclosed inner other ih => exact ih (Task.fits_assignment _)
  | unary operand ih => exact ih (show Precedence.assignment ≤ .unary by decide)
  | binary operand ih => exact ih (Precedence.assignment_le_next _)
  | number => exact List.forall_mem_nil _
  | literal => exact List.forall_mem_nil _
  | stop => exact List.forall_mem_nil _
  | operator binds found applied others ihApplied ihOthers =>
    obtain ⟨layer, joins⟩ := TokenKind.ofOperator?_of_le fits binds
    obtain rfl := TokenKind.afterOperand_eq found
    exact List.forall_mem_cons.mpr ⟨fun _ => TokenKind.inner_of_ofOperator? joins,
      List.forall_mem_append.mpr ⟨ihApplied (Task.fits_binary _), ihOthers fits⟩⟩
  | skip binds idle others ih =>
    obtain ⟨layer, joins⟩ := TokenKind.ofOperator?_of_le fits binds
    exact List.forall_mem_cons.mpr ⟨fun _ => TokenKind.inner_of_ofOperator? joins, ih fits⟩

end Counted

end StackCalc
