import StackCalc.Proofs.Translation

/-! The parser with a counter. It is not told how much room there is, but counts the
expressions it is inside of: up when it enters one, down when it leaves, and at the limit it
does not enter. The counter comes back to where it was on every path and never passes the
limit, so counting and being told the room come to the same. -/

namespace StackCalc

open StackCalc.Parser

/-- A parser and how many expressions it is inside of. -/
structure Counted where
  parser : Parser
  depth : Nat

/-- What there is to do: read an expression, let the token that was consumed do its part, or
take the operators that follow. -/
inductive Task where
  | read (level : Precedence)
  | act (parselet : Parselet)
  | climb (level : Precedence)

namespace Counted

def on (counted : Counted) (act : Parser → Parser) : Counted :=
  { counted with parser := act counted.parser }

def enter (counted : Counted) : Counted := ⟨counted.parser.advance, counted.depth + 1⟩

def leave (counted : Counted) : Counted := { counted with depth := counted.depth - 1 }

/-- Doing a task, with all the values that the counter takes on the way. Rounds are taken as
long as operators bind, without any other bound. -/
inductive Performs : Task → Counted → List Nat → Counted → Prop where
  | refused {level} {start : Counted} (full : start.depth = maxNesting) :
      Performs (.read level) start [] (start.on (·.reportAtCurrent .nestedTooDeeply))
  | unfit {level} {start : Counted} (room : start.depth ≠ maxNesting)
      (unfit : start.enter.parser.previous.kind.rule.atStart = none) :
      Performs (.read level) start [start.depth + 1, start.depth]
        (start.enter.on (·.reportAtPrevious .expectExpression)).leave
  | expression {level parselet first rest} {start middle last : Counted}
      (room : start.depth ≠ maxNesting)
      (starts : start.enter.parser.previous.kind.rule.atStart = some parselet)
      (applied : Performs (.act parselet) start.enter first middle)
      (climbed : Performs (.climb level) middle rest last) :
      Performs (.read level) start
        (start.enter.depth :: first ++ rest ++ [last.leave.depth]) last.leave
  | grouping {counts} {start last : Counted}
      (inner : Performs (.read .assignment) start counts last) :
      Performs (.act .grouping) start counts (last.on (·.expect .rightParen .expectRightParen))
  | unary {counts} {start last : Counted}
      (operand : Performs (.read .unary) start counts last) :
      Performs (.act .unary) start counts
        (last.on (·.emit start.parser.previous.kind.unaryOperations))
  | binary {counts} {start last : Counted}
      (operand : Performs (.read start.parser.previous.kind.rule.precedence.next)
        start counts last) :
      Performs (.act .binary) start counts
        (last.on (·.emit start.parser.previous.kind.binaryOperations))
  | number {start : Counted} :
      Performs (.act .number) start []
        (start.on fun parser => parser.direct (.number parser.previous))
  | literal {start : Counted} :
      Performs (.act .literal) start []
        (start.on fun parser => parser.emit parser.previous.kind.literalOperations)
  | stop {level} {start : Counted}
      (looser : ¬ level ≤ start.parser.current.kind.rule.precedence) :
      Performs (.climb level) start [] start
  | operator {level parselet first rest} {start middle last : Counted}
      (binds : level ≤ start.parser.current.kind.rule.precedence)
      (found : start.parser.advance.previous.kind.rule.afterOperand = some parselet)
      (applied : Performs (.act parselet) (start.on Parser.advance) first middle)
      (more : Performs (.climb level) middle rest last) :
      Performs (.climb level) start (first ++ rest) last
  | skip {level rest} {start last : Counted}
      (binds : level ≤ start.parser.current.kind.rule.precedence)
      (none : start.parser.advance.previous.kind.rule.afterOperand = none)
      (more : Performs (.climb level) (start.on Parser.advance) rest last) :
      Performs (.climb level) start rest last

variable {task : Task} {start last : Counted} {counts : List Nat}

theorem Performs.depth_eq (performs : Performs task start counts last) :
    last.depth = start.depth := by
  induction performs with
  | refused => rfl
  | unfit => rfl
  | expression room starts applied climbed ihApplied ihClimbed =>
    simp only [leave, ihClimbed, ihApplied, enter, Nat.add_sub_cancel]
  | grouping inner ih => exact ih
  | unary operand ih => exact ih
  | binary operand ih => exact ih
  | number => rfl
  | literal => rfl
  | stop => rfl
  | operator binds found applied more ihApplied ihMore => exact ihMore.trans ihApplied
  | skip binds none more ih => exact ih

theorem Performs.counts_le (performs : Performs task start counts last)
    (within : start.depth ≤ maxNesting) : ∀ depth ∈ counts, depth ≤ maxNesting := by
  induction performs with
  | refused => simp
  | unfit room unfit =>
    simp only [List.forall_mem_cons]
    exact ⟨by omega, within, by simp⟩
  | @expression level parselet first rest start middle last room starts applied climbed ihApplied
      ihClimbed =>
    have entered : start.enter.depth ≤ maxNesting := by
      simp only [enter]
      omega
    have inside := applied.depth_eq
    have behind := climbed.depth_eq
    simp only [List.cons_append, List.forall_mem_cons, List.forall_mem_append]
    refine ⟨entered, ⟨ihApplied entered, ihClimbed (by omega)⟩, ?_, by simp⟩
    simp only [leave]
    omega
  | grouping inner ih => exact ih within
  | unary operand ih => exact ih within
  | binary operand ih => exact ih within
  | number => simp
  | literal => simp
  | stop => simp
  | operator binds found applied more ihApplied ihMore =>
    have middle := applied.depth_eq
    exact List.forall_mem_append.mpr ⟨ihApplied within, ihMore (middle ▸ within)⟩
  | skip binds none more ih => exact ih within

end Counted

namespace Task

/-- What the parser does for a task if it is told its room. -/
def perform (room : Nat) : Task → Parser → Parser
  | .read level, parser => Parser.expression room level parser
  | .act parselet, parser => Parser.apply (Parser.expression room) parser parselet
  | .climb level, parser => Parser.climb (Parser.expression room) level parser.rest parser

/-- Expressions are never read at the level of tokens that do not bind, and constants are
only loaded for numbers. -/
def Fits (parser : Parser) : Task → Prop
  | .read level | .climb level => .assignment ≤ level
  | .act parselet => parselet = .number → parser.previous.kind = .number

private theorem perform_steps {task : Task} {parser : Parser} (fits : task.Fits parser)
    (room : Nat) : Steps parser (task.perform room parser) := by
  cases task with
  | read level => exact expression_steps room level parser
  | act parselet => exact apply_steps (expression_steps room) parser fits
  | climb level => exact climb_steps (expression_steps room) level parser.rest parser

theorem fits_of_starts {parselet : Parselet} {parser : Parser}
    (starts : parser.previous.kind.rule.atStart = some parselet) :
    (Task.act parselet).Fits parser := by
  rintro rfl
  exact TokenKind.atStart_number_iff.mp starts

theorem fits_binary (parser : Parser) : (Task.act .binary).Fits parser := by
  intro number
  cases number

end Task

namespace Counted

/-- The induction is on what is performed, so that every call in it is told the room that
its counter leaves. -/
theorem Performs.parser_eq {task : Task} {start last : Counted} {counts : List Nat}
    (performs : Performs task start counts last) (fits : task.Fits start.parser)
    (ready : start.parser.Ready) (within : start.depth ≤ maxNesting) :
    last.parser = task.perform (maxNesting - start.depth) start.parser := by
  induction performs with
  | refused full =>
    simp only [Task.perform, full, Nat.sub_self]
    rfl
  | @unfit level start room unfit =>
    have more : maxNesting - start.depth = maxNesting - (start.depth + 1) + 1 := by omega
    have none : start.parser.advance.previous.kind.rule.atStart = none := unfit
    simp only [Task.perform, more, Parser.expression, none]
    rfl
  | @expression level parselet first rest start middle last room starts applied climbed ihApplied
      ihClimbed =>
    have more : maxNesting - start.depth = maxNesting - start.enter.depth + 1 := by
      simp only [enter]
      omega
    have entered : start.enter.depth ≤ maxNesting := by
      simp only [enter]
      omega
    have inside := Task.fits_of_starts starts
    have operand := ihApplied inside ready.advance entered
    have kept : middle.parser.Ready := by
      rw [operand]
      exact (ready.advance.steps (Task.perform_steps inside _)).1
    have whole := ihClimbed fits kept (applied.depth_eq ▸ entered)
    rw [applied.depth_eq, operand] at whole
    have starts : start.parser.current.kind.rule.atStart = some parselet := by
      rwa [enter, previous_advance] at starts
    rw [Task.perform, more, Expr.expression_succ starts]
    exact whole
  | grouping inner ih =>
    simp only [on, ih (show Precedence.assignment ≤ .assignment by decide) ready within]
    rfl
  | unary operand ih =>
    simp only [on, ih (show Precedence.assignment ≤ .unary by decide) ready within]
    rfl
  | binary operand ih =>
    simp only [on, ih (Precedence.assignment_le_next _) ready within]
    rfl
  | number => rfl
  | literal => rfl
  | stop looser => exact (climb_stop looser).symm
  | @operator level parselet first rest start middle last binds found applied more ihApplied
      ihMore =>
    obtain ⟨layer, joins⟩ := TokenKind.ofOperator?_of_le fits binds
    have reads : level ≤ layer.precedence := by
      rwa [← Layer.precedence_of_ofOperator? joins]
    obtain rfl := TokenKind.afterOperand_eq found
    have operand : middle.parser =
        Parser.apply (Parser.expression (maxNesting - start.depth)) start.parser.advance .binary :=
      ihApplied (Task.fits_binary _) ready.advance within
    have kept : middle.parser.Ready := by
      rw [operand]
      exact (ready.advance.steps (binary_steps (expression_steps _) _)).1
    have depth : middle.depth = start.depth := applied.depth_eq
    have whole := ihMore fits kept (depth ▸ within)
    rw [depth] at whole
    rw [whole, Task.perform, Task.perform, climb_rest (expression_steps _) fits ready joins reads,
      ← operand]
  | skip binds none more ih =>
    obtain ⟨layer, joins⟩ := TokenKind.ofOperator?_of_le fits binds
    rw [previous_advance, TokenKind.rule_of_ofOperator? joins] at none
    cases none

private theorem exists_performs_act {start : Counted} (parselet : Parselet)
    (operands : ∀ level, .assignment ≤ level →
      ∃ counts last, Performs (.read level) start counts last) :
    ∃ counts last, Performs (.act parselet) start counts last := by
  cases parselet with
  | grouping =>
    obtain ⟨counts, last, inner⟩ := operands .assignment (by decide)
    exact ⟨_, _, .grouping inner⟩
  | unary =>
    obtain ⟨counts, last, operand⟩ := operands .unary (by decide)
    exact ⟨_, _, .unary operand⟩
  | binary =>
    obtain ⟨counts, last, operand⟩ := operands _ (Precedence.assignment_le_next _)
    exact ⟨_, _, .binary operand⟩
  | number => exact ⟨_, _, .number⟩
  | literal => exact ⟨_, _, .literal⟩

/-- Each round takes an operator, so there are no more rounds than tokens. -/
theorem exists_performs_climb {start : Counted} {level : Precedence} (tight : .assignment ≤ level)
    (ready : start.parser.Ready) (within : start.depth ≤ maxNesting)
    (operands : ∀ (middle : Counted) level, middle.depth = start.depth → middle.parser.Ready →
      .assignment ≤ level → ∃ counts last, Performs (.read level) middle counts last) :
    ∃ counts last, Performs (.climb level) start counts last := by
  by_cases binds : level ≤ start.parser.current.kind.rule.precedence
  · obtain ⟨layer, joins⟩ := TokenKind.ofOperator?_of_le tight binds
    have found : start.parser.advance.previous.kind.rule.afterOperand = some .binary := by
      rw [previous_advance, TokenKind.rule_of_ofOperator? joins]
    obtain ⟨first, middle, applied⟩ := exists_performs_act .binary
      fun level tight => operands (start.on Parser.advance) level rfl ready.advance tight
    have steps : Steps start.parser.advance middle.parser := by
      rw [applied.parser_eq (Task.fits_binary _) ready.advance within]
      exact Task.perform_steps (Task.fits_binary _) _
    obtain ⟨kept, fewer⟩ := ready.steps_operator joins steps
    have depth : middle.depth = start.depth := applied.depth_eq
    obtain ⟨rest, last, more⟩ := exists_performs_climb tight kept (depth ▸ within)
      fun next level same => operands next level (same.trans depth)
    exact ⟨_, _, .operator binds found applied more⟩
  · exact ⟨_, _, .stop binds⟩
termination_by start.parser.rest.length
decreasing_by omega

theorem exists_performs {start : Counted} {level : Precedence} (tight : .assignment ≤ level)
    (ready : start.parser.Ready) (within : start.depth ≤ maxNesting) :
    ∃ counts last, Performs (.read level) start counts last := by
  by_cases full : start.depth = maxNesting
  · exact ⟨_, _, .refused full⟩
  · have entered : start.enter.depth ≤ maxNesting := by
      simp only [enter]
      omega
    have operands : ∀ (middle : Counted) level, middle.depth = start.enter.depth →
        middle.parser.Ready → .assignment ≤ level →
        ∃ counts last, Performs (.read level) middle counts last := by
      intro middle level same ready tight
      exact exists_performs tight ready (same ▸ entered)
    cases starts : start.enter.parser.previous.kind.rule.atStart with
    | none => exact ⟨_, _, .unfit full starts⟩
    | some parselet =>
      obtain ⟨first, middle, applied⟩ := exists_performs_act parselet
        fun level tight => operands start.enter level rfl ready.advance tight
      have inside := Task.fits_of_starts starts
      have steps : Steps start.enter.parser middle.parser := by
        rw [applied.parser_eq inside ready.advance entered]
        exact Task.perform_steps inside _
      have kept := (ready.advance.steps steps).1
      have depth := applied.depth_eq
      obtain ⟨rest, last, climbed⟩ := exists_performs_climb tight kept (depth ▸ entered)
        fun next level same => operands next level (same.trans depth)
      exact ⟨_, _, .expression full starts applied climbed⟩
termination_by maxNesting - start.depth
decreasing_by
  simp only [enter] at same
  omega

end Counted

end StackCalc
