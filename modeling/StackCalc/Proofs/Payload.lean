import StackCalc.Proofs.CompiledRun
import StackCalc.Proofs.Effects
import StackCalc.Proofs.WholeRun

/-! Faults do not depend on payloads. If two chunks differ in their constants only, and
these are of the same kinds, then whatever the one run does the other does too, up to the
payloads of the values. The same holds of two sources that differ in the numbers and truth
values they spell. -/

namespace StackCalc

open StackCalc.Expr

/-- Both are values of the same kind, or both are the same error. -/
inductive AlikeResults {Error : Type} : Except Error Value → Except Error Value → Prop where
  | value {first second} (kinds : Value.SameKind first second) :
      AlikeResults (.ok first) (.ok second)
  | error (error : Error) : AlikeResults (.error error) (.error error)

namespace AlikeResults

variable {Error Other : Type} {first second : Except Error Value}

private theorem bind {next other : Value → Except Error Value} (alike : AlikeResults first second)
    (more : ∀ value another, value.SameKind another → AlikeResults (next value) (other another)) :
    AlikeResults (first >>= next) (second >>= other) := by
  cases alike with
  | value kinds => exact more _ _ kinds
  | error error => exact .error error

private theorem map {f g : Value → Value} (alike : AlikeResults first second)
    (kept : ∀ value another, value.SameKind another → (f value).SameKind (g another)) :
    AlikeResults (first.map f) (second.map g) := by
  cases alike with
  | value kinds => exact .value (kept _ _ kinds)
  | error error => exact .error error

private theorem mapError (f : Error → Other) (alike : AlikeResults first second) :
    AlikeResults (first.mapError f) (second.mapError f) := by
  cases alike with
  | value kinds => exact .value kinds
  | error error => exact .error (f error)

private theorem ofEffect {below behind : List Value} {first second : Except Fault Value}
    (alike : Effect.Alike (first.map fun value => .proceed (value :: below))
      (second.map fun value => .proceed (value :: behind))) : AlikeResults first second := by
  cases first with
  | error fault =>
    cases second with
    | error other => cases alike; exact .error fault
    | ok value => cases alike
  | ok value =>
    cases second with
    | error fault => cases alike
    | ok other =>
      cases alike with
      | proceed operands =>
        cases operands with
        | cons kinds rest => exact .value kinds

end AlikeResults

/-- The same bytes on the same lines, and constants that may differ in payload. -/
structure Chunk.Alike (first second : Chunk) : Prop where
  code : first.code = second.code
  lines : first.lines = second.lines
  constants : SameKinds first.constants.toList second.constants.toList

namespace Chunk.Alike

variable {first second : Chunk} (alike : first.Alike second)

include alike

private theorem fetch_eq (offset : Nat) : first.fetch offset = second.fetch offset := by
  unfold fetch
  rw [alike.code]

private theorem faultLine_eq (offset : Nat) : first.faultLine offset = second.faultLine offset := by
  unfold faultLine line?
  rw [alike.fetch_eq, alike.lines]

private theorem constant?_cases (index : UInt8) :
    (first.constant? index = none ∧ second.constant? index = none) ∨
      ∃ value other, first.constant? index = some value ∧ second.constant? index = some other ∧
        value.SameKind other := by
  have sizes : first.constants.size = second.constants.size := alike.constants.length_eq
  unfold constant?
  by_cases present : index.toNat < first.constants.size
  · have other : index.toNat < second.constants.size := by rwa [← sizes]
    refine .inr ⟨_, _, Array.getElem?_eq_getElem present, Array.getElem?_eq_getElem other, ?_⟩
    simpa using alike.constants.get present other
  · rw [Array.getElem?_eq_none (by omega), Array.getElem?_eq_none (by omega)]
    exact .inl ⟨rfl, rfl⟩

private theorem effect_alike {stack other : List Value} (operands : SameKinds stack other)
    (offset : Nat) : Effect.Alike (first.effect stack (first.fetch offset))
      (second.effect other (second.fetch offset)) := by
  rw [alike.fetch_eq]
  cases second.fetch offset with
  | instruction instruction =>
    cases instruction with
    | constant index =>
      rcases alike.constant?_cases index with ⟨missing, absent⟩ | ⟨value, another, found, seen, kinds⟩
      · simp only [effect, missing, absent]
        exact .fault _
      · simp only [effect, found, seen]
        exact Effect.push_alike operands kinds
    | plain operation => exact operation.effect_alike operands
  | unknown byte => exact .fault _
  | truncated => exact .fault _
  | pastEnd => exact .fault _

/-- The second run follows the first, instruction by instruction. -/
theorem executes {start : Standing} {stack : List Value} {count : Nat}
    {result : Except RuntimeError Value} {left : List Value}
    (run : first.Executes start count result left) (operands : SameKinds start.stack stack) :
    ∃ other leaving, second.Executes ⟨start.offset, stack⟩ count other leaving ∧
      AlikeResults result other ∧ SameKinds left leaving := by
  induction run generalizing stack with
  | @finish offset _ value beneath finishes =>
    have effects := alike.effect_alike operands offset
    rw [finishes] at effects
    generalize seen : second.effect stack (second.fetch offset) = other at effects
    cases effects with
    | finish values lefts => exact ⟨_, _, .finish seen, .value values, lefts⟩
  | @fault offset _ fault fails =>
    have effects := alike.effect_alike operands offset
    rw [fails] at effects
    generalize seen : second.effect stack (second.fetch offset) = other at effects
    cases effects
    rw [alike.faultLine_eq]
    exact ⟨_, _, .fault seen, .error _, .nil⟩
  | proceed moves rest ih =>
    cases moves with
    | @instruction offset _ after succeeds =>
      have effects := alike.effect_alike operands offset
      rw [succeeds] at effects
      generalize seen : second.effect stack (second.fetch offset) = other at effects
      cases effects with
      | proceed after =>
        obtain ⟨other, leaving, later, results, lefts⟩ := ih after
        rw [alike.fetch_eq] at later
        exact ⟨other, leaving, .proceed (.instruction seen) later, results, lefts⟩

end Chunk.Alike

private theorem TokenKind.not_literal_of_ofOperator? {kind : TokenKind} {layer : Layer}
    (joins : Layer.ofOperator? kind = some layer) : kind ∉ [.number, .kwTrue, .kwFalse] := by
  cases kind <;> first | decide | cases joins

/-- The same token, or another number, or another truth value, on the same line. -/
inductive Token.Alike : Token → Token → Prop where
  | same (token : Token) : Alike token token
  | number {first second : Token} (kind : first.kind = .number) (other : second.kind = .number)
      (line : first.line = second.line) : Alike first second
  | truth {first second : Token} (kind : first.kind ∈ [.kwTrue, .kwFalse])
      (other : second.kind ∈ [.kwTrue, .kwFalse]) (line : first.line = second.line) :
      Alike first second

private theorem Token.Alike.line_eq {first second : Token} (alike : first.Alike second) :
    first.line = second.line := by
  cases alike with
  | same => rfl
  | number _ _ line => exact line
  | truth _ _ line => exact line

private theorem Token.Alike.eq {first second : Token} (alike : first.Alike second)
    (other : first.kind ∉ [.number, .kwTrue, .kwFalse]) : first = second := by
  cases alike with
  | same => rfl
  | number kind => simp [kind] at other
  | truth kind => exact absurd (.tail _ kind) other

namespace Expr

/-- The same tree over other literals. -/
inductive Alike : Expr → Expr → Prop where
  | literal {first second} (tokens : Token.Alike first second) :
      Alike (.literal first) (.literal second)
  | group (opening closing : Token) {first second} (inner : Alike first second) :
      Alike (.group opening first closing) (.group opening second closing)
  | unary (operator : Token) {first second} (operand : Alike first second) :
      Alike (.unary operator first) (.unary operator second)
  | binary (operator : Token) {left first right second} (lefts : Alike left first)
      (rights : Alike right second) :
      Alike (.binary left operator right) (.binary first operator second)

private theorem Alike.lastLine_eq {first second : Expr} (alike : Alike first second) :
    first.lastLine = second.lastLine := by
  induction alike with
  | literal tokens => exact tokens.line_eq
  | group => rfl
  | unary operator operand ih => exact ih
  | binary operator lefts rights ihLeft ihRight => exact ihRight

private theorem alikeResults_of_room {first second : Value} (kinds : first.SameKind second)
    (waiting line : Nat) : @AlikeResults RuntimeError
      (if waiting < maxStack then .ok first else .error ⟨.stackOverflow, line⟩)
      (if waiting < maxStack then .ok second else .error ⟨.stackOverflow, line⟩) := by
  split
  · exact .value kinds
  · exact .error _

private theorem literalValue_alike {first second : Token} (alike : first.Alike second)
    (waiting : Nat) : AlikeResults (literalValue first waiting) (literalValue second waiting) := by
  cases alike with
  | same => exact alikeResults_of_room (.refl _) waiting _
  | number kind other line =>
    simp only [literalValue, kind, other, line]
    exact alikeResults_of_room (.number _ _) waiting _
  | truth kind other line =>
    simp only [List.mem_cons, List.not_mem_nil, or_false] at kind other
    rcases kind with kind | kind <;> rcases other with other | other
    all_goals
      simp only [literalValue, kind, other, line]
      exact alikeResults_of_room (.bool _ _) waiting _

private theorem unaryValue_alike {operator : TokenKind}
    (kind : operator = .minus ∨ operator = .bang)
    {first second : Value} (kinds : first.SameKind second) :
    AlikeResults (unaryValue operator first) (unaryValue operator second) := by
  obtain ⟨operation, _, effect⟩ := unary_instruction kind
  have effects := operation.effect_alike (.cons kinds .nil)
  rw [effect, effect] at effects
  exact .ofEffect effects

private theorem binaryValue_alike {operator : TokenKind} {layer : Layer}
    (joins : Layer.ofOperator? operator = some layer) {a b c d : Value} (lefts : a.SameKind c)
    (rights : b.SameKind d) :
    AlikeResults (binaryValue operator a b) (binaryValue operator c d) := by
  have operands : SameKinds [b, a] [d, c] := .cons rights (.cons lefts .nil)
  cases instructed joins with
  | direct operation _ effect =>
    have effects := operation.effect_alike operands
    rw [effect, effect] at effects
    exact .ofEffect effects
  | denied operation other _ effect denies =>
    have effects := operation.effect_alike operands
    rw [effect, effect] at effects
    rw [denies, denies]
    exact (AlikeResults.ofEffect effects).map fun _ _ _ => .bool _ _

private theorem In.evaluate_alike {layer : Layer} {first second : Expr} (inside : In layer first)
    (alike : Alike first second) (waiting : Nat) :
    AlikeResults (first.evaluate waiting) (second.evaluate waiting) := by
  induction inside generalizing second waiting with
  | literal kind =>
    cases alike with
    | literal tokens => exact literalValue_alike tokens waiting
  | group left right inside ih =>
    cases alike with
    | group _ _ inner => exact ih inner waiting
  | unary kind inside ih =>
    cases alike with
    | unary _ operand =>
      simp only [evaluate, operand.lastLine_eq]
      apply (ih operand waiting).bind
      intro value other kinds
      exact (unaryValue_alike kind kinds).mapError _
  | binary joins inside within ihLeft ihRight =>
    cases alike with
    | binary _ lefts rights =>
      simp only [evaluate, rights.lastLine_eq]
      apply (ihLeft lefts waiting).bind
      intro a c leftKinds
      apply (ihRight rights (waiting + 1)).bind
      intro b d rightKinds
      exact (binaryValue_alike joins leftKinds rightKinds).mapError _
  | looser inside ih => exact ih alike waiting

private theorem exists_append_of_forall₂ {first second tokens : List Token}
    (alike : List.Forall₂ Token.Alike (first ++ second) tokens) :
    ∃ front behind, tokens = front ++ behind ∧ List.Forall₂ Token.Alike first front ∧
      List.Forall₂ Token.Alike second behind := by
  induction first generalizing tokens with
  | nil => exact ⟨[], tokens, rfl, .nil, alike⟩
  | cons token first ih =>
    cases alike with
    | @cons _ other _ _ one rest =>
      obtain ⟨front, behind, rfl, fronts, behinds⟩ := ih rest
      exact ⟨other :: front, behind, rfl, .cons one fronts, behinds⟩

/-- Tokens that are alike make up trees that are alike. -/
theorem In.exists_alike {layer : Layer} {first : Expr} (inside : In layer first)
    {others : List Token} (alike : List.Forall₂ Token.Alike first.tokens others) :
    ∃ second, In layer second ∧ Alike first second ∧ second.tokens = others := by
  induction inside generalizing others with
  | @literal token kind =>
    cases alike with
    | @cons _ other _ _ one rest =>
      cases rest
      refine ⟨.literal other, .literal ?_, .literal one, rfl⟩
      cases one with
      | same => exact kind
      | number _ kind => simp [kind]
      | truth _ kind =>
        simp only [List.mem_cons, List.not_mem_nil, or_false] at kind
        rcases kind with kind | kind <;> simp [kind]
  | @group opening inner closing left right inside ih =>
    obtain ⟨front, behind, rfl, outer, last⟩ := exists_append_of_forall₂ alike
    cases outer with
    | cons start within =>
      cases last with
      | cons finish rest =>
        cases rest
        obtain ⟨second, below, similar, rfl⟩ := ih within
        obtain rfl := start.eq (by simp [left])
        obtain rfl := finish.eq (by simp [right])
        exact ⟨.group opening second closing, .group left right below,
          .group opening closing similar, rfl⟩
  | @unary operator operand kind inside ih =>
    cases alike with
    | cons start rest =>
      obtain ⟨second, below, similar, rfl⟩ := ih rest
      obtain rfl := start.eq (by rcases kind with kind | kind <;> simp [kind])
      exact ⟨.unary operator second, .unary kind below, .unary operator similar, rfl⟩
  | @binary layer left operator right joins inside within ihLeft ihRight =>
    obtain ⟨front, behind, rfl, lefts, rest⟩ := exists_append_of_forall₂ alike
    cases rest with
    | cons middle rights =>
      obtain ⟨first, firstInside, firstAlike, rfl⟩ := ihLeft lefts
      obtain ⟨second, secondInside, secondAlike, rfl⟩ := ihRight rights
      obtain rfl := middle.eq (TokenKind.not_literal_of_ofOperator? joins)
      exact ⟨.binary first operator second, .binary joins firstInside secondInside,
        .binary operator firstAlike secondAlike, rfl⟩
  | looser inside ih =>
    obtain ⟨second, inside, similar, tokens⟩ := ih alike
    exact ⟨second, .looser inside, similar, tokens⟩

private theorem Denotes.exists_alike {tokens others : List Token} {first : Expr}
    (denotes : Denotes tokens first) (alike : List.Forall₂ Token.Alike tokens others) :
    ∃ second, Denotes others second ∧ Alike first second := by
  obtain ⟨inside, eof, last, rfl⟩ := denotes
  obtain ⟨front, behind, rfl, fronts, rest⟩ := exists_append_of_forall₂ alike
  obtain ⟨second, within, similar, rfl⟩ := inside.exists_alike fronts
  cases rest with
  | cons ends rest =>
    cases rest
    obtain rfl := ends.eq (by simp [last])
    exact ⟨second, ⟨within, eof, last, rfl⟩, similar⟩

end Expr

theorem run_of_accepted {tokens : List Token} (ended : Ended tokens) (readings : Readings tokens)
    (accepted : (Assembly.ofTokens tokens .empty).errors = []) :
    ∃ expr, Denotes tokens expr ∧ ∀ machine : Machine,
      (machine.run (Assembly.ofTokens tokens .empty).chunk).outcome = expr.evaluate 0 := by
  obtain ⟨expr, eof, values, inside, last, split, _, known, grows⟩ :=
    grows_of_accepted ended readings accepted
  refine ⟨expr, ⟨inside, eof, last, split⟩, ?_⟩
  intro machine
  obtain ⟨code, final⟩ := Chunk.holds_append.mp grows.holds
  have comes := Runs.ofIn inside 0 0 [] code (grows.supplies known)
  exact Machine.outcome_of_comes machine.config comes final #[]

theorem outcome_of_compiles {config : Config} {source : String}
    (compiles : (compile config source .empty).errors = []) (machine : Machine) :
    (machine.interpret source).outcome =
      (machine.run (Assembly.ofTokens (tokensOf source) .empty).chunk).outcome.mapError .runtime := by
  have clean : (compile machine.config source .empty).errors = [] := compiles
  rw [Machine.interpret_of_compiles clean]
  rfl

theorem outcome_of_rejected {source : String} {errors : List CompileError}
    (rejected : (Assembly.ofTokens (tokensOf source) .empty).errors = errors) (some : errors ≠ [])
    (machine : Machine) : (machine.interpret source).outcome = .error (.compile errors) := by
  have reported : (compile machine.config source .empty).errors = errors := rejected
  rw [Machine.interpret_of_rejected (by rwa [reported])]
  exact congrArg (Except.error ∘ InterpretError.compile) reported

/-- A sentence that fits comes to what its expression comes to. -/
theorem outcome_of_denotes {source : String} {expr : Expr} (denotes : Denotes (tokensOf source) expr)
    (room : expr.numbers.length ≤ maxConstants) (fits : expr.nesting ≤ maxNesting)
    (machine : Machine) :
    (machine.interpret source).outcome = (expr.evaluate 0).mapError .runtime := by
  have ended := ended_tokensOf source
  have readings := readings_tokensOf source
  have compiles : (Assembly.ofTokens (tokensOf source) .empty).errors = [] := by
    refine (errors_ofTokens_iff ended readings .empty).mpr ⟨?_, expr, denotes, ?_, fits⟩
    all_goals
      obtain ⟨inside, eof, last, split⟩ := denotes
      rw [split]
    · intro token member
      rcases List.mem_append.mp member with member | member
      · exact inside.clean token member
      · simp [List.mem_singleton.mp member, last]
    · have none : Chunk.empty.constants.size = 0 := rfl
      simpa [last, none, numbers] using room
  obtain ⟨tree, reads, evaluates⟩ := run_of_accepted ended readings compiles
  obtain rfl := denotes.unique reads
  rw [@outcome_of_compiles machine.config source compiles machine, evaluates]

/-- Two chunks that differ in the payload of constants run alike, for the same number of
instructions; and two sources that differ in the numbers and truth values they spell come
to values of the same kind, or to the same fault on the same line. -/
theorem faults_ignore_payloads :
    (∀ first second : Chunk, first.Alike second → ∀ machine other : Machine, ∃ count,
      first.Executes ⟨0, []⟩ count (machine.run first).outcome (machine.run first).stack ∧
      second.Executes ⟨0, []⟩ count (other.run second).outcome (other.run second).stack ∧
      AlikeResults (machine.run first).outcome (other.run second).outcome ∧
      SameKinds (machine.run first).stack (other.run second).stack) ∧
    ∀ (config : Config) (first second : String), (compile config first .empty).errors = [] →
      (compile config second .empty).errors = [] →
      List.Forall₂ Token.Alike (tokensOf first) (tokensOf second) → ∀ machine other : Machine,
      AlikeResults (machine.interpret first).outcome (other.interpret second).outcome := by
  constructor
  · intro first second alike machine other
    obtain ⟨count, run⟩ := machine.run_executes first
    obtain ⟨result, left, follows, results, lefts⟩ := alike.executes run .nil
    obtain ⟨_, own⟩ := other.run_executes second
    obtain ⟨rfl, rfl, rfl⟩ := follows.unique own
    exact ⟨count, run, own, results, lefts⟩
  · intro config first second compiles alsoCompiles alike machine other
    obtain ⟨expr, denotes, evaluates⟩ :=
      run_of_accepted (ended_tokensOf first) (readings_tokensOf first) compiles
    obtain ⟨tree, alsoDenotes, alsoEvaluates⟩ :=
      run_of_accepted (ended_tokensOf second) (readings_tokensOf second) alsoCompiles
    obtain ⟨similar, reads, trees⟩ := denotes.exists_alike alike
    obtain rfl := reads.unique alsoDenotes
    rw [outcome_of_compiles compiles, outcome_of_compiles alsoCompiles, evaluates, alsoEvaluates]
    exact (denotes.1.evaluate_alike trees 0).mapError _

/-- A constant that is put before a truth value, and the comparison of the two. -/
def comparing (number : Float) (truth : Bool) : Chunk :=
  { code := #[0, 0, 0, 1, 6, 13], lines := #[1, 1, 2, 2, 2, 3]
    constants := #[.number number, .bool truth], constants_size := by simp [maxConstants] }

/-- Neither run gets past the comparison, be the number 1 or NaN. -/
theorem faults_ignore_payloads_of_comparison :
    (comparing 1 true).Alike (comparing (0 / 0) false) ∧
    (∀ machine other : Machine, ∃ count,
      (comparing 1 true).Executes ⟨0, []⟩ count (machine.run (comparing 1 true)).outcome
        (machine.run (comparing 1 true)).stack ∧
      (comparing (0 / 0) false).Executes ⟨0, []⟩ count
        (other.run (comparing (0 / 0) false)).outcome
        (other.run (comparing (0 / 0) false)).stack ∧
      AlikeResults (machine.run (comparing 1 true)).outcome
        (other.run (comparing (0 / 0) false)).outcome ∧
      SameKinds (machine.run (comparing 1 true)).stack
        (other.run (comparing (0 / 0) false)).stack) ∧
    (compile {} "1 <\ntrue" .empty).errors = [] ∧ (compile {} "20 <\nfalse" .empty).errors = [] ∧
    List.Forall₂ Token.Alike (tokensOf "1 <\ntrue") (tokensOf "20 <\nfalse") ∧
    ∀ machine other : Machine, AlikeResults (machine.interpret "1 <\ntrue").outcome
      (other.interpret "20 <\nfalse").outcome := by
  have alike : (comparing 1 true).Alike (comparing (0 / 0) false) :=
    ⟨rfl, rfl, .cons (.number _ _) (.cons (.bool _ _) .nil)⟩
  have first : (compile {} "1 <\ntrue" .empty).errors = [] := by decide +kernel
  have second : (compile {} "20 <\nfalse" .empty).errors = [] := by decide +kernel
  have spelt : tokensOf "1 <\ntrue" =
      [⟨.number, "1", 1⟩, ⟨.less, "<", 1⟩, ⟨.kwTrue, "true", 2⟩, ⟨.eof, "", 2⟩] := by decide +kernel
  have respelt : tokensOf "20 <\nfalse" =
      [⟨.number, "20", 1⟩, ⟨.less, "<", 1⟩, ⟨.kwFalse, "false", 2⟩, ⟨.eof, "", 2⟩] := by decide +kernel
  have tokens : List.Forall₂ Token.Alike (tokensOf "1 <\ntrue") (tokensOf "20 <\nfalse") := by
    rw [spelt, respelt]
    exact .cons (.number rfl rfl rfl) (.cons (.same _)
      (.cons (.truth (by decide) (by decide) rfl) (.cons (.same _) .nil)))
  obtain ⟨chunks, sources⟩ := faults_ignore_payloads
  exact ⟨alike, chunks _ _ alike, first, second, tokens, sources {} _ _ first second tokens⟩

end StackCalc
