import StackCalc.Proofs.Numbering

/-! The parser looks one token ahead. An objection to the token in view comes before the
reports on error tokens behind it; an objection to the token before comes when they
have been passed. So the report on the first error token parts the directives in two:
those that are due before it, and those that are due behind it. -/

namespace StackCalc

open Relation

namespace CompileError

/-- The place from which an error in numbered tokens is seen: two of the objections are
to a token that has been consumed, with the next one in view. -/
def seenFrom (error : CompileError) : Nat :=
  if error.message ∈ ["Expect expression.", "Too many constants in one chunk."] then
    error.line + 1
  else error.line

/-- The error is at the token whose place its line gives. -/
def Cites (tokens : List Token) (error : CompileError) : Prop :=
  ∃ token, tokens[error.line]? = some token ∧ token.kind ≠ .error ∧
    error = .atToken token error.message

end CompileError

/-- Tokens on lines of their own, with the first error token among them. -/
structure Flawed (tokens : List Token) (place : Nat) (flaw : Token) : Prop where
  ended : Ended tokens
  lines : ∀ {line : Nat} {token : Token}, tokens[line]? = some token → token.line = line
  found : tokens[place]? = some flaw
  kind : flaw.kind = .error
  clean : ∀ {line : Nat} {token : Token}, line < place → tokens[line]? = some token →
    token.kind ≠ .error

namespace Directive

variable (tokens : List Token) (place : Nat)

/-- Due while the first error token is still out of view. -/
def Early (directive : Directive) : Prop :=
  ∀ error, Assembly.Raises directive error → error.Cites tokens ∧ error.seenFrom < place

/-- Due once the first error token has been passed. -/
def Late (directive : Directive) : Prop :=
  directive.isLexical ∨
    ∀ error, Assembly.Raises directive error → error.Cites tokens ∧ place ≤ error.seenFrom

def Parted (flaw : Token) (directives : List Directive) : Prop :=
  ∃ first second, directives = first ++ .lexical flaw :: second ∧
    (∀ directive ∈ first, directive.Early tokens place) ∧
    ∀ directive ∈ second, directive.Late tokens place

private theorem Parted.append {tokens : List Token} {place : Nat} {flaw : Token}
    {directives more : List Directive} (parted : Parted tokens place flaw directives)
    (late : ∀ directive ∈ more, directive.Late tokens place) :
    Parted tokens place flaw (directives ++ more) := by
  obtain ⟨first, second, rfl, before, behind⟩ := parted
  refine ⟨first, second ++ more, by simp, before, ?_⟩
  intro directive member
  exact (List.mem_append.mp member).elim (behind directive) (late directive)

end Directive

namespace Parser

open Directive

/-- Of the tokens, `count` are consumed or in view. -/
structure Scans (tokens : List Token) (place : Nat) (flaw : Token) (count : Nat)
    (parser : Parser) : Prop where
  rest : parser.rest = tokens.drop count
  before : count ≤ place → ∀ directive ∈ parser.directives, directive.Early tokens place
  behind : place < count → Parted tokens place flaw parser.directives.toList

/-- A clean token is in view. -/
structure Views (tokens : List Token) (place : Nat) (flaw : Token) (parser : Parser) : Prop where
  scans : Scans tokens place flaw (parser.current.line + 1) parser
  current : tokens[parser.current.line]? = some parser.current
  clean : parser.current.kind ≠ .error

/-- A clean token is in view, and the one before it is the last clean token in front of it:
the first error token is passed if it is not behind the place next to that. -/
structure Reads (tokens : List Token) (place : Nat) (flaw : Token) (parser : Parser) : Prop
    extends Views tokens place flaw parser where
  previous : tokens[parser.previous.line]? = some parser.previous
  cleanBefore : parser.previous.kind ≠ .error
  passed : place ≤ parser.previous.line + 1 ↔ place < parser.current.line

variable {tokens : List Token} {place count : Nat} {flaw : Token} {parser : Parser}

private theorem Views.ne (views : Views tokens place flaw parser)
    (flawed : Flawed tokens place flaw) : parser.current.line ≠ place := by
  rintro rfl
  have same := flawed.found.symm.trans views.current
  cases same
  exact views.clean flawed.kind

private theorem Scans.getElem?_rest (scans : Scans tokens place flaw count parser) (offset : Nat) :
    parser.rest[offset]? = tokens[count + offset]? := by
  rw [scans.rest, List.getElem?_drop]

section Skipping

variable {skipped rest : List Token} {token : Token}

private theorem Scans.lands (scans : Scans tokens place flaw count parser)
    (flawed : Flawed tokens place flaw) (split : parser.rest = skipped ++ token :: rest) :
    token.line = count + skipped.length ∧ tokens[token.line]? = some token ∧
      rest = tokens.drop (token.line + 1) := by
  have here : tokens[count + skipped.length]? = some token := by
    rw [← scans.getElem?_rest, split, List.getElem?_append_right (Nat.le_refl _), Nat.sub_self,
      List.getElem?_cons_zero]
  have line := flawed.lines here
  refine ⟨line, by rwa [line], ?_⟩
  have whole := scans.rest.symm.trans split
  rw [line, Nat.add_assoc, ← List.drop_drop, whole, ← List.drop_drop, List.drop_left]
  rfl

/-- What is skipped before the first error token is nothing, and with it begins what is
skipped there. -/
theorem Scans.skipped_cases (scans : Scans tokens place flaw count parser)
    (flawed : Flawed tokens place flaw) (split : parser.rest = skipped ++ token :: rest)
    (errors : ∀ error ∈ skipped, error.kind = .error) (clean : token.kind ≠ .error) :
    (count < place ∧ token.line < place ∧ skipped = []) ∨
      (count = place ∧ place < token.line ∧ ∃ more, skipped = flaw :: more) ∨
      (place < count ∧ place < token.line) := by
  obtain ⟨line, _⟩ := scans.lands flawed split
  have next : tokens[count]? = (skipped ++ token :: rest)[0]? := by
    rw [← split, scans.getElem?_rest, Nat.add_zero]
  rcases Nat.lt_trichotomy count place with before | rfl | behind
  · cases skipped with
    | nil =>
      rw [List.length_nil] at line
      exact .inl ⟨before, by omega, rfl⟩
    | cons error more =>
      exact absurd (errors error List.mem_cons_self) (flawed.clean before next)
  · have first := flawed.found.symm.trans next
    cases skipped with
    | nil =>
      cases first
      exact absurd flawed.kind clean
    | cons error more =>
      cases first
      rw [List.length_cons] at line
      exact .inr (.inl ⟨rfl, by omega, more, rfl⟩)
  · exact .inr (.inr ⟨behind, by omega⟩)

end Skipping

private theorem late_skipped {skipped : List Token}
    (errors : ∀ error ∈ skipped, error.kind = .error) :
    ∀ directive ∈ skipped.map Directive.lexical, directive.Late tokens place := by
  intro directive member
  obtain ⟨error, inside, rfl⟩ := List.mem_map.mp member
  exact .inl (isLexical_lexical (errors error inside))

/-- Bringing up a token keeps the parting, and makes it when the first error token is
passed. -/
theorem Scans.advance (scans : Scans tokens place flaw count parser)
    (flawed : Flawed tokens place flaw) (more : ∃ token ∈ parser.rest, token.kind ≠ .error) :
    Views tokens place flaw parser.advance ∧
      (place ≤ count ↔ place < parser.advance.current.line) := by
  rcases pull_cases { parser with previous := parser.current } parser.rest with
    ⟨skipped, token, rest, split, errors, clean, result⟩ | ⟨errors, _⟩
  · obtain ⟨line, here, remaining⟩ := scans.lands flawed split
    rw [Parser.advance, result]
    -- The first error token is still to come, or is skipped here, or was skipped before.
    rcases scans.skipped_cases flawed split errors clean with
      ⟨before, upTo, rfl⟩ | ⟨rfl, beyond, others, rfl⟩ | ⟨behind, beyond⟩
    · refine ⟨⟨⟨remaining, fun _ => ?_, fun late => ?_⟩, here, clean⟩, ?_⟩
      · simpa using scans.before (Nat.le_of_lt before)
      · exact absurd late (by simp only; omega)
      · simp only
        omega
    · refine ⟨⟨⟨remaining, fun early => ?_, fun _ => ?_⟩, here, clean⟩, ?_⟩
      · exact absurd early (by simp only; omega)
      · refine ⟨parser.directives.toList, others.map .lexical, by simp, ?_, ?_⟩
        · simpa using scans.before (Nat.le_refl _)
        · exact late_skipped fun error member => errors error (.tail _ member)
      · simp only
        omega
    · refine ⟨⟨⟨remaining, fun early => ?_, fun _ => ?_⟩, here, clean⟩, ?_⟩
      · exact absurd early (by simp only; omega)
      · simpa using (scans.behind behind).append (late_skipped errors)
      · simp only
        omega
  · obtain ⟨token, member, clean⟩ := more
    exact absurd (errors token member) clean

/-- With nothing clean behind it, the token in view is the last. -/
theorem Views.last (views : Views tokens place flaw parser) (flawed : Flawed tokens place flaw)
    (none : ¬ ∃ token ∈ parser.rest, token.kind ≠ .error) :
    parser.rest = [] ∧ place < parser.current.line := by
  obtain ⟨inside, current⟩ := List.getElem?_eq_some_iff.mp views.current
  have split := List.take_append_drop parser.current.line tokens
  rw [List.drop_eq_getElem_cons inside, current, ← views.scans.rest] at split
  have ended := flawed.ended
  rw [← split] at ended
  have empty := ended.of_suffix.eq_nil_of_errors (by simpa using none)
  have size := congrArg List.length (views.scans.rest.symm.trans empty)
  rw [List.length_drop, List.length_nil] at size
  have before := (List.getElem?_eq_some_iff.mp flawed.found).1
  have other := views.ne flawed
  exact ⟨empty, by omega⟩

private theorem Views.advance (views : Views tokens place flaw parser)
    (flawed : Flawed tokens place flaw) : Reads tokens place flaw parser.advance := by
  by_cases more : ∃ token ∈ parser.rest, token.kind ≠ .error
  · obtain ⟨next, passed⟩ := views.scans.advance flawed more
    refine ⟨next, ?_, ?_, ?_⟩
    · rw [previous_advance]
      exact views.current
    · rw [previous_advance]
      exact views.clean
    · rwa [previous_advance]
  · obtain ⟨empty, behind⟩ := views.last flawed more
    have stays : parser.advance = { parser with previous := parser.current } := by
      simp [Parser.advance, empty, pull]
    rw [stays]
    have scans := views.scans
    exact ⟨⟨⟨scans.rest, scans.before, scans.behind⟩, views.current, views.clean⟩, views.current,
      views.clean, fun _ => behind, fun _ => Nat.le_succ_of_le (Nat.le_of_lt behind)⟩

private theorem Reads.direct (reads : Reads tokens place flaw parser)
    (flawed : Flawed tokens place flaw)
    {directive : Directive}
    (early : parser.current.line < place → directive.Early tokens place)
    (late : place < parser.current.line → directive.Late tokens place) :
    Reads tokens place flaw (parser.direct directive) where
  scans := by
    refine ⟨reads.scans.rest, ?_, ?_⟩
    · intro before other member
      rcases Array.mem_push.mp member with member | rfl
      · exact reads.scans.before before other member
      · exact early before
    · intro behind
      have passed : place < parser.current.line :=
        Nat.lt_of_le_of_ne (Nat.le_of_lt_succ behind) (reads.ne flawed).symm
      simpa [Parser.direct] using (reads.scans.behind behind).append
        (List.forall_mem_singleton.mpr (late passed))
  current := reads.current
  clean := reads.clean
  previous := reads.previous
  cleanBefore := reads.cleanBefore
  passed := reads.passed

/-- An objection to the token that was consumed, or its number being one too many. -/
theorem Reads.directPrevious (reads : Reads tokens place flaw parser)
    (flawed : Flawed tokens place flaw) {directive : Directive} {message : String}
    (raises : ∀ error, Assembly.Raises directive error → error = .atToken parser.previous message)
    (after : message ∈ ["Expect expression.", "Too many constants in one chunk."]) :
    Reads tokens place flaw (parser.direct directive) := by
  have cites : (CompileError.atToken parser.previous message).Cites tokens :=
    ⟨_, reads.previous, reads.cleanBefore, rfl⟩
  have seen : (CompileError.atToken parser.previous message).seenFrom = parser.previous.line + 1 :=
    if_pos after
  have passed := reads.passed
  apply reads.direct flawed
  · intro before error raised
    rw [raises error raised, seen]
    exact ⟨cites, by omega⟩
  · refine fun behind => .inr fun error raised => ?_
    rw [raises error raised, seen]
    exact ⟨cites, by omega⟩

private theorem Reads.directCurrent (reads : Reads tokens place flaw parser)
    (flawed : Flawed tokens place flaw) {message : String}
    (after : message ∉ ["Expect expression.", "Too many constants in one chunk."]) :
    Reads tokens place flaw (parser.direct (.report (.atToken parser.current message))) := by
  have cites : (CompileError.atToken parser.current message).Cites tokens :=
    ⟨_, reads.current, reads.clean, rfl⟩
  have seen : (CompileError.atToken parser.current message).seenFrom = parser.current.line :=
    if_neg after
  apply reads.direct flawed
  · rintro before _ ⟨⟩
    rw [seen]
    exact ⟨cites, before⟩
  · refine fun behind => .inr ?_
    rintro _ ⟨⟩
    rw [seen]
    exact ⟨cites, Nat.le_of_lt behind⟩

private theorem Reads.directOperation (reads : Reads tokens place flaw parser)
    (flawed : Flawed tokens place flaw) (operation : Operation) (line : Nat) :
    Reads tokens place flaw (parser.direct (.operation operation line)) :=
  reads.direct flawed (fun _ => nofun) (fun _ => .inr nofun)

private theorem Reads.step {before after : Parser} (reads : Reads tokens place flaw before)
    (flawed : Flawed tokens place flaw) (step : Step before after) :
    Reads tokens place flaw after := by
  cases step with
  | advance => exact reads.toViews.advance flawed
  | operation => exact reads.directOperation flawed _ _
  | number =>
    refine reads.directPrevious flawed ?_ (show Objection.tooManyConstants.message ∈ _ by decide)
    rintro _ ⟨⟩
    rfl
  | unfit =>
    refine reads.directPrevious flawed ?_ (show Objection.expectExpression.message ∈ _ by decide)
    rintro _ ⟨⟩
    rfl
  | @blocked objection syntactic =>
    apply reads.directCurrent flawed
    simp only [List.mem_cons, List.not_mem_nil, or_false] at syntactic
    rcases syntactic with rfl | rfl | rfl <;> decide

private theorem Reads.steps {before after : Parser} (reads : Reads tokens place flaw before)
    (flawed : Flawed tokens place flaw) (steps : Steps before after) :
    Reads tokens place flaw after := by
  induction steps with
  | refl => exact reads
  | tail _ step ih => exact ih.step flawed step

private theorem reads_start (flawed : Flawed tokens place flaw) :
    Reads tokens place flaw (ofTokens tokens).advance.advance := by
  have scans : Scans tokens place flaw 0 (ofTokens tokens) :=
    ⟨rfl, fun _ => by simp [ofTokens], nofun⟩
  have more : ∃ token ∈ (ofTokens tokens).rest, token.kind ≠ .error := by
    obtain ⟨body, eof, rfl, kind, _⟩ := flawed.ended
    exact ⟨eof, by simp [ofTokens], by simp [kind]⟩
  exact (scans.advance flawed more).1.advance flawed

/-- Either reading stops before the first error token, or the report on it parts the
directives. -/
theorem directivesOf_parted (flawed : Flawed tokens place flaw) :
    (∀ directive ∈ directivesOf tokens, directive.Early tokens place) ∨
      Parted tokens place flaw (directivesOf tokens) := by
  have read := (reads_start flawed).steps flawed
    ((expression_steps_succ (expression_steps 1023) .assignment _).trans
      (expect_steps _ .eof (show .expectEnd ∈ _ by decide)))
  have done : Reads tokens place flaw ((readAll tokens).emit [.return]) :=
    read.directOperation flawed .return _
  rcases Nat.lt_or_gt_of_ne (done.ne flawed) with before | behind
  · refine .inl fun directive member => ?_
    exact done.scans.before before directive (Array.mem_toList_iff.mp member)
  · exact .inr (done.scans.behind (Nat.lt_succ_of_lt behind))

end Parser

end StackCalc
