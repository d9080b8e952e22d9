import StackCalc.Proofs.TokenStream

/-! A scanner can be asked for a token at any time, or for the next item of an iteration. Both draw
on the same tokens, so that in any order of requests none of them is lost and none comes twice;
but only an item that is the end finishes the iteration. -/

namespace StackCalc

namespace Scanner

/-- The next token, or the next item of the iteration. -/
inductive Request where
  | token
  | item
  deriving DecidableEq

def answer (scanner : Scanner) : Request → Option Token × Scanner
  | .token => (some scanner.scanToken.1, scanner.scanToken.2)
  | .item => scanner.next

/-- Requests one after another, each with its answer. -/
def exchanges (scanner : Scanner) : List Request → List (Request × Option Token)
  | [] => []
  | request :: requests =>
    (request, (scanner.answer request).1) :: (scanner.answer request).2.exchanges requests

/-- All the tokens that are handed out. -/
def drawn (scanner : Scanner) (requests : List Request) : List Token :=
  (scanner.exchanges requests).filterMap Prod.snd

def after (scanner : Scanner) (requests : List Request) : Scanner :=
  requests.foldl (fun scanner request => (scanner.answer request).2) scanner

/-- The items of an iteration up to its end. -/
inductive Collects : Scanner → List Token → Prop where
  | stop {scanner : Scanner} (none : scanner.next.1 = .none) : Collects scanner []
  | item {scanner : Scanner} {token : Token} {tokens : List Token}
      (some : scanner.next.1 = .some token) (rest : Collects scanner.next.2 tokens) :
      Collects scanner (token :: tokens)

/-- The token depends on the place in the text, and not on how far the iteration is. -/
theorem scanToken_congr {scanner other : Scanner} (rest : other.rest = scanner.rest)
    (line : other.line = scanner.line) : other.scanToken.1 = scanner.scanToken.1 ∧
      other.scanToken.2.rest = scanner.scanToken.2.rest ∧
      other.scanToken.2.line = scanner.scanToken.2.line := by
  unfold scanToken
  rw [rest, line]
  split <;> exact ⟨rfl, rfl, rfl⟩

private theorem finished_scanToken (scanner : Scanner) :
    scanner.scanToken.2.finished = scanner.finished := by
  unfold scanToken
  split <;> rfl

private theorem Yields.congr {scanner other : Scanner} {tokens : List Token}
    (yields : Yields scanner tokens) (rest : other.rest = scanner.rest)
    (line : other.line = scanner.line) : Yields other tokens := by
  induction yields generalizing other with
  | last kind =>
    obtain ⟨token, -, -⟩ := scanToken_congr rest line
    rw [← token] at kind ⊢
    exact .last kind
  | more kind _ ih =>
    obtain ⟨token, rests, lines⟩ := scanToken_congr rest line
    have later := ih rests lines
    rw [← token] at kind ⊢
    exact .more kind later

/-- At the end a scanner stays where it is. -/
theorem yields_of_eof {scanner : Scanner} (last : scanner.scanToken.1.kind = .eof) :
    Yields scanner.scanToken.2 [scanner.scanToken.1] := by
  have found : ∃ line, scanner.scanToken =
      (⟨.eof, "", line⟩, { scanner with rest := [], line }) := by
    unfold scanToken at last ⊢
    split at last
    next line _ => exact ⟨line, rfl⟩
    next line c rest _ => exact absurd last ((Lexeme.sound_read c rest).token _).inner
  obtain ⟨line, found⟩ := found
  rw [found]
  exact .last rfl

private theorem Yields.length_le {scanner : Scanner} {tokens : List Token}
    (yields : Yields scanner tokens) : tokens.length ≤ scanner.rest.length + 1 := by
  induction yields with
  | last kind => simp
  | @more scanner tokens kind rest ih =>
    have shorter := scanToken_shorter scanner kind
    rw [List.length_cons]
    omega

section Requests

variable {scanner : Scanner} {body : List Token} {eof : Token}

/-- One more token is drawn, and the end again and again. -/
theorem Yields.draw (yields : Yields scanner (body ++ [eof])) :
    scanner.scanToken.1 = body.head?.getD eof ∧
      Yields scanner.scanToken.2 (body.tail ++ [eof]) := by
  cases body with
  | nil =>
    cases yields with
    | last kind => exact ⟨rfl, yields_of_eof kind⟩
    | more _ rest => cases rest
  | cons token body =>
    generalize same : token :: body ++ [eof] = tokens at yields
    cases yields with
    | last kind => simp at same
    | more _ rest =>
      obtain ⟨rfl, rfl⟩ := List.cons.inj same
      exact ⟨rfl, rest⟩

private theorem answer_of_finished (finished : scanner.finished = true) :
    scanner.answer .item = (none, scanner) :=
  if_pos finished

private theorem next_of_unfinished (unfinished : scanner.finished = false) :
    scanner.next = (some scanner.scanToken.1,
      { scanner.scanToken.2 with finished := scanner.scanToken.1.kind == .eof }) := by
  rw [next, if_neg (by simp [unfinished])]

private theorem Yields.answer (yields : Yields scanner (body ++ [eof])) (request : Request)
    (going : ¬ (request = .item ∧ scanner.finished = true)) :
    (scanner.answer request).1 = some (body.head?.getD eof) ∧
      Yields (scanner.answer request).2 (body.tail ++ [eof]) := by
  obtain ⟨token, rest⟩ := yields.draw
  cases request with
  | token => exact ⟨congrArg some token, rest⟩
  | item =>
    have unfinished : scanner.finished = false := by simpa using going
    rw [Scanner.answer, next_of_unfinished unfinished]
    exact ⟨congrArg some token, rest.congr rfl rfl⟩

/-- The iteration is over, or one more token is drawn. -/
theorem Yields.answer_cases (yields : Yields scanner (body ++ [eof])) (request : Request) :
    scanner.answer request = (none, scanner) ∨
      (scanner.answer request).1 = some (body.head?.getD eof) ∧
        Yields (scanner.answer request).2 (body.tail ++ [eof]) := by
  by_cases ended : request = .item ∧ scanner.finished = true
  · obtain ⟨rfl, finished⟩ := ended
    exact .inl (answer_of_finished finished)
  · exact .inr (yields.answer request ended)

private theorem drawn_cons_none {request : Request}
    (ended : scanner.answer request = (none, scanner))
    (requests : List Request) : scanner.drawn (request :: requests) = scanner.drawn requests := by
  simp [drawn, exchanges, ended]

private theorem drawn_cons_some {request : Request} {token : Token}
    (some : (scanner.answer request).1 = .some token) (requests : List Request) :
    scanner.drawn (request :: requests) =
      token :: (scanner.answer request).2.drawn requests := by
  simp [drawn, exchanges, some]

private theorem after_cons (scanner : Scanner) (request : Request) (requests : List Request) :
    scanner.after (request :: requests) = (scanner.answer request).2.after requests := rfl

/-- The tokens are handed out in order, and then the end again and again. -/
theorem Yields.drawn (yields : Yields scanner (body ++ [eof])) (requests : List Request) :
    let drawn := scanner.drawn requests
    drawn = body.take drawn.length ++ List.replicate (drawn.length - body.length) eof ∧
      Yields (scanner.after requests) (body.drop drawn.length ++ [eof]) := by
  -- What is left to be drawn is carried along; a finished iteration takes nothing from it.
  induction requests generalizing scanner body with
  | nil => exact ⟨by simp [Scanner.drawn, exchanges], yields⟩
  | cons request requests ih =>
    rw [after_cons]
    rcases yields.answer_cases request with ended | ⟨token, rest⟩
    · rw [drawn_cons_none ended, ended]
      exact ih yields
    · obtain ⟨order, later⟩ := ih rest
      rw [drawn_cons_some token]
      generalize (scanner.answer request).2.drawn requests = more at order later
      cases body with
      | nil => simpa [List.replicate_succ] using And.intro order later
      | cons first body => simpa using And.intro order later

private theorem Yields.exists_later (yields : Yields scanner (body ++ [eof])) (request : Request) :
    ∃ later, later <:+ body ∧ Yields (scanner.answer request).2 (later ++ [eof]) := by
  rcases yields.answer_cases request with ended | ⟨_, rest⟩
  · rw [ended]
    exact ⟨body, List.suffix_refl _, yields⟩
  · exact ⟨body.tail, List.tail_suffix _, rest⟩

/-- An iteration that is not over has the tokens that are left for its items. -/
theorem Yields.collects {tokens : List Token} (yields : Yields scanner tokens)
    (unfinished : scanner.finished = false) : Collects scanner tokens := by
  induction yields with
  | @last scanner kind =>
    have step := next_of_unfinished unfinished
    refine .item (congrArg Prod.fst step) (.stop ?_)
    rw [step, next, if_pos (by simp [kind])]
  | @more scanner tokens kind _ ih =>
    have still := scanner.finished_scanToken.trans unfinished
    have mark : (scanner.scanToken.1.kind == .eof) = scanner.scanToken.2.finished := by
      rw [still]
      exact beq_false_of_ne kind
    have step := next_of_unfinished unfinished
    rw [mark] at step
    refine .item (congrArg Prod.fst step) ?_
    rw [step]
    exact ih still

private theorem Yields.remaining {tokens : List Token} (yields : Yields scanner tokens)
    (unfinished : scanner.finished = false) : scanner.remaining.1 = tokens := by
  obtain ⟨others, collected, same⟩ := collect_yields #[] scanner
  rw [collected.unique yields] at same
  simpa [Scanner.remaining, unfinished] using same

/-- What an iteration has to give, from here on. -/
theorem Yields.iteration (yields : Yields scanner (body ++ [eof])) :
    (scanner.answer .item).1 =
        (if scanner.finished then none else some (body.head?.getD eof)) ∧
      Collects scanner scanner.remaining.1 ∧
      scanner.remaining.1 = if scanner.finished then [] else body ++ [eof] := by
  cases finished : scanner.finished with
  | true =>
    have item := answer_of_finished finished
    have none : scanner.remaining.1 = [] := by simp [Scanner.remaining, finished]
    rw [item, none]
    exact ⟨rfl, .stop (congrArg Prod.fst item), rfl⟩
  | false =>
    rw [yields.remaining finished]
    exact ⟨(yields.answer .item (by simp [finished])).1, yields.collects finished, rfl⟩

variable (last : eof.kind = .eof) (inner : ∀ token ∈ body, token.kind ≠ .eof)

include last inner

/-- Only an item that is the end finishes the iteration. -/
theorem Yields.finished_answer (yields : Yields scanner (body ++ [eof])) (request : Request) :
    (scanner.answer request).2.finished = true ↔ scanner.finished = true ∨
      (.item, some eof) = (request, (scanner.answer request).1) := by
  cases request with
  | token => simp [Scanner.answer, finished_scanToken]
  | item =>
    cases finished : scanner.finished with
    | true => simp [answer_of_finished finished, finished]
    | false =>
      have token := yields.draw.1
      rw [Scanner.answer, next_of_unfinished finished, token]
      cases body with
      | nil => simp [last]
      | cons first body =>
        have other : eof ≠ first := by
          rintro rfl
          exact inner eof List.mem_cons_self last
        simp [inner first List.mem_cons_self, other]

private theorem Yields.finished_after (yields : Yields scanner (body ++ [eof]))
    (requests : List Request) : (scanner.after requests).finished = true ↔
      scanner.finished = true ∨ (.item, some eof) ∈ scanner.exchanges requests := by
  induction requests generalizing scanner body with
  | nil => simp [after, Scanner.exchanges]
  | cons request requests ih =>
    obtain ⟨later, suffix, rest⟩ := yields.exists_later request
    rw [after_cons, ih (fun token member => inner token (suffix.subset member)) rest,
      yields.finished_answer last inner, Scanner.exchanges, List.mem_cons, or_assoc]

end Requests

end Scanner

/-- However requests for tokens and for items are mixed, the tokens of the source are handed out
one after another, each of them once, and then the end as often as it is asked for. There is no
answer to a request for an item, and only to such a request, once an item was the end. What is left
for the iteration comes to an end as well: nothing, if an item was the end, and otherwise the tokens
that have not been handed out, or the end once more. -/
theorem requests_draw_tokens (source : String) (requests : List Scanner.Request) :
    ∃ body eof, tokensOf source = body ++ [eof] ∧ eof.kind = .eof ∧
      (∀ token ∈ body, token.kind ≠ .eof) ∧ body.length ≤ source.length ∧
      let scanner := Scanner.ofString source
      let drawn := scanner.drawn requests
      let reached := scanner.after requests
      let ended := (.item, some eof) ∈ scanner.exchanges requests
      drawn = body.take drawn.length ++ List.replicate (drawn.length - body.length) eof ∧
      (reached.answer .token).1 = some (body[drawn.length]?.getD eof) ∧
      ((reached.answer .item).1 = if ended then none else some (body[drawn.length]?.getD eof)) ∧
      (reached.Collects reached.remaining.1) ∧
      reached.remaining.1 = if ended then [] else body.drop drawn.length ++ [eof] := by
  obtain ⟨body, eof, split, last, inner⟩ := ended_tokensOf source
  have fresh : Scanner.Yields (.ofString source) (body ++ [eof]) :=
    split ▸ Scanner.tokensOf_yields source
  have few := fresh.length_le
  rw [List.length_append, Scanner.ofString, String.length_toList] at few
  obtain ⟨order, left⟩ := fresh.drawn requests
  have ended := fresh.finished_after last inner requests
  have unfinished : (Scanner.ofString source).finished = false := rfl
  simp only [unfinished, Bool.false_eq_true, false_or] at ended
  have token := left.draw.1
  obtain ⟨item, collects, rest⟩ := left.iteration
  simp only [List.head?_drop, ended] at token item rest
  exact ⟨body, eof, split, last, inner, Nat.le_of_add_le_add_right few, order,
    congrArg some token, item, collects, rest⟩

end StackCalc
