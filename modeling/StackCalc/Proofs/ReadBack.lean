import StackCalc.Proofs.FloatBits
import StackCalc.Proofs.Payload
import StackCalc.Proofs.Placement
import StackCalc.Proofs.PlainDigits

/-! Values read back. The digits that are written for a finite magnitude stand for it again,
the scanner takes them as one number, and a sign in front of them is the operator that
changes nothing but the sign. What is not finite has no spelling. -/

namespace StackCalc

namespace Binary64

variable (num den : Nat) {scale : Nat}

private theorem roundHalfEven_scale (positive : 0 < scale) :
    roundHalfEven (num * scale) (den * scale) = roundHalfEven num den := by
  have halves : 2 * (num % den * scale) = 2 * (num % den) * scale := (Nat.mul_assoc ..).symm
  simp only [roundHalfEven, Nat.mul_div_mul_right num den positive, Nat.mul_mod_mul_right, halves,
    Nat.mul_lt_mul_right positive]

/-- What is nearest to a quotient does not depend on how it is written. -/
theorem nearest_scale (positive : 0 < scale) :
    nearest (num * scale) (den * scale) = nearest num den := by
  have scaled : num * scale * unitsInOne = num * unitsInOne * scale := Nat.mul_right_comm ..
  have step (power : Nat) : den * scale * power = den * power * scale := Nat.mul_right_comm ..
  simp only [nearest, scaled, Nat.mul_div_mul_right _ den positive, step,
    roundHalfEven_scale _ _ positive]

end Binary64

namespace Decimal

open Binary64

variable {tie : Tie} {bits : Nat} {decimal : Decimal}

private theorem magnitude_exact (finite : bits < infinity) : (exact bits).magnitude = bits := by
  have tens : Nat.pow 10 leastPlace = unitsInOne * Nat.pow 5 leastPlace := by
    unfold unitsInOne
    generalize leastPlace = places
    exact Nat.mul_pow 2 5 places
  unfold exact
  -- The places stay a variable from here on: nothing shall compute with their powers.
  generalize leastPlace = places at tens ⊢
  have whole : (-(places : Int)).toNat = 0 := by omega
  have fraction : (- -(places : Int)).toNat = places := by omega
  have positive : 0 < Nat.pow 5 places := Nat.pow_pos (by decide)
  simp only [magnitude, whole, fraction, tens]
  rw [show Nat.pow 10 0 = 1 from rfl, Nat.mul_one, nearest_scale _ _ positive,
    nearest_units bits finite]

private theorem magnitude_onGrid {exponent : Int}
    (found : onGrid tie bits exponent = some decimal) : decimal.magnitude = bits := by
  unfold onGrid at found
  have reads := List.find?_some found
  exact eq_of_beq reads

private theorem magnitude_search {grids : Nat} {exponent : Int}
    (found : search tie bits grids exponent = some decimal) : decimal.magnitude = bits := by
  induction grids generalizing exponent with
  | zero => cases found
  | succ grids ih =>
    unfold search at found
    rcases (Option.orElse_eq_some _ _ _).mp found with here | ⟨_, finer⟩
    · exact magnitude_onGrid here
    · exact ih finer

private theorem magnitude_zero : (⟨0, 0⟩ : Decimal).magnitude = 0 := by
  simp [magnitude, nearest, roundHalfEven]

/-- The fewest digits stand for the magnitude that they were looked for. -/
theorem magnitude_shortest (tie : Tie) (finite : bits < infinity) :
    (shortest tie bits).magnitude = bits := by
  unfold shortest
  split
  next zero => rw [zero, magnitude_zero]
  next =>
    dsimp only
    cases found : search tie bits 20 _ with
    | none => exact magnitude_exact finite
    | some decimal => exact magnitude_search found

end Decimal

section Scanning

variable {text : List Char}

private theorem Written.starts_with_digit (written : Written .number text) :
    ∃ c tail, text = c :: tail ∧ c.isDigit := by
  generalize same : TokenKind.number = kind at written
  cases written with
  | symbol spelt =>
    subst same
    cases spelt
  | whole some inside =>
    obtain ⟨c, tail, rfl⟩ := List.exists_cons_of_ne_nil some
    exact ⟨c, tail, rfl, isDigit_iff.mpr (inside c List.mem_cons_self)⟩
  | fraction some inside =>
    obtain ⟨c, tail, rfl⟩ := List.exists_cons_of_ne_nil some
    exact ⟨c, _, rfl, isDigit_iff.mpr (inside c List.mem_cons_self)⟩
  | quoted => cases same
  | word _ _ names =>
    subst same
    exact absurd names.mem (by decide)

/-- A number is one tile. -/
theorem Written.tiling (written : Written .number text) :
    Tiling text [⟨[], text, .number, String.ofList text⟩] [] := by
  have bare : Bare (text ++ []) := by
    obtain ⟨c, tail, rfl, digit⟩ := written.starts_with_digit
    refine bare_of_not_mem ?_ _
    intro member
    simp only [List.mem_cons, List.not_mem_nil, or_false] at member
    rcases member with rfl | rfl | rfl | rfl | rfl <;> cases digit
  have munch : Munch text [] .number (String.ofList text) := by
    apply Munch.lexeme written
    intro other longer _ front
    rw [List.append_nil] at front
    exact front.length_le
  have whole := Tiling.cons bare munch (.ended (.none bare_nil))
  rwa [List.append_nil] at whole

private theorem tokensOf_number (written : Written .number text) : ∃ line last,
    tokensOf (String.ofList text) =
      [⟨.number, String.ofList text, line⟩, ⟨.eof, "", last⟩] :=
  ⟨_, _, tokensOf_ofList written.tiling⟩

/-- A minus is a tile of its own, whatever follows. -/
theorem tokensOf_negative (written : Written .number text) : ∃ before line last,
    tokensOf (String.ofList ('-' :: text)) =
      [⟨.minus, "-", before⟩, ⟨.number, String.ofList text, line⟩, ⟨.eof, "", last⟩] := by
  have munch : Munch ['-'] text .minus "-" := munch_read '-' text 0
  exact ⟨_, _, _, tokensOf_ofList
    (Tiling.cons (bare_of_not_mem (by decide) text) munch written.tiling)⟩

end Scanning

section Outcomes

open StackCalc.Expr

variable {source : String}

private theorem literalValue_number {token : Token} {x : Float} (number : token.kind = .number)
    (reads : Numeral.read? token.lexeme = some x) : literalValue token 0 = .ok (.number x) := by
  have room : 0 < maxStack := by decide
  simp [literalValue, number, reads, room]

private theorem outcome_of_literal {token eof : Token} (tokens : tokensOf source = [token, eof])
    (kind : token.kind ∈ [.number, .kwTrue, .kwFalse, .kwNil]) (last : eof.kind = .eof)
    (machine : Machine) :
    (machine.interpret source).outcome = (literalValue token 0).mapError .runtime := by
  have denotes : Denotes (tokensOf source) (.literal token) :=
    ⟨(In.literal kind).equality, eof, last, tokens⟩
  have room : (Expr.literal token).numbers.length ≤ maxConstants :=
    Nat.le_trans (List.length_filter_le _ _) (show 1 ≤ maxConstants by decide)
  exact outcome_of_denotes denotes room (show 1 ≤ maxNesting by decide) machine

private theorem outcome_of_number {token eof : Token} {x : Float}
    (tokens : tokensOf source = [token, eof])
    (number : token.kind = .number) (last : eof.kind = .eof)
    (reads : Numeral.read? token.lexeme = some x) (machine : Machine) :
    (machine.interpret source).outcome = .ok (.number x) := by
  rw [outcome_of_literal tokens (by simp [number]) last, literalValue_number number reads]
  rfl

private theorem outcome_of_negative {minus token eof : Token} {x : Float}
    (tokens : tokensOf source = [minus, token, eof]) (sign : minus.kind = .minus)
    (number : token.kind = .number) (last : eof.kind = .eof)
    (reads : Numeral.read? token.lexeme = some x) (machine : Machine) :
    (machine.interpret source).outcome = .ok (.number (-x)) := by
  have operand : In .primary (.literal token) := .literal (by simp [number])
  have denotes : Denotes (tokensOf source) (.unary minus (.literal token)) :=
    ⟨(In.unary (.inl sign) (.looser operand)).equality, eof, last, tokens⟩
  have value : (Expr.unary minus (.literal token)).evaluate 0 = .ok (.number (-x)) := by
    rw [evaluate, evaluate, literalValue_number number reads, sign]
    rfl
  have room : (Expr.unary minus (.literal token)).numbers.length ≤ maxConstants :=
    Nat.le_trans (List.length_filter_le _ _) (show 2 ≤ maxConstants by decide)
  rw [outcome_of_denotes denotes room (show 2 ≤ maxNesting by decide), value]
  rfl

end Outcomes

namespace Numeral

open Binary64

variable {x : Float}

private theorem read?_plain (decimal : Decimal) :
    read? (String.ofList decimal.plain) = some (ofMagnitude decimal.magnitude) := by
  obtain ⟨other, reads, same⟩ := decimal.plain_cases.reads
  rw [read?, String.toList_ofList, reads, Option.map_some, same]

private theorem text_of_finite (finite : magnitude x < infinity) :
    text x = signed x .up Decimal.plain := by
  rw [text, if_neg (Nat.lt_asymm finite), if_neg (Nat.ne_of_lt finite)]

private theorem outcome_of_text (finite : magnitude x < infinity) (machine : Machine) :
    (machine.interpret (text x)).outcome = .ok (.number x) := by
  have ordered := Nat.le_of_lt finite
  have stands := Decimal.magnitude_shortest .up finite
  obtain ⟨magnitudes, positive⟩ := magnitude_ofMagnitude ordered
  rw [text_of_finite finite, signed]
  generalize Decimal.shortest .up (magnitude x) = decimal at stands ⊢
  have written := decimal.plain_cases.written
  have reads := read?_plain decimal
  rw [stands] at reads
  cases sign : isNegative x with
  | false =>
    obtain ⟨line, last, tokens⟩ := tokensOf_number written
    have same : ofMagnitude (magnitude x) = x :=
      eq_of_magnitude_eq magnitudes (positive.trans sign.symm)
    rw [if_neg (by decide), outcome_of_number tokens rfl rfl reads, same]
  | true =>
    obtain ⟨before, line, last, tokens⟩ := tokensOf_negative written
    obtain ⟨kept, negated⟩ := magnitude_neg (magnitudes.trans_le ordered)
    have same : -ofMagnitude (magnitude x) = x := by
      apply eq_of_magnitude_eq (kept.trans magnitudes)
      rw [negated, positive, sign]
      rfl
    rw [if_pos rfl, outcome_of_negative tokens rfl rfl rfl reads, same]

end Numeral

/-- What is written for a value is a source of that value, be the machine as it may: of the
same kind, and of a number all bits come back. What is written for NaN and the infinities is
no source: it is rejected at the word. -/
theorem values_read_back (machine : Machine) :
    (∀ value : Value, (∀ x, value = .number x → x.isFinite) →
      (machine.interpret value.text).outcome = .ok value) ∧
    (∀ x : Float, x.isNaN → (machine.interpret (Value.number x).text).outcome =
      .error (.compile [⟨1, .at "NaN", "Expect expression."⟩])) ∧
    ∀ x : Float, x.isInf → (machine.interpret (Value.number x).text).outcome =
      .error (.compile [⟨1, .at "inf", "Expect expression."⟩]) := by
  refine ⟨?_, ?_, ?_⟩
  · intro value finite
    cases value with
    | nil =>
      have tokens : tokensOf "nil" = [⟨.kwNil, "nil", 1⟩, ⟨.eof, "", 1⟩] := by decide +kernel
      exact outcome_of_literal tokens (by decide) rfl machine
    | bool truth =>
      cases truth with
      | true =>
        have tokens : tokensOf "true" = [⟨.kwTrue, "true", 1⟩, ⟨.eof, "", 1⟩] := by decide +kernel
        exact outcome_of_literal tokens (by decide) rfl machine
      | false =>
        have tokens : tokensOf "false" = [⟨.kwFalse, "false", 1⟩, ⟨.eof, "", 1⟩] := by decide +kernel
        exact outcome_of_literal tokens (by decide) rfl machine
    | number x => exact Numeral.outcome_of_text (Binary64.isFinite_iff.mp (finite x rfl)) machine
  · intro x nan
    have text : (Value.number x).text = "NaN" := if_pos (Binary64.isNaN_iff.mp nan)
    rw [text]
    exact outcome_of_rejected (by decide +kernel) (List.cons_ne_nil _ _) machine
  · intro x infinite
    have last := Binary64.isInf_iff.mp infinite
    have text : (Value.number x).text = if Binary64.isNegative x then "-inf" else "inf" := by
      rw [Value.text, Numeral.text, if_neg (Nat.not_lt.mpr (Nat.le_of_eq last)), if_pos last]
    rw [text]
    split
    · exact outcome_of_rejected (by decide +kernel) (List.cons_ne_nil _ _) machine
    · exact outcome_of_rejected (by decide +kernel) (List.cons_ne_nil _ _) machine

/-- The sign of zero comes back, and so does the least of all numbers, written in 326
characters; infinity is rejected behind its sign. -/
theorem values_read_back_at_the_edges :
    (Value.number (.ofBits 0x8000000000000000)).text = "-0" ∧
    (({} : Machine).interpret "-0").outcome = .ok (.number (.ofBits 0x8000000000000000)) ∧
    (({} : Machine).interpret (Value.number (.ofBits 1)).text).outcome =
      .ok (.number (.ofBits 1)) ∧
    (({} : Machine).interpret "NaN").outcome =
      .error (.compile [⟨1, .at "NaN", "Expect expression."⟩]) ∧
    (({} : Machine).interpret "-inf").outcome =
      .error (.compile [⟨1, .at "inf", "Expect expression."⟩]) := by
  have zero : (Value.number (.ofBits 0x8000000000000000)).text = "-0" := by decide +kernel
  have nan : (Value.number (.ofBits 0x7FF8000000000000)).text = "NaN" := by decide +kernel
  have infinite : (Value.number (.ofBits 0xFFF0000000000000)).text = "-inf" := by decide +kernel
  obtain ⟨values, nans, infinities⟩ := values_read_back {}
  refine ⟨zero, ?_, ?_, ?_, ?_⟩
  · rw [← zero]
    exact values _ (by rintro _ ⟨⟩; decide +kernel)
  · exact values _ (by rintro _ ⟨⟩; decide +kernel)
  · rw [← nan]
    exact nans _ (by decide +kernel)
  · rw [← infinite]
    exact infinities _ (by decide +kernel)

end StackCalc
