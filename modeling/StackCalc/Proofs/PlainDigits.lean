import StackCalc.Numeral
import StackCalc.Proofs.LongestMatch

/-! The plain layout of a decimal number. It is always what is written for a number, and
it reads back as a number of the same magnitude. -/

namespace StackCalc

namespace Decimal

/-- How the plain layout comes about: digits with zeros behind them, or with a point between
them, or with zeros between them and the point. -/
inductive Plain (decimal : Decimal) : List Char → Prop where
  | whole (places : 0 ≤ decimal.exponent) :
      Plain decimal (decimal.digits ++ List.replicate decimal.exponent.toNat '0')
  | between {front behind : List Char} (split : decimal.digits = front ++ behind)
      (some : front ≠ []) (places : decimal.exponent = -behind.length) (more : behind ≠ []) :
      Plain decimal (front ++ '.' :: behind)
  | behind {zeros : Nat} (places : decimal.exponent = -(zeros + decimal.digits.length : Nat)) :
      Plain decimal ('0' :: '.' :: (List.replicate zeros '0' ++ decimal.digits))

variable (decimal : Decimal)

private theorem digits_ne_nil : decimal.digits ≠ [] := Nat.toDigits_ne_nil

theorem isDigit_of_mem_digits {c : Char} (member : c ∈ decimal.digits) : c.isDigit :=
  Nat.isDigit_of_mem_toDigits (by decide) (by decide) member

private theorem ofDigitChars_digits : Nat.ofDigitChars 10 decimal.digits 0 = decimal.coefficient :=
  Nat.ofDigitChars_ten_toDigits

theorem plain_cases : decimal.Plain decimal.plain := by
  have some := List.length_pos_iff.mpr decimal.digits_ne_nil
  unfold plain
  dsimp only
  split
  next none => exact .whole (by omega)
  next places =>
    split
    next fewer =>
      refine .between (List.take_append_drop _ _).symm ?_ ?_ ?_
      · exact List.ne_nil_of_length_pos (by rw [List.length_take]; omega)
      · rw [List.length_drop]; omega
      · exact List.ne_nil_of_length_pos (by rw [List.length_drop]; omega)
    next => exact .behind (by omega)

private theorem isDigit_of_mem_zeros {count : Nat} {c : Char}
    (member : c ∈ List.replicate count '0') : c.isDigit := by
  rw [List.eq_of_mem_replicate member]
  rfl

variable {decimal : Decimal} {text : List Char}

theorem Plain.written (plain : decimal.Plain text) : Written .number text := by
  have digits : ∀ c ∈ decimal.digits, DigitChar c :=
    fun c member => isDigit_iff.mp (decimal.isDigit_of_mem_digits member)
  have zeros (count : Nat) : ∀ c ∈ List.replicate count '0', DigitChar c :=
    fun c member => isDigit_iff.mp (isDigit_of_mem_zeros member)
  cases plain with
  | whole =>
    exact .whole (List.append_ne_nil_of_left_ne_nil decimal.digits_ne_nil _)
      (List.forall_mem_append.mpr ⟨digits, zeros _⟩)
  | between split some places more =>
    rw [split, List.forall_mem_append] at digits
    exact .fraction some digits.1 more digits.2
  | behind =>
    exact .fraction (List.cons_ne_nil '0' []) (zeros 1)
      (List.append_ne_nil_of_right_ne_nil _ decimal.digits_ne_nil)
      (List.forall_mem_append.mpr ⟨zeros _, digits⟩)

/-- The text reads back, as the same decimal or with its zeros among the digits. -/
theorem Plain.reads (plain : decimal.Plain text) :
    ∃ other, ofDigits? text = some other ∧ other.magnitude = decimal.magnitude := by
  have value := decimal.ofDigitChars_digits
  have digits : ∀ c ∈ decimal.digits, c.isDigit := fun c => decimal.isDigit_of_mem_digits
  have zeros (count : Nat) : ∀ c ∈ List.replicate count '0', c.isDigit :=
    fun c => isDigit_of_mem_zeros
  cases plain with
  | whole places =>
    refine ⟨_, ofDigits?_whole (List.append_ne_nil_of_left_ne_nil decimal.digits_ne_nil _)
      (List.forall_mem_append.mpr ⟨digits, zeros _⟩), ?_⟩
    have none : (-decimal.exponent).toNat = 0 := by omega
    rw [Nat.ofDigitChars_append, value, Nat.ofDigitChars_replicate_zero, magnitude, magnitude, none]
    simp [Nat.mul_comm]
  | between split some places more =>
    have parts := split ▸ digits
    rw [List.forall_mem_append] at parts
    refine ⟨decimal, ?_, rfl⟩
    rw [ofDigits?_fraction some parts.1 more parts.2, ← split, value, ← places]
  | @behind count places =>
    have fraction : ∀ c ∈ List.replicate count '0' ++ decimal.digits, c.isDigit :=
      List.forall_mem_append.mpr ⟨zeros _, digits⟩
    have same : Nat.ofDigitChars 10 (['0'] ++ (List.replicate count '0' ++ decimal.digits)) 0 =
        decimal.coefficient := by
      rw [Nat.ofDigitChars_append, Nat.ofDigitChars_append, Nat.ofDigitChars_replicate_zero,
        show Nat.ofDigitChars 10 ['0'] 0 = 0 from rfl, Nat.mul_zero, value]
    refine ⟨decimal, ?_, rfl⟩
    rw [← List.singleton_append, ofDigits?_fraction (List.cons_ne_nil '0' []) (zeros 1)
      (List.append_ne_nil_of_right_ne_nil _ decimal.digits_ne_nil) fraction, same,
      List.length_append, List.length_replicate, ← places]

end Decimal

end StackCalc
