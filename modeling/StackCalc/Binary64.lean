/-! Binary64 magnitudes in exact arithmetic. Every finite magnitude is a whole
number of units of 2^-1074, the least one, so rounding and comparing never leave
the natural numbers. Here a magnitude is named by its bits. -/

namespace StackCalc.Binary64

/-- The bits of infinity, above those of every finite magnitude. -/
def infinity : Nat := 0x7FF * Nat.pow 2 52

def leastPlace : Nat := 1074

def unitsInOne : Nat := Nat.pow 2 leastPlace

private theorem unitsInOne_pos : 0 < unitsInOne := by
  unfold unitsInOne
  generalize leastPlace = places
  exact Nat.two_pow_pos places

/-- The units in a finite magnitude. Magnitudes below 2^53 units are their own
count; each binade above doubles the step. -/
def units (bits : Nat) : Nat :=
  let binade := Nat.pow 2 52
  if bits < binade then bits
  else (binade + bits % binade) * Nat.pow 2 (bits / binade - 1)

/-- The whole number nearest to a quotient; halfway, the even one. -/
def roundHalfEven (num den : Nat) : Nat :=
  let whole := num / den
  let left := num % den
  if 2 * left < den then whole
  else if den < 2 * left then whole + 1
  else whole + whole % 2

/-- The bits of the magnitude nearest to a quotient. The step is one unit until
the quotient needs more than 53 bits. A carry out of the significand moves to
the next binade by itself, and from the last one to infinity. -/
def nearest (num den : Nat) : Nat :=
  let scaled := num * unitsInOne
  let step := (scaled / den).log2 - 52
  min (step * Nat.pow 2 52 + roundHalfEven scaled (den * Nat.pow 2 step)) infinity

def magnitude (x : Float) : Nat := x.toBits.toNat % Nat.pow 2 63

def isNegative (x : Float) : Bool := Nat.pow 2 63 ≤ x.toBits.toNat

def ofMagnitude (bits : Nat) : Float := Float.ofBits (UInt64.ofNat bits)

private theorem roundHalfEven_mul (whole den : Nat) (positive : 0 < den) :
    roundHalfEven (whole * den) den = whole := by
  simp [roundHalfEven, Nat.mul_div_cancel _ positive, positive]

/-- A count below two binades' worth of steps tells its own step. -/
theorem log2_steps (significand binade : Nat) (low : Nat.pow 2 52 ≤ significand)
    (high : significand < Nat.pow 2 53) :
    (significand * Nat.pow 2 binade).log2 = 52 + binade := by
  simp only [Nat.pow_eq] at low high ⊢
  have positive : 0 < 2 ^ binade := Nat.two_pow_pos binade
  rw [Nat.log2_eq_iff (by have := Nat.mul_pos (by omega : 0 < significand) positive; omega)]
  constructor
  · rw [Nat.pow_add]
    exact Nat.mul_le_mul_right _ low
  · rw [show 52 + binade + 1 = 53 + binade by omega, Nat.pow_add]
    exact Nat.mul_lt_mul_of_pos_right high positive

theorem nearest_units (bits : Nat) (finite : bits < infinity) :
    nearest (units bits) unitsInOne = bits := by
  unfold infinity at finite
  unfold nearest units infinity
  simp only [Nat.mul_div_cancel _ unitsInOne_pos]
  split
  next low =>
    have small : bits.log2 - 52 = 0 := by
      by_cases zero : bits = 0
      · subst zero; rfl
      · have := (Nat.log2_lt zero).mpr low
        omega
    simp only [Nat.pow_eq] at finite low ⊢
    rw [small, Nat.pow_zero, Nat.mul_one, roundHalfEven_mul _ _ unitsInOne_pos]
    omega
  next low =>
    have positive (places : Nat) : 0 < Nat.pow 2 places := Nat.two_pow_pos places
    have normal : 0 < bits / Nat.pow 2 52 := Nat.div_pos (Nat.le_of_not_lt low) (positive 52)
    have whole := Nat.div_add_mod bits (Nat.pow 2 52)
    have bounded := Nat.mod_lt bits (positive 52)
    have above : Nat.pow 2 52 + bits % Nat.pow 2 52 < Nat.pow 2 53 := by
      simp only [Nat.pow_eq] at bounded ⊢
      omega
    rw [log2_steps _ _ (Nat.le_add_right _ _) above, Nat.add_sub_cancel_left, Nat.mul_assoc,
      Nat.mul_comm (Nat.pow 2 (_ - 1)) unitsInOne,
      roundHalfEven_mul _ _ (Nat.mul_pos unitsInOne_pos (positive _))]
    simp only [Nat.pow_eq] at finite normal whole bounded ⊢
    omega

end StackCalc.Binary64
