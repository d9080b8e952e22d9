import Mathlib
import StackCalc.Binary64

/-! The bits of a float: its sign and its magnitude. The two together are the float, negation
changes the first only, and the second tells what is finite. -/

namespace StackCalc.Binary64

open Float.Model Float.Model.UnpackedFloat

variable {sign : Sign} {exponent : BitVec 11} {mantissa : BitVec 52}

/-- The bits are those of a sign, an exponent and a mantissa. -/
theorem toNat_packComponents : (packComponents .binary64 sign exponent mantissa).toNat =
    sign.toBitVec.toNat * 2 ^ 63 + exponent.toNat * 2 ^ 52 + mantissa.toNat := by
  rw [packComponents, BitVec.toNat_append, BitVec.toNat_append,
    ← Nat.shiftLeft_add_eq_or_of_lt mantissa.isLt, ← Nat.shiftLeft_add_eq_or_of_lt exponent.isLt,
    Nat.shiftLeft_eq, Nat.shiftLeft_eq]
  omega

private theorem sign_packComponents :
    Sign.ofBitVec (unpackSign (packComponents .binary64 sign exponent mantissa)) = sign := by
  rw [unpackSign_packComponents, Sign.ofBitVec_toBitVec]

/-- All bits come about in this way. -/
theorem exists_components (bits : BitVec 64) : ∃ sign exponent mantissa,
    bits = packComponents .binary64 sign exponent mantissa :=
  ⟨_, _, _, (@packComponents_unpackSign_unpackExponent_unpackMantissa .binary64 bits).symm⟩

/-- What the components stand for. -/
theorem unpack_packComponents :
    unpack .binary64 (packComponents .binary64 sign exponent mantissa) =
      if exponent = 2047#11 then
        if mantissa = 0#52 then .infinity sign else .notANumber
      else if exponent = 0#11 then
        if some : mantissa = 0#52 then .zero sign
        else .finite sign mantissa.toNat (-1074)
          (by simpa [BitVec.toNat_pos, BitVec.pos_iff_ne_zero] using some)
      else .finite sign (2 ^ 52 + mantissa.toNat) (exponent.toNat - 1075) (by omega) := by
  have top : -1#11 = 2047#11 := rfl
  have bias : Format.binary64.exponentBias = 1023 := rfl
  have significand : (1#1 ++ mantissa).toNat = 2 ^ 52 + mantissa.toNat := by
    rw [BitVec.toNat_append, ← Nat.shiftLeft_add_eq_or_of_lt mantissa.isLt]
    rfl
  unfold UnpackedFloat.unpack
  simp only [unpackMantissa_packComponents, unpackExponent_packComponents, sign_packComponents, top,
    bias, significand]
  split
  next => rfl
  next =>
    split
    next none => simp [none]
    next => rfl

/-- Packing undoes unpacking, but for the payloads of NaN. -/
theorem pack_unpack_of_plain (plain : exponent = 2047#11 → mantissa = 0#52) :
    pack .binary64 (unpack .binary64 (packComponents .binary64 sign exponent mantissa)) =
      packComponents .binary64 sign exponent mantissa := by
  have number : isNaNBits (packComponents .binary64 sign exponent mantissa) = false := by
    rw [isNaNBits, unpackExponent_packComponents, unpackMantissa_packComponents]
    exact decide_eq_false fun both => both.2 (plain both.1)
  rw [pack_unpack, number]
  rfl

private theorem neg_unpack :
    (unpack .binary64 (packComponents .binary64 sign exponent mantissa)).neg =
    unpack .binary64 (packComponents .binary64 (-sign) exponent mantissa) := by
  rw [unpack_packComponents, unpack_packComponents]
  split
  · split <;> rfl
  · split
    · split <;> rfl
    · rfl

/-- The bits of a float are those of these components. -/
def Parts (x : Float) (sign : Sign) (exponent : BitVec 11) (mantissa : BitVec 52) : Prop :=
  x.toBits.toBitVec = packComponents .binary64 sign exponent mantissa

private theorem exists_parts (x : Float) :
    ∃ sign exponent mantissa, Parts x sign exponent mantissa :=
  exists_components x.toBits.toBitVec

namespace Parts

variable {x : Float}

private theorem toNat_eq (parts : Parts x sign exponent mantissa) : x.toBits.toNat =
    sign.toBitVec.toNat * 2 ^ 63 + exponent.toNat * 2 ^ 52 + mantissa.toNat :=
  (congrArg BitVec.toNat parts).trans toNat_packComponents

private theorem magnitude_eq (parts : Parts x sign exponent mantissa) :
    magnitude x = exponent.toNat * 2 ^ 52 + mantissa.toNat := by
  have bounded := mantissa.isLt
  have below := exponent.isLt
  rw [magnitude, parts.toNat_eq, Nat.pow_eq]
  omega

private theorem isNegative_iff (parts : Parts x sign exponent mantissa) :
    isNegative x = true ↔ sign = .negative := by
  have bounded := mantissa.isLt
  have below := exponent.isLt
  rw [isNegative, parts.toNat_eq, Nat.pow_eq, decide_eq_true_eq]
  cases sign with
  | negative =>
    have one : (Sign.toBitVec .negative).toNat = 1 := rfl
    rw [one]
    exact ⟨fun _ => rfl, fun _ => by omega⟩
  | positive =>
    have zero : (Sign.toBitVec .positive).toNat = 0 := rfl
    rw [zero]
    exact ⟨fun _ => by omega, nofun⟩

private theorem neg (parts : Parts x sign exponent mantissa)
    (plain : exponent = 2047#11 → mantissa = 0#52) : Parts (-x) (-sign) exponent mantissa := by
  have bits : (-x).toBits.toBitVec = pack .binary64 (unpack .binary64 x.toBits.toBitVec).neg := rfl
  rw [Parts, bits, parts, neg_unpack, pack_unpack_of_plain plain]

end Parts

private theorem toBits_ofBits {bits : UInt64}
    (parts : bits.toBitVec = packComponents .binary64 sign exponent mantissa)
    (plain : exponent = 2047#11 → mantissa = 0#52) : (Float.ofBits bits).toBits = bits := by
  have same : (Float.ofBits bits).toBits.toBitVec =
      pack .binary64 (unpack .binary64 bits.toBitVec) := rfl
  rw [parts, pack_unpack_of_plain plain, ← parts] at same
  exact UInt64.eq_of_toBitVec_eq same

section Classes

variable {x : Float}

private theorem plain_of_le (ordered : exponent.toNat * 2 ^ 52 + mantissa.toNat ≤ infinity) :
    exponent = 2047#11 → mantissa = 0#52 := by
  rintro rfl
  have last : (2047#11).toNat = 2047 := rfl
  rw [last, infinity, Nat.pow_eq] at ordered
  apply BitVec.eq_of_toNat_eq
  rw [BitVec.toNat_zero]
  omega

private theorem Parts.plain (parts : Parts x sign exponent mantissa)
    (ordered : magnitude x ≤ infinity) : exponent = 2047#11 → mantissa = 0#52 :=
  plain_of_le (by rwa [← parts.magnitude_eq])

private theorem Parts.unpack_eq (parts : Parts x sign exponent mantissa) :
    x.toModel.unpack = unpack .binary64 (packComponents .binary64 sign exponent mantissa) :=
  congrArg (unpack .binary64) parts

/-- The exponent tells what is finite, and the mantissa what is infinite. -/
theorem Parts.status (parts : Parts x sign exponent mantissa) :
    x.isFinite = decide (exponent ≠ 2047#11) ∧
      x.isInf = decide (exponent = 2047#11 ∧ mantissa = 0#52) ∧
      x.isNaN = decide (exponent = 2047#11 ∧ mantissa ≠ 0#52) := by
  unfold Float.isFinite Float.isInf Float.isNaN Float.Model.isFinite Float.Model.isInf
    Float.Model.isNaN
  rw [parts.unpack_eq, unpack_packComponents]
  split
  next last =>
    split
    next none => simp [last, none, UnpackedFloat.isFinite, UnpackedFloat.isInf, UnpackedFloat.isNaN]
    next some => simp [last, some, UnpackedFloat.isFinite, UnpackedFloat.isInf, UnpackedFloat.isNaN]
  next finite =>
    split
    · split <;> simp [finite, UnpackedFloat.isFinite, UnpackedFloat.isInf, UnpackedFloat.isNaN]
    · simp [finite, UnpackedFloat.isFinite, UnpackedFloat.isInf, UnpackedFloat.isNaN]

private theorem Parts.lt_iff (parts : Parts x sign exponent mantissa) :
    magnitude x < infinity ↔ exponent ≠ 2047#11 := by
  have last : (2047#11).toNat = 2047 := rfl
  have bounded := mantissa.isLt
  have below := exponent.isLt
  rw [parts.magnitude_eq, infinity, Nat.pow_eq, Ne, ← BitVec.toNat_inj, last]
  omega

private theorem Parts.eq_iff (parts : Parts x sign exponent mantissa) :
    magnitude x = infinity ↔ exponent = 2047#11 ∧ mantissa = 0#52 := by
  have last : (2047#11).toNat = 2047 := rfl
  have bounded := mantissa.isLt
  have below := exponent.isLt
  rw [parts.magnitude_eq, infinity, Nat.pow_eq, ← BitVec.toNat_inj, ← BitVec.toNat_inj, last,
    BitVec.toNat_zero]
  omega

theorem isFinite_iff : x.isFinite = true ↔ magnitude x < infinity := by
  obtain ⟨sign, exponent, mantissa, parts⟩ := exists_parts x
  rw [parts.lt_iff, parts.status.1, decide_eq_true_eq]

theorem isInf_iff : x.isInf = true ↔ magnitude x = infinity := by
  obtain ⟨sign, exponent, mantissa, parts⟩ := exists_parts x
  rw [parts.eq_iff, parts.status.2.1, decide_eq_true_eq]

theorem isNaN_iff : x.isNaN = true ↔ infinity < magnitude x := by
  obtain ⟨sign, exponent, mantissa, parts⟩ := exists_parts x
  have finite := parts.lt_iff
  have infinite := parts.eq_iff
  rw [parts.status.2.2, decide_eq_true_eq]
  constructor
  · rintro ⟨last, some⟩
    have above := Nat.le_of_not_lt fun below => finite.mp below last
    exact Nat.lt_of_le_of_ne above fun same => some (infinite.mp same.symm).2
  · intro above
    have last := Decidable.not_not.mp (mt finite.mpr (Nat.lt_asymm above))
    exact ⟨last, fun none => Nat.ne_of_gt above (infinite.mpr ⟨last, none⟩)⟩

end Classes

/-- A float is told by its magnitude and its sign. -/
theorem eq_of_magnitude_eq {x y : Float} (magnitudes : magnitude x = magnitude y)
    (signs : isNegative x = isNegative y) : x = y := by
  have first := x.toBits.toNat_lt
  have second := y.toBits.toNat_lt
  rw [magnitude, magnitude, Nat.pow_eq] at magnitudes
  rw [isNegative, isNegative, Nat.pow_eq, decide_eq_decide] at signs
  exact Float.toBits_inj.mp (UInt64.toNat_inj.mp (by omega))

theorem magnitude_neg {x : Float} (ordered : magnitude x ≤ infinity) :
    magnitude (-x) = magnitude x ∧ isNegative (-x) = !isNegative x := by
  obtain ⟨sign, exponent, mantissa, parts⟩ := exists_parts x
  have negated := parts.neg (parts.plain ordered)
  refine ⟨negated.magnitude_eq.trans parts.magnitude_eq.symm, ?_⟩
  have before := parts.isNegative_iff
  have after := negated.isNegative_iff
  cases sign with
  | negative => rw [before.mpr rfl, Bool.eq_false_iff.mpr (mt after.mp nofun)]; rfl
  | positive => rw [after.mpr rfl, Bool.eq_false_iff.mpr (mt before.mp nofun)]; rfl

theorem magnitude_ofMagnitude {bits : Nat} (ordered : bits ≤ infinity) :
    magnitude (ofMagnitude bits) = bits ∧ isNegative (ofMagnitude bits) = false := by
  have fits : bits < 2 ^ 63 := Nat.lt_of_le_of_lt ordered (by decide)
  have small : (UInt64.ofNat bits).toNat = bits :=
    UInt64.toNat_ofNat_of_lt' (Nat.lt_trans fits (by decide))
  obtain ⟨sign, exponent, mantissa, parts⟩ := exists_components (UInt64.ofNat bits).toBitVec
  have whole := (congrArg BitVec.toNat parts).trans toNat_packComponents
  have plain : exponent = 2047#11 → mantissa = 0#52 := by
    rw [UInt64.toNat_toBitVec, small] at whole
    exact plain_of_le (by omega)
  have same := toBits_ofBits parts plain
  rw [magnitude, isNegative, ofMagnitude, same, small, Nat.pow_eq]
  exact ⟨Nat.mod_eq_of_lt fits, decide_eq_false (Nat.not_le.mpr fits)⟩

end StackCalc.Binary64
