/-
This file is a small library about the doubles of the language, whose meaning
is an executable model of IEEE-754. An operation of the model computes an exact
result in extended precision, with two more bits that tell how what is left out
compares to one half, and rounds it once; so the error of an operation is at
most one half in the last place, which is the exact result divided by `2 ^ 53`.

The lemmas are about positive normal numbers. Each is written as its exact
value, a rational number.
-/

import Mathlib

namespace Doubles

open Float.Model UnpackedFloat

/-! ### Extended mantissas -/

/-- What the round bit and the sticky bit tell of the part of a number behind its integer part. -/
def Residue : (roundBit stickyBit : Bool) → ℚ → Prop
  | false, false, rest => rest = 0
  | false, true, rest => 0 < rest ∧ rest < 1 / 2
  | true, false, rest => rest = 1 / 2
  | true, true, rest => 1 / 2 < rest ∧ rest < 1

/-- An extended mantissa stands for an exact number. -/
def Represents (extended : ExtendedMantissa) (exact : ℚ) : Prop :=
  Residue extended.roundBit extended.stickyBit (exact - extended.mantissa)

theorem Residue.bounds {roundBit stickyBit : Bool} {rest : ℚ}
    (residue : Residue roundBit stickyBit rest) : 0 ≤ rest ∧ rest < 1 := by
  cases roundBit <;> cases stickyBit
  · obtain rfl : rest = 0 := residue
    norm_num
  · exact ⟨residue.1.le, residue.2.trans (by norm_num)⟩
  · obtain rfl : rest = 1 / 2 := residue
    norm_num
  · exact ⟨by linarith [residue.1], residue.2⟩

/-- Half of a number that ends in an even digit. -/
theorem Residue.half_even {roundBit stickyBit : Bool} {rest : ℚ}
    (residue : Residue roundBit stickyBit rest) :
    Residue false (roundBit || stickyBit) (rest / 2) := by
  cases roundBit <;> cases stickyBit
  · obtain rfl : rest = 0 := residue
    exact zero_div 2
  · exact ⟨by linarith [residue.1], by linarith [residue.2]⟩
  · obtain rfl : rest = 1 / 2 := residue
    constructor <;> norm_num
  · exact ⟨by linarith [residue.1], by linarith [residue.2]⟩

/-- Half of a number that ends in an odd digit. -/
theorem Residue.half_odd {roundBit stickyBit : Bool} {rest : ℚ}
    (residue : Residue roundBit stickyBit rest) :
    Residue true (roundBit || stickyBit) ((rest + 1) / 2) := by
  cases roundBit <;> cases stickyBit
  · obtain rfl : rest = 0 := residue
    show (0 + 1) / 2 = (1 / 2 : ℚ)
    norm_num
  · exact ⟨by linarith [residue.1], by linarith [residue.2]⟩
  · obtain rfl : rest = 1 / 2 := residue
    constructor <;> norm_num
  · exact ⟨by linarith [residue.1], by linarith [residue.2]⟩

theorem Represents.shiftRightOne {extended : ExtendedMantissa} {exact : ℚ}
    (represents : Represents extended exact) : Represents extended.shiftRightOne (exact / 2) := by
  have digits : (extended.mantissa : ℚ) =
      2 * (extended.mantissa / 2 : Nat) + (extended.mantissa % 2 : Nat) := by
    exact_mod_cast (Nat.div_add_mod extended.mantissa 2).symm
  unfold Represents at represents ⊢
  rcases Nat.mod_two_eq_zero_or_one extended.mantissa with even | odd
  · have rest : exact / 2 - (extended.mantissa / 2 : Nat) = (exact - extended.mantissa) / 2 := by
      rw [digits, even]
      push_cast
      ring
    show Residue (extended.mantissa % 2 != 0) _ _
    rw [even, show exact / 2 - (extended.shiftRightOne.mantissa : ℚ) = _ from rest]
    exact represents.half_even
  · have rest : exact / 2 - (extended.mantissa / 2 : Nat) =
        (exact - extended.mantissa + 1) / 2 := by
      rw [digits, odd]
      push_cast
      ring
    show Residue (extended.mantissa % 2 != 0) _ _
    rw [odd, show exact / 2 - (extended.shiftRightOne.mantissa : ℚ) = _ from rest]
    exact represents.half_odd

/-- Shifting divides the number by a power of two, and loses nothing of it. -/
theorem Represents.shiftRight {extended : ExtendedMantissa} {exact : ℚ}
    (represents : Represents extended exact) (count : Nat) :
    Represents (extended >>> count) (exact / 2 ^ count) := by
  induction count with
  | zero =>
    rw [pow_zero, div_one]
    exact represents
  | succ count inductionHypothesis =>
    rw [pow_succ, ← div_div]
    exact inductionHypothesis.shiftRightOne

/-- Rounding moves a number by at most one half. -/
theorem Represents.roundedMantissa {extended : ExtendedMantissa} {exact : ℚ}
    (represents : Represents extended exact) :
    |(extended.roundedMantissa : ℚ) - exact| ≤ 1 / 2 := by
  obtain ⟨mantissa, roundBit, stickyBit⟩ := extended
  rw [abs_le]
  cases roundBit <;> cases stickyBit
  · have rest : exact - mantissa = 0 := represents
    show -(1 / 2) ≤ (mantissa : ℚ) - exact ∧ (mantissa : ℚ) - exact ≤ 1 / 2
    constructor <;> linarith
  · have rest : 0 < exact - mantissa ∧ exact - mantissa < 1 / 2 := represents
    show -(1 / 2) ≤ (mantissa : ℚ) - exact ∧ (mantissa : ℚ) - exact ≤ 1 / 2
    constructor <;> linarith [rest.1, rest.2]
  · have rest : exact - mantissa = 1 / 2 := represents
    have digit : ((mantissa % 2 : Nat) : ℚ) = 0 ∨ ((mantissa % 2 : Nat) : ℚ) = 1 := by
      exact_mod_cast Nat.mod_two_eq_zero_or_one mantissa
    show -(1 / 2) ≤ ((mantissa + mantissa % 2 : Nat) : ℚ) - exact ∧
      ((mantissa + mantissa % 2 : Nat) : ℚ) - exact ≤ 1 / 2
    rw [Nat.cast_add]
    rcases digit with even | odd
    · constructor <;> linarith
    · constructor <;> linarith
  · have rest : 1 / 2 < exact - mantissa ∧ exact - mantissa < 1 := represents
    show -(1 / 2) ≤ ((mantissa + 1 : Nat) : ℚ) - exact ∧
      ((mantissa + 1 : Nat) : ℚ) - exact ≤ 1 / 2
    rw [Nat.cast_add, Nat.cast_one]
    constructor <;> linarith [rest.1, rest.2]

theorem represents_exact (mantissa : Nat) :
    Represents (.ofMantissaAndAccuracy mantissa .exact) mantissa := sub_self (mantissa : ℚ)

/-- A quotient of integers, from its integer part and its remainder. -/
theorem represents_fraction (num den : Nat) (positive : 0 < den) :
    Represents (.ofMantissaAndAccuracy (num / den) (accuracyOfFraction (num % den) den))
      (num / den : ℚ) := by
  have whole : (den : ℚ) * (num / den : Nat) + (num % den : Nat) = num := by
    exact_mod_cast Nat.div_add_mod num den
  have positive' : (0 : ℚ) < den := Nat.cast_pos.mpr positive
  have rest : (num / den : ℚ) - (num / den : Nat) = (num % den : Nat) / den := by
    rw [eq_div_iff positive'.ne', sub_mul, div_mul_cancel₀ _ positive'.ne']
    linarith
  have below : ((num % den : Nat) : ℚ) < den := by exact_mod_cast Nat.mod_lt num positive
  unfold Represents accuracyOfFraction
  split_ifs with zero
  · show (num / den : ℚ) - (num / den : Nat) = 0
    rw [rest, zero, Nat.cast_zero, zero_div]
  · have nonzero : (0 : ℚ) < (num % den : Nat) := by exact_mod_cast Nat.pos_of_ne_zero zero
    rcases order : compare (2 * (num % den)) den with _ | _ | _
    · have half : 2 * ((num % den : Nat) : ℚ) < den := by
        exact_mod_cast compare_lt_iff_lt.mp order
      show 0 < (num / den : ℚ) - (num / den : Nat) ∧ (num / den : ℚ) - (num / den : Nat) < 1 / 2
      rw [rest]
      exact ⟨by positivity, by rw [div_lt_div_iff₀ positive' two_pos]; linarith⟩
    · have half : 2 * ((num % den : Nat) : ℚ) = den := by
        exact_mod_cast compare_eq_iff_eq.mp order
      show (num / den : ℚ) - (num / den : Nat) = 1 / 2
      rw [rest, div_eq_div_iff positive'.ne' two_ne_zero]
      linarith
    · have half : (den : ℚ) < 2 * ((num % den : Nat) : ℚ) := by
        exact_mod_cast compare_gt_iff_gt.mp order
      show 1 / 2 < (num / den : ℚ) - (num / den : Nat) ∧ (num / den : ℚ) - (num / den : Nat) < 1
      rw [rest]
      refine ⟨?_, (div_lt_one positive').mpr below⟩
      rw [div_lt_div_iff₀ two_pos positive']
      linarith

/-! ### Rounding to a full mantissa -/

theorem log2_eq {mantissa count : Nat} (low : 2 ^ count ≤ mantissa)
    (high : mantissa < 2 ^ (count + 1)) : mantissa.log2 = count := by
  have positive : mantissa ≠ 0 := by
    have := Nat.two_pow_pos count
    omega
  exact (Nat.log2_eq_iff positive).mpr ⟨low, high⟩

theorem log2_bounds {mantissa count : Nat} (positive : 0 < mantissa)
    (log : mantissa.log2 = count) : 2 ^ count ≤ mantissa ∧ mantissa < 2 ^ (count + 1) :=
  (Nat.log2_eq_iff positive.ne').mp log

theorem log2_mul_two_pow {mantissa : Nat} (positive : 0 < mantissa) (count : Nat) :
    (mantissa * 2 ^ count).log2 = mantissa.log2 + count := by
  obtain ⟨least, most⟩ := log2_bounds positive rfl
  refine log2_eq ?_ ?_
  · rw [pow_add]
    exact Nat.mul_le_mul_right _ least
  · rw [Nat.add_right_comm, pow_add]
    exact Nat.mul_lt_mul_of_pos_right most (Nat.two_pow_pos _)

theorem shiftRight_mantissa (extended : ExtendedMantissa) (count : Nat) :
    (extended >>> count).mantissa = extended.mantissa / 2 ^ count := by
  induction count with
  | zero => simp [HShiftRight.hShiftRight, Nat.repeat]
  | succ count inductionHypothesis =>
    show (extended >>> count).mantissa / 2 = _
    rw [inductionHypothesis, Nat.div_div_eq_div_mul, Nat.pow_succ]

theorem ofMantissaAndAccuracy_mantissa (mantissa : Nat) (accuracy : Accuracy) :
    (ExtendedMantissa.ofMantissaAndAccuracy mantissa accuracy).mantissa = mantissa := by
  unfold ExtendedMantissa.ofMantissaAndAccuracy
  split <;> rfl

theorem roundedMantissa_bounds (extended : ExtendedMantissa) :
    extended.mantissa ≤ extended.roundedMantissa ∧
      extended.roundedMantissa ≤ extended.mantissa + 1 := by
  unfold ExtendedMantissa.roundedMantissa ExtendedMantissa.accuracy
  split <;> simp [Accuracy.roundToNearestEven]
  omega

/-- A mantissa of at least 53 bits is shifted down to exactly 53 bits. -/
theorem shiftToTargetExponent_full {mantissa : Nat} {exponent : Int} (accuracy : Accuracy)
    (full : 2 ^ 52 ≤ mantissa) (normal : -1074 ≤ exponent) :
    shiftToTargetExponent Format.binary64 mantissa exponent accuracy =
      (ExtendedMantissa.ofMantissaAndAccuracy mantissa accuracy >>> (mantissa.log2 - 52),
        exponent + (mantissa.log2 - 52 : Nat)) := by
  have large : 52 ≤ mantissa.log2 := (Nat.le_log2 (by omega)).mpr full
  have target : (Format.binary64.targetExponent (totalExponent mantissa exponent) -
      exponent).toNat = mantissa.log2 - 52 := by
    unfold Format.targetExponent totalExponent Format.minExponent Format.mantissaBits
    simp only
    omega
  unfold shiftToTargetExponent shiftToExponent
  simp only [target]

theorem shifted_bounds {mantissa : Nat} (full : 2 ^ 52 ≤ mantissa) :
    2 ^ 52 ≤ mantissa / 2 ^ (mantissa.log2 - 52) ∧
      mantissa / 2 ^ (mantissa.log2 - 52) < 2 ^ 53 := by
  have large : 52 ≤ mantissa.log2 := (Nat.le_log2 (by omega)).mpr full
  obtain ⟨low, high⟩ := log2_bounds (by omega : 0 < mantissa) rfl
  refine ⟨(Nat.le_div_iff_mul_le (Nat.two_pow_pos _)).mpr ?_,
    (Nat.div_lt_iff_lt_mul (Nat.two_pow_pos _)).mpr ?_⟩
  · rw [← pow_add, Nat.add_sub_cancel' large]
    exact low
  · rw [← pow_add]
    exact high.trans_eq (congrArg _ (by omega))

/-- A mantissa of 53 bits, or the number behind the largest of them, is brought back to 53 bits
without a loss. -/
theorem normalize_full {mantissa : Nat} {exponent : Int} (full : 2 ^ 52 ≤ mantissa)
    (small : mantissa ≤ 2 ^ 53) (normal : -1074 ≤ exponent) :
    ∃ final scale, shiftToTargetExponent Format.binary64 mantissa exponent .exact =
        (final, scale) ∧ final.mantissa.log2 = 52 ∧ exponent ≤ scale ∧ scale ≤ exponent + 1 ∧
          (final.mantissa : ℚ) * 2 ^ scale = mantissa * 2 ^ exponent := by
  rw [shiftToTargetExponent_full .exact full normal]
  refine ⟨_, _, rfl, ?_⟩
  rw [shiftRight_mantissa, ofMantissaAndAccuracy_mantissa]
  rcases Nat.lt_or_eq_of_le small with below | rfl
  · have log := log2_eq full below
    rw [log]
    refine ⟨by rw [Nat.sub_self, pow_zero, Nat.div_one, log], by simp, by simp, by simp⟩
  · have log : (2 ^ 53 : Nat).log2 = 53 := by decide
    have half : 2 ^ 53 / 2 ^ (53 - 52) = 2 ^ 52 := by decide
    rw [log, half]
    refine ⟨by decide, by omega, by omega, ?_⟩
    rw [zpow_add₀ two_ne_zero]
    push_cast
    ring

/-- The digits of a mantissa that are kept are 53. -/
theorem kept_bounds {mantissa : Nat} (accuracy : Accuracy) (full : 2 ^ 52 ≤ mantissa) :
    2 ^ 52 ≤ (ExtendedMantissa.ofMantissaAndAccuracy mantissa accuracy >>>
        (mantissa.log2 - 52)).mantissa ∧
      (ExtendedMantissa.ofMantissaAndAccuracy mantissa accuracy >>>
        (mantissa.log2 - 52)).mantissa < 2 ^ 53 := by
  rw [shiftRight_mantissa, ofMantissaAndAccuracy_mantissa]
  exact shifted_bounds full

/-- Rounding a mantissa of at least 53 bits leaves one of exactly 53. -/
theorem roundWithAccuracy_full {mantissa : Nat} {exponent : Int} (accuracy : Accuracy)
    (sign : Sign) (full : 2 ^ 52 ≤ mantissa) (normal : -1074 ≤ exponent) :
    ∃ final scale positive,
      roundWithAccuracy Format.binary64 sign mantissa exponent accuracy =
        .finite sign final scale positive ∧
      final.log2 = 52 ∧ exponent ≤ scale ∧ scale ≤ exponent + (mantissa.log2 - 51) ∧
      (final : ℚ) * 2 ^ scale = (ExtendedMantissa.ofMantissaAndAccuracy mantissa accuracy >>>
        (mantissa.log2 - 52)).roundedMantissa * 2 ^ (exponent + (mantissa.log2 - 52 : Nat)) := by
  have large : 52 ≤ mantissa.log2 := (Nat.le_log2 (by omega)).mpr full
  obtain ⟨atLeast, below⟩ := kept_bounds accuracy full
  unfold roundWithAccuracy
  rw [shiftToTargetExponent_full accuracy full normal]
  generalize ExtendedMantissa.ofMantissaAndAccuracy mantissa accuracy >>> (mantissa.log2 - 52) =
    extended at atLeast below ⊢
  obtain ⟨grows, little⟩ := roundedMantissa_bounds extended
  obtain ⟨final, scale, normalized, log, above, within, same⟩ :=
    normalize_full (atLeast.trans grows) (by omega)
      (by omega : -1074 ≤ exponent + (mantissa.log2 - 52 : Nat))
  simp only [normalized]
  have nonzero : final.mantissa ≠ 0 := by
    intro zero
    rw [zero] at log
    exact absurd log (by decide)
  rw [dif_neg nonzero]
  exact ⟨_, _, Nat.pos_of_ne_zero nonzero, rfl, log, by omega, by omega, same⟩

/-- Rounding a mantissa of at least 53 bits moves the number by at most one half in the last
place. -/
theorem roundWithAccuracy_near {mantissa : Nat} {exponent : Int} {accuracy : Accuracy} {exact : ℚ}
    (sign : Sign) (full : 2 ^ 52 ≤ mantissa) (normal : -1074 ≤ exponent)
    (represents : Represents (.ofMantissaAndAccuracy mantissa accuracy) exact) :
    ∃ final scale positive,
      roundWithAccuracy Format.binary64 sign mantissa exponent accuracy =
        .finite sign final scale positive ∧
      final.log2 = 52 ∧ exponent ≤ scale ∧ scale ≤ exponent + (mantissa.log2 - 51) ∧
      |(final : ℚ) * 2 ^ scale - exact * 2 ^ exponent| ≤ exact * 2 ^ exponent / 2 ^ 53 := by
  obtain ⟨final, scale, positive, rounded, log, above, below, same⟩ :=
    roundWithAccuracy_full accuracy sign full normal
  obtain ⟨atLeast, _⟩ := kept_bounds accuracy full
  have shifted := represents.shiftRight (mantissa.log2 - 52)
  refine ⟨final, scale, positive, rounded, log, above, below, ?_⟩
  generalize ExtendedMantissa.ofMantissaAndAccuracy mantissa accuracy >>> (mantissa.log2 - 52) =
    extended at same atLeast shifted
  have moved : exact * (2 : ℚ) ^ exponent = exact / 2 ^ (mantissa.log2 - 52) *
      2 ^ (exponent + (mantissa.log2 - 52 : Nat)) := by
    rw [zpow_add₀ two_ne_zero, zpow_natCast]
    field_simp
  have size : (2 : ℚ) ^ 52 ≤ exact / 2 ^ (mantissa.log2 - 52) := by
    have whole := shifted.bounds.1
    have cast : ((2 ^ 52 : Nat) : ℚ) ≤ extended.mantissa := Nat.cast_le.mpr atLeast
    push_cast at cast
    linarith
  have half := shifted.roundedMantissa
  have positive : (0 : ℚ) < 2 ^ (exponent + (mantissa.log2 - 52 : Nat)) := by positivity
  rw [same, moved, ← sub_mul, abs_mul, abs_of_pos positive, mul_div_right_comm]
  refine mul_le_mul_of_nonneg_right (half.trans ?_) positive.le
  rw [le_div_iff₀ (by positivity)]
  linarith

/-! ### Packed doubles -/

theorem unpackSign_packComponents {spec : Format} (sign : Sign)
    (exponent : BitVec spec.exponentBits) (mantissa : BitVec spec.mantissaBitsWithoutImplicit) :
    unpackSign (packComponents spec sign exponent mantissa) = sign.toBitVec := by
  ext i bound
  obtain rfl : i = 0 := by omega
  simp [unpackSign, packComponents, BitVec.getLsbD_append, BitVec.getLsbD_eq_getElem,
    BitVec.getElem_append]

/-- A full mantissa with an exponent in range is packed without a loss. -/
theorem unpack_pack {sign : Sign} {mantissa : Nat} {exponent : Int} (positive : 0 < mantissa)
    (full : mantissa.log2 = 52) (low : -1074 ≤ exponent) (high : exponent ≤ 971) :
    (pack (.finite sign mantissa exponent positive)).unpack =
      .finite sign mantissa exponent positive := by
  obtain ⟨least, most⟩ := log2_bounds positive full
  have biased : (BitVec.ofNat 11 (exponent + 1023 + 52).toNat).toNat =
      (exponent + 1023 + 52).toNat := by
    rw [BitVec.toNat_ofNat]
    omega
  have packed : UnpackedFloat.pack Format.binary64 (.finite sign mantissa exponent positive) =
      packComponents Format.binary64 sign
        (BitVec.ofNat 11 (exponent + 1023 + 52).toNat) (BitVec.ofNat 52 mantissa) := by
    show (if 2 ^ 11 ≤ (exponent + 1023 + 52).toNat + 1 then _
      else if mantissa.log2 + 1 = 53 then _ else _) = _
    rw [if_neg (by omega), if_pos (by omega)]
    rfl
  have notOnes : (BitVec.ofNat 11 (exponent + 1023 + 52).toNat) ≠ -1#11 := by
    intro ones
    have value := congrArg BitVec.toNat ones
    rw [biased] at value
    have : (-1#11 : BitVec 11).toNat = 2047 := by decide
    omega
  have notZero : (BitVec.ofNat 11 (exponent + 1023 + 52).toNat) ≠ 0#11 := by
    intro zero
    have value := congrArg BitVec.toNat zero
    rw [biased] at value
    have : (0#11 : BitVec 11).toNat = 0 := by decide
    omega
  show UnpackedFloat.unpack Format.binary64
    (UnpackedFloat.pack Format.binary64 (.finite sign mantissa exponent positive)) = _
  rw [packed]
  unfold UnpackedFloat.unpack
  simp only [unpackExponent_packComponents, unpackMantissa_packComponents,
    unpackSign_packComponents]
  rw [if_neg notOnes, if_neg notZero]
  have signed : Sign.ofBitVec sign.toBitVec = sign := by cases sign <;> rfl
  have mantissas : (1#1 ++ BitVec.ofNat 52 mantissa).toNat = mantissa := by
    rw [BitVec.toNat_append, BitVec.toNat_ofNat, BitVec.toNat_ofNat,
      ← Nat.shiftLeft_add_eq_or_of_lt (Nat.mod_lt _ (Nat.two_pow_pos 52)), Nat.shiftLeft_eq]
    omega
  have exponents : ((BitVec.ofNat 11 (exponent + 1023 + 52).toNat).toNat : Int) -
      (Format.binary64.exponentBias + (52 : Nat)) = exponent := by
    rw [biased]
    show _ - ((1023 : Int) + 52) = _
    omega
  simp only [signed, mantissas, exponents]

/-! ### Values -/

/-- A positive finite double, and its exact value. -/
def Positive (x : Float) (value : ℚ) : Prop :=
  ∃ mantissa exponent positive,
    x.toModel.unpack = .finite .positive mantissa exponent positive ∧
      -1074 ≤ exponent ∧ (mantissa : ℚ) * 2 ^ exponent = value

/-- A positive normal double, and its exact value. -/
def Normal (x : Float) (value : ℚ) : Prop :=
  ∃ mantissa exponent positive,
    x.toModel.unpack = .finite .positive mantissa exponent positive ∧
      mantissa.log2 = 52 ∧ (mantissa : ℚ) * 2 ^ exponent = value

/-- A positive normal double that is an exact number but for one half in the last place. -/
def Near (x : Float) (exact : ℚ) : Prop :=
  ∃ value, Normal x value ∧ |value - exact| ≤ exact / 2 ^ 53

/-- A positive double that is rounded once, from at least 53 digits of an exact number. -/
def Rounded (x : Float) (exact : ℚ) : Prop :=
  ∃ (mantissa : Nat) (exponent : Int) (accuracy : Accuracy) (number : ℚ),
    2 ^ 52 ≤ mantissa ∧ -1074 ≤ exponent ∧ exponent + mantissa.log2 ≤ 1000 ∧
    Represents (.ofMantissaAndAccuracy mantissa accuracy) number ∧
    number * 2 ^ exponent = exact ∧
    x.toModel = pack (roundWithAccuracy Format.binary64 .positive mantissa exponent accuracy)

/-- A number far from the ends of the range of the doubles. -/
def Moderate (value : ℚ) : Prop := (2 : ℚ) ^ (-200 : Int) ≤ value ∧ value < 2 ^ (200 : Int)

theorem value_bounds {mantissa : Nat} (exponent : Int) (positive : 0 < mantissa) :
    (2 : ℚ) ^ (mantissa.log2 + exponent) ≤ mantissa * 2 ^ exponent ∧
      (mantissa : ℚ) * 2 ^ exponent < 2 ^ (mantissa.log2 + 1 + exponent) := by
  obtain ⟨least, most⟩ := log2_bounds positive rfl
  have unit : (0 : ℚ) < 2 ^ exponent := by positivity
  rw [zpow_add₀ two_ne_zero, zpow_add₀ two_ne_zero]
  constructor
  · refine mul_le_mul_of_nonneg_right ?_ unit.le
    exact_mod_cast least
  · refine mul_lt_mul_of_pos_right ?_ unit
    exact_mod_cast most

/-- The leading digit of a moderate number is not far from the point. -/
theorem Moderate.exponent {mantissa : Nat} {exponent : Int} (positive : 0 < mantissa)
    (moderate : Moderate (mantissa * 2 ^ exponent)) :
    -201 < mantissa.log2 + exponent ∧ mantissa.log2 + exponent < 200 := by
  obtain ⟨least, most⟩ := value_bounds exponent positive
  have low := (zpow_lt_zpow_iff_right₀ (one_lt_two : (1 : ℚ) < 2)).mp (moderate.1.trans_lt most)
  have high := (zpow_lt_zpow_iff_right₀ (one_lt_two : (1 : ℚ) < 2)).mp (least.trans_lt moderate.2)
  omega

theorem Normal.positive {x : Float} {value : ℚ} (normal : Normal x value) : 0 < value := by
  obtain ⟨mantissa, exponent, positive, _, _, rfl⟩ := normal
  have cast : (0 : ℚ) < mantissa := Nat.cast_pos.mpr positive
  positivity

theorem Normal.toPositive {x : Float} {value : ℚ} (normal : Normal x value)
    (moderate : Moderate value) : Positive x value := by
  obtain ⟨mantissa, exponent, positive, unpacked, log, rfl⟩ := normal
  have range := moderate.exponent positive
  exact ⟨mantissa, exponent, positive, unpacked, by omega, rfl⟩

/-- What is rounded from a number in the range of the doubles is near to it. -/
theorem Rounded.near {x : Float} {exact : ℚ} (rounded : Rounded x exact) : Near x exact := by
  obtain ⟨mantissa, exponent, accuracy, number, full, normal, small, represents, rfl, computed⟩ :=
    rounded
  obtain ⟨final, scale, positive, rounded, log, above, below, error⟩ :=
    roundWithAccuracy_near .positive full normal represents
  refine ⟨_, ⟨final, scale, positive, ?_, log, rfl⟩, error⟩
  rw [computed, rounded]
  exact unpack_pack positive log (by omega) (by omega)

/-! ### Products, quotients and sums -/

theorem mul_rounded {x y : Float} {a b : ℚ} (first : Normal x a) (second : Normal y b)
    (moderate : Moderate a) (moderate' : Moderate b) : Rounded (x * y) (a * b) := by
  obtain ⟨m, e, positive, unpacked, log, rfl⟩ := first
  obtain ⟨n, f, positive', unpacked', log', rfl⟩ := second
  have range := moderate.exponent positive
  have range' := moderate'.exponent positive'
  obtain ⟨least, most⟩ := log2_bounds positive log
  obtain ⟨least', most'⟩ := log2_bounds positive' log'
  have full : 2 ^ 104 ≤ m * n := by
    calc 2 ^ 104 = 2 ^ 52 * 2 ^ 52 := by decide
      _ ≤ m * n := Nat.mul_le_mul least least'
  have size : (m * n).log2 < 106 := by
    refine (Nat.log2_lt (by omega)).mpr ?_
    calc m * n < 2 ^ 53 * 2 ^ 53 := Nat.mul_lt_mul'' most most'
      _ = 2 ^ 106 := by decide
  have computed : (x * y).toModel =
      pack (roundWithAccuracy Format.binary64 .positive (m * n) (e + f) .exact) := by
    show pack (UnpackedFloat.mul Format.binary64 x.toModel.unpack y.toModel.unpack) = _
    rw [unpacked, unpacked']
    rfl
  have value : ((m * n : Nat) : ℚ) * 2 ^ (e + f) = m * 2 ^ e * (n * 2 ^ f) := by
    rw [zpow_add₀ two_ne_zero]
    push_cast
    ring
  exact ⟨m * n, e + f, .exact, _, le_trans (by decide) full, by omega, by omega,
    represents_exact (m * n), value, computed⟩

theorem mul_near {x y : Float} {a b : ℚ} (first : Normal x a) (second : Normal y b)
    (moderate : Moderate a) (moderate' : Moderate b) : Near (x * y) (a * b) :=
  (mul_rounded first second moderate moderate').near

/-- The digits a quotient is rounded from. -/
theorem divCore_normal {m n : Nat} {e f : Int} (log : m.log2 = 52) (log' : n.log2 = 52)
    (range : -1000 ≤ e - f) :
    divCore Format.binary64 m e n f =
      (m * 2 ^ 53 / n, e - f - 53, accuracyOfFraction (m * 2 ^ 53 % n) n) := by
  have target : min (e - f) (Format.binary64.targetExponent
      (totalExponent m e - totalExponent n f)) = e - f - 53 := by
    unfold Format.targetExponent totalExponent Format.minExponent Format.mantissaBits
    simp only [log, log']
    omega
  have shift : (e - f - (e - f - 53)).toNat = 53 := by omega
  unfold divCore
  simp only [target, shift, Nat.shiftLeft_eq]

theorem div_rounded {x y : Float} {a b : ℚ} (first : Normal x a) (second : Normal y b)
    (moderate : Moderate a) (moderate' : Moderate b) : Rounded (x / y) (a / b) := by
  obtain ⟨m, e, positive, unpacked, log, rfl⟩ := first
  obtain ⟨n, f, positive', unpacked', log', rfl⟩ := second
  have range := moderate.exponent positive
  have range' := moderate'.exponent positive'
  obtain ⟨least, most⟩ := log2_bounds positive log
  obtain ⟨least', most'⟩ := log2_bounds positive' log'
  have full : 2 ^ 52 ≤ m * 2 ^ 53 / n := by
    rw [Nat.le_div_iff_mul_le positive']
    exact Nat.mul_le_mul least most'.le
  have size : (m * 2 ^ 53 / n).log2 < 55 := by
    refine (Nat.log2_lt (by omega)).mpr ((Nat.div_lt_iff_lt_mul positive').mpr ?_)
    calc m * 2 ^ 53 < 2 ^ 53 * 2 ^ 53 := Nat.mul_lt_mul_of_pos_right most (by decide)
      _ ≤ 2 ^ 55 * 2 ^ 52 := by decide
      _ ≤ 2 ^ 55 * n := Nat.mul_le_mul_left _ least'
  have computed : (x / y).toModel = pack (roundWithAccuracy Format.binary64 .positive
      (m * 2 ^ 53 / n) (e - f - 53) (accuracyOfFraction (m * 2 ^ 53 % n) n)) := by
    show pack (UnpackedFloat.div Format.binary64 x.toModel.unpack y.toModel.unpack) = _
    rw [unpacked, unpacked', UnpackedFloat.div, divCore_normal log log' (by omega)]
    rfl
  have value : ((m * 2 ^ 53 : Nat) : ℚ) / n * 2 ^ (e - f - 53) =
      m * 2 ^ e / (n * 2 ^ f) := by
    have cast : (n : ℚ) ≠ 0 := Nat.cast_ne_zero.mpr positive'.ne'
    have unit : (2 : ℚ) ^ f ≠ 0 := by positivity
    rw [zpow_sub₀ two_ne_zero, zpow_sub₀ two_ne_zero]
    push_cast
    field_simp
  exact ⟨m * 2 ^ 53 / n, e - f - 53, _, _, full, by omega, by omega,
    represents_fraction (m * 2 ^ 53) n positive', value, computed⟩

theorem div_near {x y : Float} {a b : ℚ} (first : Normal x a) (second : Normal y b)
    (moderate : Moderate a) (moderate' : Moderate b) : Near (x / y) (a / b) :=
  (div_rounded first second moderate moderate').near

/-- A mantissa of fewer than 53 bits is filled up with zeros before it is rounded. -/
theorem round_eq {mantissa : Nat} {exponent : Int} (sign : Sign)
    (range : -1000 ≤ mantissa.log2 + exponent) :
    UnpackedFloat.round Format.binary64 sign mantissa exponent =
      roundWithAccuracy Format.binary64 sign (mantissa * 2 ^ (52 - mantissa.log2))
        (exponent - (52 - mantissa.log2 : Nat)) .exact := by
  have target : Format.binary64.targetExponent (totalExponent mantissa exponent) =
      mantissa.log2 + exponent - 52 := by
    unfold Format.targetExponent totalExponent Format.minExponent Format.mantissaBits
    simp only
    omega
  have shift : (exponent - (mantissa.log2 + exponent - 52)).toNat = 52 - mantissa.log2 := by omega
  unfold UnpackedFloat.round decreaseExponent
  simp only [target, shift, Nat.shiftLeft_eq]

/-- Filling up with zeros leaves the value as it is. -/
theorem filled_value (mantissa count : Nat) (exponent : Int) :
    ((mantissa * 2 ^ count : Nat) : ℚ) * 2 ^ (exponent - count) = mantissa * 2 ^ exponent := by
  rw [zpow_sub₀ two_ne_zero, zpow_natCast]
  push_cast
  field_simp

/-- An integer scaled into the range of the doubles is rounded once. -/
theorem round_rounded {x : Float} {mantissa : Nat} {exponent : Int} (positive : 0 < mantissa)
    (normal : -1074 ≤ exponent) (moderate : Moderate (mantissa * 2 ^ exponent))
    (computed : x.toModel =
      pack (UnpackedFloat.round Format.binary64 .positive mantissa exponent)) :
    Rounded x (mantissa * 2 ^ exponent) := by
  have range := moderate.exponent positive
  have log := log2_mul_two_pow positive (52 - mantissa.log2)
  have full : 2 ^ 52 ≤ mantissa * 2 ^ (52 - mantissa.log2) := by
    rw [← Nat.le_log2 (by positivity), log]
    omega
  rw [round_eq .positive (by omega)] at computed
  exact ⟨_, _, .exact, _, full, by omega, by omega, represents_exact _, filled_value _ _ _,
    computed⟩

/-- The sum of two positive numbers is rounded once. -/
theorem add_finite {m n : Nat} {e f : Int} (positive : 0 < m) (positive' : 0 < n) :
    UnpackedFloat.add Format.binary64 (.finite .positive m e positive)
        (.finite .positive n f positive') =
      UnpackedFloat.round Format.binary64 .positive
        (m * 2 ^ (e - min e f).toNat + n * 2 ^ (f - min e f).toNat) (min e f) := by
  have above : compare (Sign.positive.apply (m * 2 ^ (e - min e f).toNat : Nat) +
      Sign.positive.apply (n * 2 ^ (f - min e f).toNat : Nat)) 0 = .gt := by
    refine compare_gt_iff_gt.mpr ?_
    show (0 : Int) < (m * 2 ^ (e - min e f).toNat : Nat) + (n * 2 ^ (f - min e f).toNat : Nat)
    positivity
  unfold UnpackedFloat.add decreaseExponent UnpackedFloat.normalize
  simp only [Nat.shiftLeft_eq]
  rw [above]
  rfl

theorem add_rounded {x y : Float} {a b : ℚ} (first : Positive x a) (second : Positive y b)
    (moderate : Moderate (a + b)) : Rounded (x + y) (a + b) := by
  obtain ⟨m, e, positive, unpacked, low, rfl⟩ := first
  obtain ⟨n, f, positive', unpacked', low', rfl⟩ := second
  have value : ((m * 2 ^ (e - min e f).toNat + n * 2 ^ (f - min e f).toNat : Nat) : ℚ) *
      2 ^ min e f = m * 2 ^ e + n * 2 ^ f := by
    have scale (k : Int) (above : min e f ≤ k) :
        (2 : ℚ) ^ (k - min e f).toNat * 2 ^ min e f = 2 ^ k := by
      rw [← zpow_natCast, ← zpow_add₀ two_ne_zero]
      exact congrArg _ (by omega)
    push_cast
    rw [add_mul, mul_assoc, mul_assoc, scale e (min_le_left _ _), scale f (min_le_right _ _)]
  have computed : (x + y).toModel = pack (UnpackedFloat.round Format.binary64 .positive
      (m * 2 ^ (e - min e f).toNat + n * 2 ^ (f - min e f).toNat) (min e f)) := by
    show pack (UnpackedFloat.add Format.binary64 x.toModel.unpack y.toModel.unpack) = _
    rw [unpacked, unpacked', add_finite]
  rw [← value] at moderate ⊢
  exact round_rounded (by positivity) (by omega) moderate computed

theorem add_near {x y : Float} {a b : ℚ} (first : Positive x a) (second : Positive y b)
    (moderate : Moderate (a + b)) : Near (x + y) (a + b) :=
  (add_rounded first second moderate).near

/-! ### Operations without an error -/

theorem shiftRight_exact (mantissa count : Nat) :
    (ExtendedMantissa.ofMantissaAndAccuracy (mantissa * 2 ^ count) .exact) >>> count =
      ExtendedMantissa.ofMantissaAndAccuracy mantissa .exact := by
  induction count generalizing mantissa with
  | zero => rw [pow_zero, mul_one]; rfl
  | succ count inductionHypothesis =>
    have again := inductionHypothesis (mantissa * 2)
    rw [mul_assoc, ← pow_succ'] at again
    show ((ExtendedMantissa.ofMantissaAndAccuracy (mantissa * 2 ^ (count + 1)) .exact) >>>
      count).shiftRightOne = _
    rw [again]
    unfold ExtendedMantissa.ofMantissaAndAccuracy ExtendedMantissa.shiftRightOne
    simp

/-- Rounding only drops zeros behind the last place. -/
theorem roundWithAccuracy_exact {mantissa : Nat} {exponent : Int} (sign : Sign)
    (positive : 0 < mantissa) (log : mantissa.log2 = 52) (count : Nat)
    (normal : -1074 ≤ exponent) :
    roundWithAccuracy Format.binary64 sign (mantissa * 2 ^ count) exponent .exact =
      .finite sign mantissa (exponent + count) positive := by
  obtain ⟨least, most⟩ := log2_bounds positive log
  have logs : (mantissa * 2 ^ count).log2 = 52 + count := by
    rw [log2_mul_two_pow positive, log]
  have full : 2 ^ 52 ≤ mantissa * 2 ^ count :=
    least.trans (Nat.le_mul_of_pos_right _ (Nat.two_pow_pos _))
  have rounded : (ExtendedMantissa.ofMantissaAndAccuracy mantissa .exact).roundedMantissa =
      mantissa := rfl
  unfold roundWithAccuracy
  rw [shiftToTargetExponent_full .exact full normal, logs, Nat.add_sub_cancel_left,
    shiftRight_exact]
  simp only [rounded, shiftToTargetExponent_full .exact least
    (by omega : -1074 ≤ exponent + (count : Int)), log, Nat.sub_self]
  show (if nonzero : mantissa = 0 then _ else _) = _
  rw [dif_neg positive.ne']
  congr 1
  exact add_zero _

/-- An integer of at most 53 digits, filled up with zeros, has 53. -/
theorem log2_filled {value : Nat} (positive : 0 < value) (small : value < 2 ^ 53) :
    (value * 2 ^ (52 - value.log2)).log2 = 52 := by
  have bounded : value.log2 ≤ 52 := by
    rw [← Nat.lt_succ_iff, Nat.log2_lt positive.ne']
    exact small
  rw [log2_mul_two_pow positive]
  omega

/-- The mantissa of an integer of at most 53 digits, filled up with zeros. -/
theorem round_scaled {value : Nat} (sign : Sign) (positive : 0 < value) (small : value < 2 ^ 53)
    {scale : Nat} (range : scale ≤ 52)
    (nonzero : 0 < value * 2 ^ (52 - value.log2)) :
    UnpackedFloat.round Format.binary64 sign (value * 2 ^ scale) (-scale) =
      .finite sign (value * 2 ^ (52 - value.log2)) (-(52 - value.log2 : Nat)) nonzero := by
  have log := log2_filled positive small
  have scaled : (value * 2 ^ scale).log2 = value.log2 + scale := log2_mul_two_pow positive scale
  have filled : value * 2 ^ scale * 2 ^ (52 - (value.log2 + scale)) =
      value * 2 ^ (52 - value.log2) * 2 ^ (scale - (52 - value.log2)) := by
    rw [mul_assoc, mul_assoc, ← pow_add, ← pow_add]
    exact congrArg (fun count => value * 2 ^ count) (by omega)
  rw [round_eq sign (by omega), scaled, filled,
    roundWithAccuracy_exact sign nonzero log _ (by omega)]
  congr 1
  omega

/-- An integer of at most 53 digits is converted without a loss. -/
theorem ofNat_eq {value : Nat} (positive : 0 < value) (small : value < 2 ^ 53)
    (nonzero : 0 < value * 2 ^ (52 - value.log2)) :
    UnpackedFloat.ofNat Format.binary64 value =
      .finite .positive (value * 2 ^ (52 - value.log2)) (-(52 - value.log2 : Nat)) nonzero := by
  have sign : compare (value : Int) 0 = .gt := compare_gt_iff_gt.mpr (by omega)
  have rounded := round_scaled .positive positive small (Nat.zero_le 52) nonzero
  rw [pow_zero, mul_one] at rounded
  unfold UnpackedFloat.ofNat UnpackedFloat.ofInt UnpackedFloat.normalize
  rw [sign]
  exact rounded

theorem unpack_ofNat {value : Nat} (positive : 0 < value) (small : value < 2 ^ 53)
    (nonzero : 0 < value * 2 ^ (52 - value.log2)) :
    (Float.ofModel (.ofNat value)).toModel.unpack =
      .finite .positive (value * 2 ^ (52 - value.log2)) (-(52 - value.log2 : Nat)) nonzero := by
  have log := log2_filled positive small
  show (pack (UnpackedFloat.ofNat Format.binary64 value)).unpack = _
  rw [ofNat_eq positive small nonzero]
  exact unpack_pack nonzero log (by omega) (by omega)

/-- An integer of at most 53 digits is a double. -/
theorem ofNat_exact {value : Nat} (positive : 0 < value) (small : value < 2 ^ 53) :
    Normal (.ofModel (.ofNat value)) value := by
  have log := log2_filled positive small
  have nonzero : 0 < value * 2 ^ (52 - value.log2) := by positivity
  have filled := filled_value value (52 - value.log2) 0
  rw [zero_sub, zpow_zero, mul_one] at filled
  exact ⟨_, _, nonzero, unpack_ofNat positive small nonzero, log, filled⟩

/-- Integers are added without a loss while the sum has at most 53 digits. -/
theorem ofNat_add {first second : Nat} (small : first + second < 2 ^ 53) :
    Float.ofModel (.ofNat first) + Float.ofModel (.ofNat second) =
      Float.ofModel (.ofNat (first + second)) := by
  show Float.ofModel (pack (UnpackedFloat.add Format.binary64
    (Float.ofModel (.ofNat first)).toModel.unpack
    (Float.ofModel (.ofNat second)).toModel.unpack)) =
      Float.ofModel (pack (UnpackedFloat.ofNat Format.binary64 (first + second)))
  rcases Nat.eq_zero_or_pos first with rfl | one
  · rcases Nat.eq_zero_or_pos second with rfl | other
    · rfl
    · have nonzero : 0 < second * 2 ^ (52 - second.log2) := by positivity
      rw [unpack_ofNat other (by omega) nonzero, Nat.zero_add, ofNat_eq other (by omega) nonzero]
      rfl
  · have nonzero : 0 < first * 2 ^ (52 - first.log2) := by positivity
    rcases Nat.eq_zero_or_pos second with rfl | other
    · rw [unpack_ofNat one (by omega) nonzero, Nat.add_zero, ofNat_eq one (by omega) nonzero]
      rfl
    · have also : 0 < second * 2 ^ (52 - second.log2) := by positivity
      have total : 0 < (first + second) * 2 ^ (52 - (first + second).log2) := by positivity
      -- Both are scaled to the lower of the two exponents.
      have scaled {value : Nat} {count scale : Nat} (below : count ≤ scale) :
          value * 2 ^ count * 2 ^ (-(count : Int) - -(scale : Int)).toNat = value * 2 ^ scale := by
        rw [mul_assoc, ← pow_add]
        exact congrArg (fun count => value * 2 ^ count) (by omega)
      have lower : min (-((52 - first.log2 : Nat) : Int)) (-((52 - second.log2 : Nat) : Int)) =
          -((max (52 - first.log2) (52 - second.log2) : Nat) : Int) := by omega
      rw [unpack_ofNat one (by omega) nonzero, unpack_ofNat other (by omega) also, add_finite,
        lower, scaled (le_max_left _ _), scaled (le_max_right _ _), ← add_mul,
        round_scaled .positive (by omega) small (by omega) total,
        ofNat_eq (by omega) small total]

/-- A sum of integers is exact while it has at most 53 digits. -/
theorem foldl_ofNat {values : List Nat} {start : Nat} (small : start + values.sum < 2 ^ 53) :
    (values.map (fun value => Float.ofModel (.ofNat value))).foldl (· + ·)
        (Float.ofModel (.ofNat start)) = Float.ofModel (.ofNat (start + values.sum)) := by
  induction values generalizing start with
  | nil => rfl
  | cons value rest inductionHypothesis =>
    rw [List.sum_cons] at small ⊢
    rw [List.map_cons, List.foldl_cons, ofNat_add (by omega),
      inductionHypothesis (by omega), Nat.add_assoc]

/-- Any positive integer of a machine word is rounded once. -/
theorem ofNat_rounded {value : Nat} (positive : 0 < value) (small : value < 2 ^ 64) :
    Rounded (.ofModel (.ofNat value)) value := by
  have scaled : (value : ℚ) * 2 ^ (0 : Int) = value := by rw [zpow_zero, mul_one]
  have moderate : Moderate ((value : ℚ) * 2 ^ (0 : Int)) := by
    rw [scaled]
    have one : (1 : ℚ) ≤ value := Nat.one_le_cast.mpr positive
    have word : (value : ℚ) < 2 ^ 64 := by exact_mod_cast small
    exact ⟨le_trans (by norm_num) one, lt_trans word (by norm_num)⟩
  have sign : compare (value : Int) 0 = .gt := compare_gt_iff_gt.mpr (by omega)
  have computed : (Float.ofModel (.ofNat value)).toModel =
      pack (UnpackedFloat.round Format.binary64 .positive value 0) := by
    show pack (UnpackedFloat.ofNat Format.binary64 value) = _
    unfold UnpackedFloat.ofNat UnpackedFloat.ofInt UnpackedFloat.normalize
    rw [sign]
    rfl
  have rounded := round_rounded positive (by omega) moderate computed
  rwa [scaled] at rounded

/-- Any positive integer of a machine word is rounded to a number near to it. -/
theorem ofNat_near {value : Nat} (positive : 0 < value) (small : value < 2 ^ 64) :
    Near (.ofModel (.ofNat value)) value := (ofNat_rounded positive small).near

/-- Nothing and a double. -/
theorem zero_add_unpack {x y : Float} {sign : Sign} {value : ℚ}
    (zero : x.toModel.unpack = .zero sign) (normal : Normal y value) (moderate : Moderate value) :
    (x + y).toModel.unpack = y.toModel.unpack := by
  obtain ⟨mantissa, exponent, positive, unpacked, log, rfl⟩ := normal
  have range := moderate.exponent positive
  show (pack (UnpackedFloat.add Format.binary64 x.toModel.unpack y.toModel.unpack)).unpack = _
  rw [zero, unpacked]
  exact unpack_pack positive log (by omega) (by omega)

/-- One times a double. -/
theorem one_mul_unpack {x : Float} {value : ℚ} (normal : Normal x value)
    (moderate : Moderate value) : (1.0 * x).toModel.unpack = x.toModel.unpack := by
  obtain ⟨mantissa, exponent, positive, unpacked, log, rfl⟩ := normal
  have range := moderate.exponent positive
  have one : (1.0 : Float).toModel.unpack = .finite .positive (2 ^ 52) (-52) (by decide) := rfl
  have product : UnpackedFloat.mul Format.binary64 (.finite .positive (2 ^ 52) (-52) (by decide))
      (.finite .positive mantissa exponent positive) =
        .finite .positive mantissa exponent positive := by
    show roundWithAccuracy Format.binary64 .positive (2 ^ 52 * mantissa) (-52 + exponent) .exact = _
    rw [mul_comm, roundWithAccuracy_exact .positive positive log 52 (by omega)]
    congr 1
    omega
  show (pack (UnpackedFloat.mul Format.binary64 (1.0 : Float).toModel.unpack
    x.toModel.unpack)).unpack = _
  rw [one, unpacked, product]
  exact unpack_pack positive log (by omega) (by omega)

/-- A finite nonzero double divided by itself is one. -/
theorem div_same {x y : Float} {sign : Sign} {mantissa : Nat} {exponent : Int}
    {positive : 0 < mantissa}
    (finite : x.toModel.unpack = .finite sign mantissa exponent positive)
    (same : y.toModel.unpack = x.toModel.unpack) : x / y = 1.0 := by
  have quotient : divCore Format.binary64 mantissa exponent mantissa exponent =
      (2 ^ 53, -53, .exact) := by
    have target : min (exponent - exponent) (Format.binary64.targetExponent
        (totalExponent mantissa exponent - totalExponent mantissa exponent)) = -53 := by
      rw [sub_self, sub_self]
      decide
    unfold divCore
    simp only [target]
    rw [sub_self]
    show (mantissa <<< 53 / mantissa, (-53 : Int),
      accuracyOfFraction (mantissa <<< 53 % mantissa) mantissa) = _
    rw [Nat.shiftLeft_eq, Nat.mul_div_cancel_left _ positive, Nat.mul_mod_right]
    rfl
  show Float.ofModel (pack (UnpackedFloat.div Format.binary64 x.toModel.unpack
    y.toModel.unpack)) = _
  rw [same, finite]
  unfold UnpackedFloat.div
  simp only [quotient]
  cases sign <;> rfl

/-! ### Truncation -/

theorem toNat_ofNatClamp_le (value : Nat) : (UInt64.ofNatClamp value).toNat ≤ value := by
  unfold UInt64.ofNatClamp
  split
  · rename_i fits
    exact le_of_eq UInt64.toNat_ofNatLT
  · rename_i large
    exact le_trans (by decide) (not_lt.mp large)

/-- A double is cast to an integer that is not above it. -/
theorem toUInt64_le {x : Float} {value : ℚ} (positive : Positive x value) :
    (x.toUInt64.toNat : ℚ) ≤ value := by
  obtain ⟨mantissa, exponent, _, unpacked, _, rfl⟩ := positive
  have computed : x.toUInt64 =
      UInt64.ofNatClamp (roundToInt .positive mantissa exponent).toNat := by
    show UInt64.ofNatClamp (x.toModel.unpack.toInt 0 (UInt64.size - 1)).toNat = _
    rw [unpacked]
    rfl
  have rounded : roundToInt .positive mantissa exponent =
      ((mantissa * 2 ^ (exponent - 0).toNat /
        2 ^ (0 - (exponent - ((exponent - 0).toNat : Int))).toNat : Nat) : Int) := by
    show (((ExtendedMantissa.mk (mantissa <<< (exponent - 0).toNat) false false >>>
      (0 - (exponent - ((exponent - 0).toNat : Int))).toNat).mantissa : Nat) : Int) = _
    rw [shiftRight_mantissa, Nat.shiftLeft_eq]
  rw [computed, rounded, Int.toNat_natCast]
  calc ((UInt64.ofNatClamp _).toNat : ℚ)
      ≤ (mantissa * 2 ^ (exponent - 0).toNat /
          2 ^ (0 - (exponent - ((exponent - 0).toNat : Int))).toNat : Nat) :=
        Nat.cast_le.mpr (toNat_ofNatClamp_le _)
    _ ≤ ((mantissa * 2 ^ (exponent - 0).toNat : Nat) : ℚ) /
          (2 ^ (0 - (exponent - ((exponent - 0).toNat : Int))).toNat : Nat) := Nat.cast_div_le
    _ = mantissa * 2 ^ exponent := by
        push_cast
        rw [mul_div_assoc, ← zpow_natCast, ← zpow_natCast, ← zpow_sub₀ two_ne_zero]
        exact congrArg (fun power : Int => (mantissa : ℚ) * 2 ^ power) (by omega)

/-- Nothing is left of a product with zero, whatever the other factor is. -/
theorem toUInt64_mul_zero {x y : Float} {sign : Sign} (zero : y.toModel.unpack = .zero sign) :
    (x * y).toUInt64 = 0 := by
  show UnpackedFloat.toUInt64 (pack (UnpackedFloat.mul Format.binary64 x.toModel.unpack
    y.toModel.unpack)).unpack = 0
  rw [zero]
  cases x.toModel.unpack with
  | notANumber =>
    show UnpackedFloat.toUInt64 (pack .notANumber).unpack = 0
    decide
  | infinity other =>
    show UnpackedFloat.toUInt64 (pack .notANumber).unpack = 0
    decide
  | zero other => cases other <;> cases sign <;> decide
  | finite other mantissa exponent positive =>
    show UnpackedFloat.toUInt64 (pack (.zero (other * sign))).unpack = 0
    cases other <;> cases sign <;> decide

/-! ### Comparison -/

/-- Comparison of doubles is the comparison of what they unpack to. -/
theorem lt_iff (x y : Float) :
    x < y ↔ x.toModel.unpack.compare y.toModel.unpack = some .lt := by
  show decide (x.toModel < y.toModel) = true ↔ _
  rw [decide_eq_true_iff]
  show (x.toModel.unpack.compare y.toModel.unpack == some .lt) = true ↔ _
  rw [beq_iff_eq]

theorem le_iff (x y : Float) :
    x ≤ y ↔ (x.toModel.unpack.compare y.toModel.unpack).any (·.isLE) = true := by
  show decide (x.toModel ≤ y.toModel) = true ↔ _
  rw [decide_eq_true_iff]
  rfl

/-- A finite nonzero double is subnormal or has a full mantissa. -/
theorem unpack_finite {x : Float} {sign : Sign} {mantissa : Nat} {exponent : Int}
    {positive : 0 < mantissa}
    (unpacked : x.toModel.unpack = .finite sign mantissa exponent positive) :
    mantissa < 2 ^ 53 ∧ -1074 ≤ exponent ∧ (exponent = -1074 ∨ 2 ^ 52 ≤ mantissa) := by
  simp only [Float.Model.unpack, UnpackedFloat.unpack] at unpacked
  split at unpacked
  · split at unpacked <;> simp at unpacked
  · split at unpacked
    · split at unpacked
      · simp at unpacked
      · rename_i zeroExponent _
        simp only [UnpackedFloat.finite.injEq] at unpacked
        obtain ⟨_, rfl, rfl⟩ := unpacked
        rw [zeroExponent]
        exact ⟨lt_trans (BitVec.isLt _) (by decide), by decide, Or.inl (by decide)⟩
    · rename_i nonzero
      simp only [UnpackedFloat.finite.injEq] at unpacked
      obtain ⟨_, rfl, rfl⟩ := unpacked
      refine ⟨BitVec.isLt _, ?_, Or.inr ?_⟩
      · have least := Nat.pos_of_ne_zero (fun empty => nonzero (BitVec.eq_of_toNat_eq empty))
        show -1074 ≤ ((_ : Nat) : Int) - ((1023 : Int) + 52)
        omega
      · rw [BitVec.toNat_append]
        exact Nat.left_le_or

/-- A double from the unit interval is zero, or has a value below one. -/
theorem unit_cases {x : Float} (low : 0 ≤ x) (high : x < 1) :
    (∃ sign, x.toModel.unpack = .zero sign) ∨ ∃ value, Positive x value ∧ value < 1 := by
  have zero : (0 : Float).toModel.unpack = .zero .positive := rfl
  have one : (1 : Float).toModel.unpack = .finite .positive (2 ^ 52) (-52) (by decide) := rfl
  rw [le_iff, zero] at low
  rw [lt_iff, one] at high
  cases unpacked : x.toModel.unpack with
  | notANumber =>
    rw [unpacked] at high
    exact nomatch high
  | infinity sign =>
    rw [unpacked] at low high
    cases sign with
    | positive => exact nomatch high
    | negative => exact nomatch low
  | zero sign => exact Or.inl ⟨sign, rfl⟩
  | finite sign mantissa exponent positive =>
    rw [unpacked] at low high
    obtain ⟨below, above, _⟩ := unpack_finite unpacked
    cases sign with
    | negative => exact nomatch low
    | positive =>
      refine Or.inr ⟨_, ⟨mantissa, exponent, positive, unpacked, above, rfl⟩, ?_⟩
      have size : (mantissa : ℚ) < 2 ^ 53 := by exact_mod_cast below
      simp only [UnpackedFloat.compare, Option.some_inj] at high
      rcases lt_trichotomy exponent (-52) with smaller | rfl | larger
      · calc (mantissa : ℚ) * 2 ^ exponent
            ≤ mantissa * 2 ^ (-53 : Int) := by
              refine mul_le_mul_of_nonneg_left ?_ (Nat.cast_nonneg _)
              exact zpow_le_zpow_right₀ one_le_two (by omega)
          _ < 2 ^ 53 * 2 ^ (-53 : Int) := mul_lt_mul_of_pos_right size (by positivity)
          _ = 1 := by norm_num
      · have digits : mantissa < 2 ^ 52 := by
          rw [compare_eq_iff_eq.mpr rfl] at high
          exact compare_lt_iff_lt.mp high
        have digits' : (mantissa : ℚ) < 2 ^ 52 := by exact_mod_cast digits
        calc (mantissa : ℚ) * 2 ^ (-52 : Int)
            < 2 ^ 52 * 2 ^ (-52 : Int) := mul_lt_mul_of_pos_right digits' (by positivity)
          _ = 1 := by norm_num
      · rw [compare_gt_iff_gt.mpr larger] at high
        exact nomatch high

/-! ### Shares of a whole -/

/-- A positive normal double that can be a weight. -/
def Weight (w : Float) (value : ℚ) : Prop := Normal w value ∧ 1 / 256 ≤ value ∧ value ≤ 2

theorem moderate_of_bounds {value : ℚ} (low : 1 / 2 ^ 100 ≤ value) (high : value ≤ 2 ^ 100) :
    Moderate value :=
  ⟨le_trans (by norm_num) low, lt_of_le_of_lt high (by norm_num)⟩

theorem sum_weights_nonneg {weights : List Float} {values : List ℚ}
    (each : List.Forall₂ Weight weights values) : 0 ≤ values.sum := by
  induction each with
  | nil => exact le_rfl
  | cons weight _ inductionHypothesis =>
    rw [List.sum_cons]
    linarith [weight.2.1]

/-- Adding weights one by one loses at most one half in the last place each time. -/
theorem foldl_add_near {weights : List Float} {values : List ℚ}
    (each : List.Forall₂ Weight weights values) {start : Float} {sum exact : ℚ} {count : Nat}
    (started : Normal start sum) (low : 1 / 256 ≤ sum) (high : sum ≤ 4 * count)
    (short : count + weights.length ≤ 2 ^ 52) (least : exact ≤ sum) :
    ∃ total, Normal (weights.foldl (· + ·) start) total ∧ 1 / 256 ≤ total ∧
      total ≤ 4 * (count + weights.length : Nat) ∧
      (exact + values.sum) * (1 - 1 / 2 ^ 53) ^ weights.length ≤ total := by
  induction each generalizing start sum exact count with
  | nil => exact ⟨sum, started, low, high, by simpa using least⟩
  | @cons w value weights values weight each inductionHypothesis =>
    obtain ⟨normal, small, large⟩ := weight
    rw [List.length_cons] at short
    have counted : (count : ℚ) + 1 ≤ 2 ^ 52 := by
      exact_mod_cast (by omega : count + 1 ≤ 2 ^ 52)
    obtain ⟨next, added, error⟩ := add_near
      (started.toPositive (moderate_of_bounds (by linarith) (by linarith)))
      (normal.toPositive (moderate_of_bounds (by linarith) (by linarith)))
      (moderate_of_bounds (by linarith) (by linarith))
    obtain ⟨above, below⟩ := abs_le.mp error
    obtain ⟨total, folded, bounded, limited, kept⟩ := inductionHypothesis added (by linarith)
      (by push_cast; linarith : next ≤ 4 * (count + 1 : Nat)) (by omega)
      (by linarith : (exact + value) * (1 - 1 / 2 ^ 53) ≤ next)
    refine ⟨total, folded, bounded, ?_, ?_⟩
    · rw [List.length_cons, Nat.add_comm weights.length 1, ← Nat.add_assoc]
      exact limited
    · refine le_trans ?_ kept
      have rest := sum_weights_nonneg each
      rw [List.sum_cons, List.length_cons, pow_succ', ← mul_assoc]
      refine mul_le_mul_of_nonneg_right ?_ (by positivity)
      linarith

/-- The computed sum of weights. -/
theorem sum_near {weights : List Float} {values : List ℚ}
    (each : List.Forall₂ Weight weights values) (nonempty : weights ≠ [])
    (short : weights.length ≤ 2 ^ 52) :
    ∃ total, Normal (weights.foldl (· + ·) 0.0) total ∧ 1 / 256 ≤ total ∧ total ≤ 2 ^ 55 ∧
      values.sum * (1 - 1 / 2 ^ 53) ^ (weights.length - 1) ≤ total := by
  cases each with
  | nil => exact absurd rfl nonempty
  | @cons w value weights values weight each =>
    obtain ⟨normal, small, large⟩ := weight
    have zero : (0.0 : Float).toModel.unpack = .zero .positive := rfl
    have first : Normal (0.0 + w) value := by
      have same := zero_add_unpack zero normal
        (moderate_of_bounds (by linarith) (by linarith))
      obtain ⟨mantissa, exponent, positive, unpacked, rest⟩ := normal
      exact ⟨mantissa, exponent, positive, same.trans unpacked, rest⟩
    rw [List.length_cons] at short
    obtain ⟨total, folded, bounded, limited, kept⟩ := foldl_add_near each first small
      (by push_cast; linarith : value ≤ 4 * (1 : Nat)) (by omega) le_rfl
    have counted : ((1 + weights.length : Nat) : ℚ) ≤ 2 ^ 52 := by
      exact_mod_cast (by omega : 1 + weights.length ≤ 2 ^ 52)
    exact ⟨total, folded, bounded, by linarith, kept⟩

/-- The share of a weight in a whole is rounded three times. -/
theorem share_le {w total whole : Float} {value sum amount : ℚ} (weight : Weight w value)
    (summed : Normal total sum) (least : 1 / 256 ≤ sum) (most : sum ≤ 2 ^ 55)
    (given : Normal whole amount) (positive : 1 ≤ amount) (bounded : amount ≤ 2 ^ 64) :
    ((w / total * whole).toUInt64.toNat : ℚ) ≤
      value * (amount / sum * (1 + 1 / 2 ^ 53) ^ 2) := by
  obtain ⟨normal, small, large⟩ := weight
  have sumPositive : 0 < sum := by linarith
  have moderate := moderate_of_bounds (by linarith) (by linarith : value ≤ 2 ^ 100)
  have moderate' := moderate_of_bounds (by linarith) (by linarith : sum ≤ 2 ^ 100)
  obtain ⟨quotient, divided, error⟩ := div_near normal summed moderate moderate'
  have lower : 1 / 2 ^ 64 ≤ value / sum := by
    rw [div_le_div_iff₀ (by positivity) sumPositive]
    linarith
  have upper : value / sum ≤ 2 ^ 10 := by
    rw [div_le_iff₀ sumPositive]
    linarith
  obtain ⟨above, below⟩ := abs_le.mp error
  obtain ⟨product, multiplied, error'⟩ := mul_near divided given
    (moderate_of_bounds (by linarith) (by linarith))
    (moderate_of_bounds (by linarith) (by linarith))
  obtain ⟨above', below'⟩ := abs_le.mp error'
  have range : Moderate product := by
    have low : 1 / 2 ^ 65 * 1 ≤ quotient * amount :=
      mul_le_mul (by linarith) positive zero_le_one (by linarith)
    have high : quotient * amount ≤ 2 ^ 11 * 2 ^ 64 :=
      mul_le_mul (by linarith) bounded (by linarith) (by positivity)
    exact moderate_of_bounds (by linarith) (by linarith)
  calc ((w / total * whole).toUInt64.toNat : ℚ)
      ≤ product := toUInt64_le (multiplied.toPositive range)
    _ ≤ quotient * amount * (1 + 1 / 2 ^ 53) := by linarith
    _ ≤ value / sum * (1 + 1 / 2 ^ 53) * amount * (1 + 1 / 2 ^ 53) := by
        refine mul_le_mul_of_nonneg_right (mul_le_mul_of_nonneg_right ?_ ?_) ?_ <;> linarith
    _ = value * (amount / sum * (1 + 1 / 2 ^ 53) ^ 2) := by ring

/-- Bounds on the shares are a bound on their sum. -/
theorem sum_map_le {weights : List Float} {values : List ℚ}
    (each : List.Forall₂ Weight weights values) {share : Float → Nat} {factor : ℚ}
    (bounded : ∀ w value, Weight w value → (share w : ℚ) ≤ value * factor) :
    ((weights.map share).sum : ℚ) ≤ values.sum * factor := by
  induction each with
  | nil => simp
  | cons weight _ inductionHypothesis =>
    rw [List.map_cons, List.sum_cons, List.sum_cons, Nat.cast_add, add_mul]
    exact add_le_add (bounded _ _ weight) inductionHypothesis

/-- The losses of a few roundings are less than what is missing to the next integer. -/
theorem rounding_lt {amount count : Nat} (fits : (amount + 1) * (count + 1) < 2 ^ 53) :
    (amount : ℚ) < (amount + 1) * (1 - 1 / 2 ^ 53) ^ (count + 1) := by
  have power : 1 + ((count + 1 : Nat) : ℚ) * (-(1 / 2 ^ 53)) ≤ (1 + -(1 / 2 ^ 53)) ^ (count + 1) :=
    one_add_mul_le_pow (by norm_num) (count + 1)
  have bound : ((amount : ℚ) + 1) * (count + 1) < 2 ^ 53 := by exact_mod_cast fits
  have small : ((amount : ℚ) + 1) * (count + 1) / 2 ^ 53 < 1 := by
    rw [div_lt_one (by positivity)]
    exact bound
  calc (amount : ℚ) < (amount + 1) * (1 + ((count + 1 : Nat) : ℚ) * (-(1 / 2 ^ 53))) := by
        push_cast
        linarith
    _ ≤ (amount + 1) * (1 + -(1 / 2 ^ 53)) ^ (count + 1) :=
        mul_le_mul_of_nonneg_left power (by positivity)
    _ = (amount + 1) * (1 - 1 / 2 ^ 53) ^ (count + 1) := by rw [← sub_eq_add_neg]

/-- The truncated shares of some weights in a whole add up to no more than the whole, when the
whole is small enough for all the roundings together. -/
theorem sum_shares_le {weights : List Float} {values : List ℚ}
    (each : List.Forall₂ Weight weights values) (nonempty : weights ≠ []) {amount : Nat}
    (positive : 0 < amount) (fits : (amount + 1) * (weights.length + 1) < 2 ^ 53) :
    (weights.map fun w =>
      (w / weights.foldl (· + ·) 0.0 * .ofModel (.ofNat amount)).toUInt64.toNat).sum ≤ amount := by
  have length : 0 < weights.length := List.length_pos_iff.mpr nonempty
  have few : weights.length ≤ 2 ^ 52 := by nlinarith
  have small : amount < 2 ^ 53 := by nlinarith
  have small' : (amount : ℚ) ≤ 2 ^ 64 := by exact_mod_cast small.le.trans (by decide)
  obtain ⟨total, summed, least, most, kept⟩ := sum_near each nonempty few
  have totalPositive : 0 < total := by linarith
  have shares := sum_map_le each fun w value weight =>
    share_le weight summed least most (ofNat_exact positive small)
      (Nat.one_le_cast.mpr positive) small'
  have unit : (0 : ℚ) < (1 - 1 / 2 ^ 53) ^ (weights.length + 1) := by positivity
  obtain ⟨more, counted⟩ : ∃ more, weights.length = more + 1 :=
    ⟨_, (Nat.sub_add_cancel length).symm⟩
  rw [counted, Nat.add_sub_cancel] at kept
  have limit : values.sum * (amount / total * (1 + 1 / 2 ^ 53) ^ 2) *
      (1 - 1 / 2 ^ 53) ^ (weights.length + 1) ≤ amount := by
    calc values.sum * (amount / total * (1 + 1 / 2 ^ 53) ^ 2) *
          (1 - 1 / 2 ^ 53) ^ (weights.length + 1)
        = values.sum * (1 - 1 / 2 ^ 53) ^ more * (amount / total) *
            ((1 + 1 / 2 ^ 53) * (1 - 1 / 2 ^ 53)) ^ 2 := by
          rw [counted]
          ring
      _ ≤ total * (amount / total) * 1 := by
          refine mul_le_mul (mul_le_mul_of_nonneg_right kept (by positivity)) ?_ ?_ ?_
          · norm_num
          · norm_num
          · positivity
      _ = amount := by
          rw [mul_one, mul_div_cancel₀ _ totalPositive.ne']
  have below := rounding_lt fits
  have product := (mul_le_mul_of_nonneg_right shares unit.le).trans limit
  have strict := lt_of_mul_lt_mul_right (product.trans_lt below) unit.le
  exact_mod_cast Nat.lt_succ_iff.mp (by exact_mod_cast strict)

end Doubles
