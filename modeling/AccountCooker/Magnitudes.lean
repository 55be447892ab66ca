/-
This file bounds the doubles of the language by powers of two. Rounding to the
nearest never moves a number across a power of two that is itself a double, so
an operation of IEEE-754 keeps the bound its exact result has: for a product the
exponents add, for a quotient they subtract, and for a sum or a difference the
greater one grows by one.

Signs play no part, and neither do zeros and subnormal numbers. What has a bound
is neither infinite nor a NaN.
-/

import Mathlib
import AccountCooker.DoubleOrder

namespace Doubles

open Float.Model UnpackedFloat

/-! ### Bounds -/

/-- An unpacked double of a magnitude of at most `2 ^ bound`. -/
def WithinUnpacked (bound : Int) : UnpackedFloat → Prop
  | .notANumber => False
  | .infinity _ => False
  | .zero _ => True
  | .finite _ mantissa exponent _ =>
    -1074 ≤ exponent ∧ (mantissa : ℚ) * 2 ^ exponent ≤ 2 ^ bound

/-- A double of a magnitude of at most `2 ^ bound`. -/
def Within (bound : Int) (x : Float) : Prop := WithinUnpacked bound x.toModel.unpack

theorem WithinUnpacked.mono {bound bound' : Int} {x : UnpackedFloat} (below : bound ≤ bound')
    (within : WithinUnpacked bound x) : WithinUnpacked bound' x := by
  cases x with
  | finite sign mantissa exponent positive =>
    exact ⟨within.1, within.2.trans (zpow_le_zpow_right₀ one_le_two below)⟩
  | zero sign => exact trivial
  | infinity sign => exact within
  | notANumber => exact within

theorem Within.mono {bound bound' : Int} {x : Float} (below : bound ≤ bound')
    (within : Within bound x) : Within bound' x := WithinUnpacked.mono below within

/-- The leading digit of a number does not stand above a bound of the number. -/
theorem log2_add_le {mantissa : Nat} {exponent bound : Int} (positive : 0 < mantissa)
    (below : (mantissa : ℚ) * 2 ^ exponent ≤ 2 ^ bound) : mantissa.log2 + exponent ≤ bound :=
  (zpow_le_zpow_iff_right₀ (one_lt_two : (1 : ℚ) < 2)).mp
    ((value_bounds exponent positive).1.trans below)

/-! ### Packing -/

/-- What is packed without a full mantissa is unpacked as a subnormal number, of which the lower
digits of the mantissa are left. -/
theorem within_unpack_subnormal {bound : Int} (sign : Sign) (mantissa : BitVec 52)
    (below : (mantissa.toNat : ℚ) * 2 ^ (-1074 : Int) ≤ 2 ^ bound) :
    WithinUnpacked bound (UnpackedFloat.unpack Format.binary64
      (packComponents Format.binary64 sign 0#11 mantissa)) := by
  unfold UnpackedFloat.unpack
  simp only [unpackExponent_packComponents, unpackMantissa_packComponents,
    unpackSign_packComponents]
  rw [if_neg (by decide), if_pos trivial]
  split
  · exact trivial
  · exact ⟨by decide, below⟩

/-- Packing keeps a bound. -/
theorem within_pack {bound : Int} {x : UnpackedFloat} (range : bound ≤ 971)
    (within : WithinUnpacked bound x) : WithinUnpacked bound (pack x).unpack := by
  cases x with
  | notANumber => exact within.elim
  | infinity sign => exact within.elim
  | zero sign =>
    have kept : (pack (.zero sign)).unpack = .zero sign := by cases sign <;> rfl
    rw [kept]
    exact trivial
  | finite sign mantissa exponent positive =>
    obtain ⟨least, below⟩ := within
    have high := log2_add_le positive below
    by_cases full : mantissa.log2 = 52
    · rw [unpack_pack positive full least (by omega)]
      exact ⟨least, below⟩
    · have packed : UnpackedFloat.pack Format.binary64 (.finite sign mantissa exponent positive) =
          packComponents Format.binary64 sign 0#11 (BitVec.ofNat 52 mantissa) := by
        show (if 2 ^ 11 ≤ (exponent + 1023 + 52).toNat + 1 then _
          else if mantissa.log2 + 1 = 53 then _ else _) = _
        rw [if_neg (by omega), if_neg (by omega)]
      show WithinUnpacked bound (UnpackedFloat.unpack Format.binary64
        (UnpackedFloat.pack Format.binary64 (.finite sign mantissa exponent positive)))
      rw [packed]
      refine within_unpack_subnormal sign _ (le_trans ?_ below)
      refine mul_le_mul ?_ (zpow_le_zpow_right₀ one_le_two least) (by positivity)
        (Nat.cast_nonneg _)
      rw [BitVec.toNat_ofNat]
      exact Nat.cast_le.mpr (Nat.mod_le _ _)

/-! ### Rounding -/

/-- Rounding to an integer does not move a number across an integer. -/
theorem Represents.roundedMantissa_le {extended : ExtendedMantissa} {exact : ℚ} {whole : Nat}
    (represents : Represents extended exact) (below : exact ≤ whole) :
    extended.roundedMantissa ≤ whole := by
  have near := (abs_le.mp represents.roundedMantissa).2
  have strict : (extended.roundedMantissa : ℚ) < (whole + 1 : Nat) := by
    push_cast
    linarith
  exact Nat.lt_succ_iff.mp (Nat.cast_lt.mp strict)

/-- Where the last digit stands after a shift: not above the bound, and in range. -/
theorem shifted_le {mantissa : Nat} {exponent bound : Int} {exact : ℚ} (least : -1074 ≤ bound)
    (start : exponent ≤ bound) (whole : (mantissa : ℚ) ≤ exact)
    (below : exact * 2 ^ exponent ≤ 2 ^ bound) :
    -1074 ≤ exponent + ((Format.binary64.targetExponent
        (totalExponent mantissa exponent) - exponent).toNat : Int) ∧
      exponent + ((Format.binary64.targetExponent
        (totalExponent mantissa exponent) - exponent).toNat : Int) ≤ bound := by
  have target : Format.binary64.targetExponent (totalExponent mantissa exponent) =
      max (mantissa.log2 + exponent - 52) (-1074) := by
    unfold Format.targetExponent totalExponent Format.minExponent Format.mantissaBits
    simp only
    omega
  have leading : mantissa.log2 + exponent ≤ bound := by
    rcases Nat.eq_zero_or_pos mantissa with rfl | positive
    · rw [Nat.log2_zero]
      omega
    · refine log2_add_le positive (le_trans ?_ below)
      exact mul_le_mul_of_nonneg_right whole (by positivity)
  rw [target]
  omega

/-- Rounding keeps a bound. -/
theorem within_roundWithAccuracy {mantissa : Nat} {exponent bound : Int} {accuracy : Accuracy}
    {exact : ℚ} (sign : Sign) (least : -1074 ≤ bound) (start : exponent ≤ bound)
    (represents : Represents (.ofMantissaAndAccuracy mantissa accuracy) exact)
    (below : exact * 2 ^ exponent ≤ 2 ^ bound) :
    WithinUnpacked bound
      (roundWithAccuracy Format.binary64 sign mantissa exponent accuracy) := by
  have whole : (mantissa : ℚ) ≤ exact := by
    have rest := represents.bounds.1
    rw [ofMantissaAndAccuracy_mantissa] at rest
    linarith
  obtain ⟨low, high⟩ := shifted_le least start whole below
  unfold roundWithAccuracy shiftToTargetExponent shiftToExponent
  simp only
  generalize (Format.binary64.targetExponent (totalExponent mantissa exponent) -
    exponent).toNat = count at low high ⊢
  have shifted := represents.shiftRight count
  generalize ExtendedMantissa.ofMantissaAndAccuracy mantissa accuracy >>> count = extended
    at shifted ⊢
  -- The bound is an integer at the place of the last digit.
  have integer : ((2 ^ (bound - (exponent + count)).toNat : Nat) : ℚ) =
      2 ^ (bound - (exponent + count)) := by
    rw [Nat.cast_pow, Nat.cast_ofNat, ← zpow_natCast, Int.toNat_of_nonneg (by omega)]
  have scale (number : ℚ) :
      number / 2 ^ count * 2 ^ (exponent + count) = number * 2 ^ exponent := by
    rw [zpow_add₀ two_ne_zero, zpow_natCast]
    field_simp
  have unit : (0 : ℚ) < 2 ^ (exponent + count) := by positivity
  have rounded : extended.roundedMantissa ≤ 2 ^ (bound - (exponent + count)).toNat := by
    refine shifted.roundedMantissa_le ?_
    rw [integer, ← mul_le_mul_iff_of_pos_right unit, scale, ← zpow_add₀ two_ne_zero,
      sub_add_cancel]
    exact below
  have within : (extended.roundedMantissa : ℚ) * 2 ^ (exponent + count) ≤ 2 ^ bound := by
    have cast : (extended.roundedMantissa : ℚ) ≤ 2 ^ (bound - (exponent + count)) := by
      rw [← integer]
      exact Nat.cast_le.mpr rounded
    refine (mul_le_mul_of_nonneg_right cast unit.le).trans_eq ?_
    rw [← zpow_add₀ two_ne_zero, sub_add_cancel]
  -- Bringing the mantissa back to its digits only drops digits.
  split
  · exact trivial
  · refine ⟨by omega, le_trans ?_ within⟩
    rw [shiftRight_mantissa, ofMantissaAndAccuracy_mantissa]
    generalize (Format.binary64.targetExponent (totalExponent extended.roundedMantissa
      (exponent + count)) - (exponent + count)).toNat = again
    calc ((extended.roundedMantissa / 2 ^ again : Nat) : ℚ) * 2 ^ (exponent + count + again)
        ≤ ((extended.roundedMantissa : ℚ) / (2 ^ again : Nat)) *
            2 ^ (exponent + count + again) :=
          mul_le_mul_of_nonneg_right Nat.cast_div_le (by positivity)
      _ = extended.roundedMantissa * 2 ^ (exponent + count) := by
          rw [Nat.cast_pow, Nat.cast_ofNat, zpow_add₀ two_ne_zero (exponent + count),
            zpow_natCast]
          field_simp

theorem within_round {mantissa : Nat} {exponent bound : Int} (sign : Sign) (least : -1074 ≤ bound)
    (start : exponent ≤ bound) (below : (mantissa : ℚ) * 2 ^ exponent ≤ 2 ^ bound) :
    WithinUnpacked bound (UnpackedFloat.round Format.binary64 sign mantissa exponent) := by
  unfold UnpackedFloat.round decreaseExponent
  simp only [Nat.shiftLeft_eq]
  refine within_roundWithAccuracy sign least (by omega) (represents_exact _) ?_
  rw [filled_value]
  exact below

theorem within_normalize {mantissa exponent bound : Int} (zeroSign : Sign)
    (least : -1074 ≤ bound) (start : exponent ≤ bound)
    (below : |(mantissa : ℚ)| * 2 ^ exponent ≤ 2 ^ bound) :
    WithinUnpacked bound
      (UnpackedFloat.normalize Format.binary64 mantissa exponent zeroSign) := by
  have size (nonnegative : 0 ≤ |mantissa|) : ((|mantissa|.toNat : Nat) : ℚ) = |(mantissa : ℚ)| := by
    rw [← Int.cast_natCast, Int.toNat_of_nonneg nonnegative, Int.cast_abs]
  rw [← size (abs_nonneg _)] at below
  unfold UnpackedFloat.normalize
  split
  · rename_i negative
    rw [abs_of_neg (compare_lt_iff_lt.mp negative)] at below
    exact within_round .negative least start below
  · exact trivial
  · rename_i positive
    rw [abs_of_pos (compare_gt_iff_gt.mp positive)] at below
    exact within_round .positive least start below

/-! ### Operations -/

section Unpacked

variable {x y : UnpackedFloat} {bound bound' : Int}

/-- A double with a bound is zero or finite. -/
theorem WithinUnpacked.cases (within : WithinUnpacked bound x) :
    (∃ sign, x = .zero sign) ∨ ∃ sign mantissa exponent positive,
      x = .finite sign mantissa exponent positive ∧ (mantissa : ℚ) * 2 ^ exponent ≤ 2 ^ bound := by
  cases x with
  | notANumber => exact within.elim
  | infinity sign => exact within.elim
  | zero sign => exact Or.inl ⟨sign, rfl⟩
  | finite sign mantissa exponent positive =>
    exact Or.inr ⟨sign, mantissa, exponent, positive, rfl, within.2⟩

theorem WithinUnpacked.neg (within : WithinUnpacked bound x) : WithinUnpacked bound x.neg := by
  cases x <;> exact within

theorem WithinUnpacked.mul (first : WithinUnpacked bound x) (second : WithinUnpacked bound' y)
    (least : -1074 ≤ bound + bound') :
    WithinUnpacked (bound + bound') (UnpackedFloat.mul Format.binary64 x y) := by
  rcases first.cases with ⟨sign, rfl⟩ | ⟨sign, m, e, positive, rfl, below⟩ <;>
    rcases second.cases with ⟨sign', rfl⟩ | ⟨sign', n, f, positive', rfl, below'⟩
  · exact trivial
  · exact trivial
  · exact trivial
  · have high := log2_add_le positive below
    have high' := log2_add_le positive' below'
    refine within_roundWithAccuracy _ least (by omega) (represents_exact _) ?_
    calc ((m * n : Nat) : ℚ) * 2 ^ (e + f) = m * 2 ^ e * (n * 2 ^ f) := by
          rw [zpow_add₀ two_ne_zero]
          push_cast
          ring
      _ ≤ 2 ^ bound * 2 ^ bound' := mul_le_mul below below' (by positivity) (by positivity)
      _ = 2 ^ (bound + bound') := (zpow_add₀ two_ne_zero _ _).symm

theorem abs_apply (sign : Sign) (mantissa : Nat) :
    |((sign.apply (mantissa : Int) : Int) : ℚ)| = mantissa := by
  cases sign
  · show |((-(mantissa : Nat) : Int) : ℚ)| = mantissa
    rw [Int.cast_neg, abs_neg, Int.cast_natCast, Nat.abs_cast]
  · show |(((mantissa : Nat) : Int) : ℚ)| = mantissa
    rw [Int.cast_natCast, Nat.abs_cast]

/-- Two bounded magnitudes, aligned at the smaller exponent, stay below the doubled bound
together. -/
theorem aligned_le {m n : Nat} {e f : Int} (below : (m : ℚ) * 2 ^ e ≤ 2 ^ bound)
    (below' : (n : ℚ) * 2 ^ f ≤ 2 ^ bound) :
    (((m * 2 ^ (e - min e f).toNat : Nat) : ℚ) + (n * 2 ^ (f - min e f).toNat : Nat)) *
      2 ^ min e f ≤ 2 ^ (bound + 1) := by
  have scale (k : Int) (above : min e f ≤ k) :
      (2 : ℚ) ^ (k - min e f).toNat * 2 ^ min e f = 2 ^ k := by
    rw [← zpow_natCast, ← zpow_add₀ two_ne_zero]
    exact congrArg _ (by omega)
  push_cast
  rw [add_mul, mul_assoc, mul_assoc, scale e (min_le_left _ _), scale f (min_le_right _ _),
    zpow_add_one₀ two_ne_zero]
  linarith

theorem WithinUnpacked.add (first : WithinUnpacked bound x) (second : WithinUnpacked bound y)
    (least : -1074 ≤ bound) :
    WithinUnpacked (bound + 1) (UnpackedFloat.add Format.binary64 x y) := by
  have first' : WithinUnpacked (bound + 1) x := first.mono (by omega)
  have second' : WithinUnpacked (bound + 1) y := second.mono (by omega)
  rcases first.cases with ⟨sign, rfl⟩ | ⟨sign, m, e, positive, rfl, below⟩ <;>
    rcases second.cases with ⟨sign', rfl⟩ | ⟨sign', n, f, positive', rfl, below'⟩
  · cases sign <;> cases sign' <;> exact trivial
  · exact second'
  · exact first'
  · have high := log2_add_le positive below
    unfold UnpackedFloat.add decreaseExponent
    simp only [Nat.shiftLeft_eq]
    refine within_normalize _ (by omega) (by omega) (le_trans ?_ (aligned_le below below'))
    refine mul_le_mul_of_nonneg_right ?_ (by positivity)
    rw [Int.cast_add]
    exact (abs_add_le _ _).trans_eq (by rw [abs_apply, abs_apply])

/-- Subtracting is adding the negative. -/
theorem sub_eq_add_neg_unpacked (x y : UnpackedFloat) :
    UnpackedFloat.sub Format.binary64 x y = UnpackedFloat.add Format.binary64 x y.neg := by
  have apply (sign : Sign) (mantissa : Int) : (-sign).apply mantissa = -sign.apply mantissa := by
    cases sign
    · exact (neg_neg mantissa).symm
    · rfl
  cases x with
  | finite sign m e positive =>
    cases y with
    | finite sign' n f positive' =>
      unfold UnpackedFloat.sub UnpackedFloat.add UnpackedFloat.neg
      simp only [apply, sub_eq_add_neg]
    | _ => rfl
  | _ => cases y <;> rfl

/-- An unpacked double of a magnitude of at least `2 ^ bound`. -/
def BeyondUnpacked (bound : Int) : UnpackedFloat → Prop
  | .notANumber => False
  | .infinity _ => True
  | .zero _ => False
  | .finite _ mantissa exponent _ => 2 ^ bound ≤ (mantissa : ℚ) * 2 ^ exponent

theorem WithinUnpacked.div (first : WithinUnpacked bound x) (second : BeyondUnpacked bound' y)
    (least : -1074 ≤ bound - bound') :
    WithinUnpacked (bound - bound') (UnpackedFloat.div Format.binary64 x y) := by
  cases y with
  | notANumber => exact second.elim
  | zero sign' => exact second.elim
  | infinity sign' =>
    rcases first.cases with ⟨sign, rfl⟩ | ⟨sign, m, e, positive, rfl, _⟩ <;> exact trivial
  | finite sign' n f positive' =>
    rcases first.cases with ⟨sign, rfl⟩ | ⟨sign, m, e, positive, rfl, below⟩
    · exact trivial
    · have above : (2 : ℚ) ^ bound' ≤ n * 2 ^ f := second
      have high := log2_add_le positive below
      have low := (zpow_lt_zpow_iff_right₀ (one_lt_two : (1 : ℚ) < 2)).mp
        (above.trans_lt (value_bounds f positive').2)
      have target : Format.binary64.targetExponent (totalExponent m e - totalExponent n f) =
          max (m.log2 + e - (n.log2 + f) - 53) (-1074) := by
        unfold Format.targetExponent totalExponent Format.minExponent Format.mantissaBits
        simp only
        omega
      show WithinUnpacked _ (roundWithAccuracy Format.binary64 (sign / sign')
        (divCore Format.binary64 m e n f).1 (divCore Format.binary64 m e n f).2.1
        (divCore Format.binary64 m e n f).2.2)
      unfold divCore
      simp only [target, Nat.shiftLeft_eq]
      generalize scale : min (e - f) (max (m.log2 + e - (n.log2 + f) - 53) (-1074)) = exponent
      refine within_roundWithAccuracy _ least (by omega)
        (represents_fraction (m * 2 ^ (e - f - exponent).toNat) n positive') ?_
      have cast : (n : ℚ) ≠ 0 := Nat.cast_ne_zero.mpr positive'.ne'
      have shift : (2 : ℚ) ^ (e - f - exponent).toNat * 2 ^ exponent = 2 ^ e / 2 ^ f := by
        rw [← zpow_natCast, ← zpow_add₀ two_ne_zero, ← zpow_sub₀ two_ne_zero]
        exact congrArg _ (by omega)
      calc ((m * 2 ^ (e - f - exponent).toNat : Nat) : ℚ) / n * 2 ^ exponent
          = m * (2 ^ (e - f - exponent).toNat * 2 ^ exponent) / n := by
            push_cast
            ring
        _ = m * 2 ^ e / (n * 2 ^ f) := by
            rw [shift]
            field_simp
        _ ≤ 2 ^ bound / 2 ^ bound' := div_le_div₀ (by positivity) below (by positivity) above
        _ = 2 ^ (bound - bound') := (zpow_sub₀ two_ne_zero _ _).symm

end Unpacked

/-- A double of a magnitude of at least `2 ^ bound`. -/
def Beyond (bound : Int) (x : Float) : Prop := BeyondUnpacked bound x.toModel.unpack

section Operations

variable {x y : Float} {bound bound' : Int}

/-- A product has the product of the bounds. -/
theorem Within.mul (first : Within bound x) (second : Within bound' y)
    (least : -1074 ≤ bound + bound') (most : bound + bound' ≤ 971) :
    Within (bound + bound') (x * y) :=
  within_pack most (WithinUnpacked.mul first second least)

/-- A sum at most doubles a common bound. -/
theorem Within.add (first : Within bound x) (second : Within bound y) (least : -1074 ≤ bound)
    (most : bound < 971) : Within (bound + 1) (x + y) :=
  within_pack (by omega) (WithinUnpacked.add first second least)

/-- A difference at most doubles a common bound. -/
theorem Within.sub (first : Within bound x) (second : Within bound y) (least : -1074 ≤ bound)
    (most : bound < 971) : Within (bound + 1) (x - y) := by
  have within := WithinUnpacked.add first (WithinUnpacked.neg second) least
  rw [← sub_eq_add_neg_unpacked] at within
  exact within_pack (by omega) within

/-- A quotient has the quotient of the bounds. -/
theorem Within.div (first : Within bound x) (second : Beyond bound' y)
    (least : -1074 ≤ bound - bound') (most : bound - bound' ≤ 971) :
    Within (bound - bound') (x / y) :=
  within_pack most (WithinUnpacked.div first second least)

theorem Within.neg (within : Within bound x) (most : bound ≤ 971) : Within bound (-x) :=
  within_pack most (WithinUnpacked.neg within)

/-! ### Values -/

theorem abs_signed (sign : Sign) (magnitude : ℚ) : |signed sign magnitude| = |magnitude| := by
  cases sign
  · exact abs_neg magnitude
  · rfl

theorem within_of_value (number : x.isNaN = false) (below : |value x| ≤ 2 ^ bound)
    (range : bound < 1024) : Within bound x := by
  have canonical := unpack_canonical x
  have notNaN := isNaN_eq_false number
  unfold value at below
  unfold Within
  cases unpacked : x.toModel.unpack with
  | notANumber => exact absurd unpacked notNaN
  | infinity sign =>
    rw [unpacked] at below
    simp only [unpackedValue, abs_signed, abs_pow, abs_two] at below
    rw [← zpow_natCast] at below
    have high := (zpow_le_zpow_iff_right₀ (one_lt_two : (1 : ℚ) < 2)).mp below
    exact absurd range (not_lt.mpr high)
  | zero sign => exact trivial
  | finite sign mantissa exponent positive =>
    rw [unpacked] at below canonical
    simp only [unpackedValue, abs_signed] at below
    exact ⟨canonical.least, le_trans (le_abs_self _) below⟩

theorem Within.abs_value_le (within : Within bound x) : |value x| ≤ 2 ^ bound := by
  unfold value
  rcases WithinUnpacked.cases within with ⟨sign, unpacked⟩ |
    ⟨sign, mantissa, exponent, positive, unpacked, below⟩
  · rw [unpacked]
    simp only [unpackedValue, abs_zero]
    positivity
  · rw [unpacked]
    simp only [unpackedValue, abs_signed]
    rwa [abs_of_nonneg (by positivity)]

theorem beyond_of_value (number : x.isNaN = false) (above : 2 ^ bound ≤ |value x|) :
    Beyond bound x := by
  have notNaN := isNaN_eq_false number
  unfold value at above
  unfold Beyond
  cases unpacked : x.toModel.unpack with
  | notANumber => exact absurd unpacked notNaN
  | infinity sign => exact trivial
  | zero sign =>
    rw [unpacked] at above
    simp only [unpackedValue, abs_zero] at above
    exact absurd above (not_le.mpr (by positivity))
  | finite sign mantissa exponent positive =>
    rw [unpacked] at above
    simp only [unpackedValue, abs_signed] at above
    rwa [abs_of_nonneg (by positivity)] at above

/-- What lies between two doubles has their common bound. -/
theorem within_of_between {low high : Float} (above : low ≤ x) (below : x ≤ high)
    (first : Within bound low) (second : Within bound high) (range : bound < 1024) :
    Within bound x := by
  obtain ⟨lowNumber, number⟩ := number_of_le above
  obtain ⟨_, highNumber⟩ := number_of_le below
  have least := (le_iff_value lowNumber number).mp above
  have most := (le_iff_value number highNumber).mp below
  refine within_of_value number (abs_le.mpr ⟨?_, ?_⟩) range
  · exact (abs_le.mp first.abs_value_le).1.trans least
  · exact most.trans (abs_le.mp second.abs_value_le).2

/-- The integer a double is cast to has its bound. -/
theorem Within.toUInt64_le (within : Within bound x) :
    (x.toUInt64.toNat : ℚ) ≤ 2 ^ bound := by
  have cast : x.toUInt64 = UInt64.ofNatClamp (x.toModel.unpack.toInt 0 (UInt64.size - 1)).toNat :=
    rfl
  have nothing (empty : (x.toModel.unpack.toInt 0 (UInt64.size - 1)).toNat = 0) :
      (x.toUInt64.toNat : ℚ) ≤ 2 ^ bound := by
    rw [cast, empty]
    have zero : (UInt64.ofNatClamp 0).toNat = 0 := by decide
    rw [zero, Nat.cast_zero]
    positivity
  rcases WithinUnpacked.cases within with ⟨sign, unpacked⟩ |
    ⟨sign, mantissa, exponent, nonzero, unpacked, below⟩
  · exact nothing (by rw [unpacked]; rfl)
  · cases sign with
    | positive =>
      have least : WithinUnpacked bound x.toModel.unpack := within
      rw [unpacked] at least
      exact (Doubles.toUInt64_le ⟨mantissa, exponent, nonzero, unpacked, least.1, rfl⟩).trans below
    | negative =>
      refine nothing ?_
      rw [unpacked]
      exact Int.toNat_of_nonpos (neg_nonpos_of_nonneg (Int.natCast_nonneg _))

end Operations

end Doubles
