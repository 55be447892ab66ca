/-
This file orders the doubles of the language by their exact values. What is not
a NaN has a rational value, where an infinity counts as `2 ^ 1024`, above all
finite doubles. The comparisons of IEEE-754 are the comparisons of the values,
and the bits of a double, read as a sign and a magnitude, rise with its value.
-/

import Mathlib
import AccountCooker.Doubles

namespace Doubles

open Float.Model UnpackedFloat

/-! ### Exact values -/

/-- A magnitude with a sign. -/
def signed : Sign → ℚ → ℚ
  | .positive, magnitude => magnitude
  | .negative, magnitude => -magnitude

def unpackedValue : UnpackedFloat → ℚ
  | .notANumber => 0
  | .infinity sign => signed sign (2 ^ 1024)
  | .zero _ => 0
  | .finite sign mantissa exponent _ => signed sign (mantissa * 2 ^ exponent)

/-- The exact value of a double. -/
def value (x : Float) : ℚ := unpackedValue x.toModel.unpack

/-- A mantissa and an exponent as they are unpacked from a double. -/
structure Canonical (mantissa : Nat) (exponent : Int) : Prop where
  positive : 0 < mantissa
  digits : mantissa < 2 ^ 53
  least : -1074 ≤ exponent
  most : exponent ≤ 971
  full : exponent = -1074 ∨ 2 ^ 52 ≤ mantissa

/-- What a double unpacks to is canonical when it is finite and not zero. -/
def CanonicalFloat : UnpackedFloat → Prop
  | .finite _ mantissa exponent _ => Canonical mantissa exponent
  | _ => True

theorem unpack_canonical (x : Float) : CanonicalFloat x.toModel.unpack := by
  cases unpacked : x.toModel.unpack with
  | finite sign mantissa exponent positive =>
    obtain ⟨digits, least, full⟩ := unpack_finite unpacked
    refine ⟨positive, digits, least, ?_, full⟩
    simp only [Float.Model.unpack, UnpackedFloat.unpack] at unpacked
    split at unpacked
    · split at unpacked <;> simp at unpacked
    · rename_i finite
      have field : (@unpackExponent Format.binary64 x.toModel.toBits.toBitVec).toNat <
          2047 := by
        refine lt_of_le_of_ne (Nat.le_of_lt_succ (BitVec.isLt _)) (fun ones => finite ?_)
        exact BitVec.eq_of_toNat_eq ones
      split at unpacked
      · rename_i subnormal
        split at unpacked
        · simp at unpacked
        · simp only [UnpackedFloat.finite.injEq] at unpacked
          obtain ⟨_, _, rfl⟩ := unpacked
          rw [subnormal]
          decide
      · simp only [UnpackedFloat.finite.injEq] at unpacked
        obtain ⟨_, _, rfl⟩ := unpacked
        show ((_ : Nat) : Int) - ((1023 : Int) + 52) ≤ 971
        omega
  | notANumber => trivial
  | infinity sign => trivial
  | zero sign => trivial

section Magnitudes

variable {mantissa mantissa' : Nat} {exponent exponent' : Int}

theorem Canonical.magnitude_pos (canonical : Canonical mantissa exponent) :
    (0 : ℚ) < mantissa * 2 ^ exponent := by
  have cast : (0 : ℚ) < mantissa := Nat.cast_pos.mpr canonical.positive
  positivity

/-- A smaller exponent is a smaller magnitude. -/
theorem magnitude_lt (digits : mantissa < 2 ^ 53) (full : 2 ^ 52 ≤ mantissa')
    (smaller : exponent < exponent') :
    (mantissa : ℚ) * 2 ^ exponent < mantissa' * 2 ^ exponent' := by
  have digits : (mantissa : ℚ) < 2 ^ 53 := by exact_mod_cast digits
  have full' : (2 : ℚ) ^ 52 ≤ mantissa' := by exact_mod_cast full
  calc (mantissa : ℚ) * 2 ^ exponent
      < 2 ^ 53 * 2 ^ exponent := mul_lt_mul_of_pos_right digits (by positivity)
    _ = 2 ^ 52 * 2 ^ (exponent + 1) := by rw [zpow_add_one₀ two_ne_zero]; ring
    _ ≤ 2 ^ 52 * 2 ^ exponent' := by
      refine mul_le_mul_of_nonneg_left ?_ (by positivity)
      exact zpow_le_zpow_right₀ one_le_two (by omega)
    _ ≤ mantissa' * 2 ^ exponent' := mul_le_mul_of_nonneg_right full' (by positivity)

/-- Finite doubles are below an infinity. -/
theorem Canonical.magnitude_lt_infinity (canonical : Canonical mantissa exponent) :
    (mantissa : ℚ) * 2 ^ exponent < 2 ^ 1024 := by
  have top := magnitude_lt canonical.digits (le_refl (2 ^ 52)) (Int.lt_add_one_of_le canonical.most)
  refine top.trans_eq ?_
  rw [Nat.cast_pow, Nat.cast_ofNat, ← zpow_natCast, ← zpow_natCast, ← zpow_add₀ two_ne_zero]
  norm_num

/-- Exponents and then mantissas compare as the magnitudes do. -/
theorem Canonical.compare_eq (first : Canonical mantissa exponent)
    (second : Canonical mantissa' exponent') :
    (compare exponent exponent').then (compare mantissa mantissa') =
      compare ((mantissa : ℚ) * 2 ^ exponent) (mantissa' * 2 ^ exponent') := by
  rcases lt_trichotomy exponent exponent' with smaller | rfl | larger
  · have full : 2 ^ 52 ≤ mantissa' := second.full.resolve_left (by have := first.least; omega)
    rw [compare_lt_iff_lt.mpr smaller,
      compare_lt_iff_lt.mpr (magnitude_lt first.digits full smaller)]
    rfl
  · rw [compare_eq_iff_eq.mpr rfl, Ordering.eq_then]
    have unit : (0 : ℚ) < 2 ^ exponent := by positivity
    rcases lt_trichotomy mantissa mantissa' with below | rfl | above
    · rw [compare_lt_iff_lt.mpr below, compare_lt_iff_lt.mpr
        (mul_lt_mul_of_pos_right (Nat.cast_lt.mpr below) unit)]
    · rw [compare_eq_iff_eq.mpr rfl, compare_eq_iff_eq.mpr rfl]
    · rw [compare_gt_iff_gt.mpr above, compare_gt_iff_gt.mpr
        (mul_lt_mul_of_pos_right (Nat.cast_lt.mpr above) unit)]
  · have full : 2 ^ 52 ≤ mantissa := first.full.resolve_left (by have := second.least; omega)
    rw [compare_gt_iff_gt.mpr larger,
      compare_gt_iff_gt.mpr (magnitude_lt second.digits full larger)]
    rfl

end Magnitudes

/-! ### Comparison -/

theorem compare_neg (first second : ℚ) : compare (-first) (-second) = compare second first := by
  rcases lt_trichotomy first second with below | rfl | above
  · rw [compare_gt_iff_gt.mpr below, compare_gt_iff_gt.mpr (neg_lt_neg below)]
  · exact (compare_eq_iff_eq.mpr rfl).trans (compare_eq_iff_eq.mpr rfl).symm
  · rw [compare_lt_iff_lt.mpr above, compare_lt_iff_lt.mpr (neg_lt_neg above)]

/-- Comparison is comparison of the values. -/
theorem compare_unpacked {x y : UnpackedFloat} (canonical : CanonicalFloat x)
    (canonical' : CanonicalFloat y) (number : x ≠ .notANumber) (number' : y ≠ .notANumber) :
    x.compare y = some (compare (unpackedValue x) (unpackedValue y)) := by
  have infinite : (0 : ℚ) < 2 ^ 1024 := by positivity
  have below {a b : ℚ} (less : a < b) : some Ordering.lt = some (compare a b) :=
    congrArg some (compare_lt_iff_lt.mpr less).symm
  have above {a b : ℚ} (more : b < a) : some Ordering.gt = some (compare a b) :=
    congrArg some (compare_gt_iff_gt.mpr more).symm
  have same {a b : ℚ} (equal : a = b) : some Ordering.eq = some (compare a b) :=
    congrArg some (compare_eq_iff_eq.mpr equal).symm
  have across {a b : ℚ} (first : 0 < a) (second : 0 < b) : -a < b :=
    (neg_neg_of_pos first).trans second
  cases x with
  | notANumber => exact absurd rfl number
  | infinity sign =>
    cases y with
    | notANumber => exact absurd rfl number'
    | infinity sign' =>
      cases sign <;> cases sign'
      · exact same rfl
      · exact below (across infinite infinite)
      · exact above (across infinite infinite)
      · exact same rfl
    | zero _ =>
      cases sign
      · exact below (neg_neg_of_pos infinite)
      · exact above infinite
    | finite sign' mantissa' exponent' _ =>
      have finite := canonical'.magnitude_lt_infinity
      have positive := canonical'.magnitude_pos
      cases sign <;> cases sign'
      · exact below (neg_lt_neg finite)
      · exact below (across infinite positive)
      · exact above (across positive infinite)
      · exact above finite
  | zero _ =>
    cases y with
    | notANumber => exact absurd rfl number'
    | infinity sign' =>
      cases sign'
      · exact above (neg_neg_of_pos infinite)
      · exact below infinite
    | zero _ => exact same rfl
    | finite sign' _ _ _ =>
      have positive := canonical'.magnitude_pos
      cases sign'
      · exact above (neg_neg_of_pos positive)
      · exact below positive
  | finite sign mantissa exponent _ =>
    have positive := canonical.magnitude_pos
    cases y with
    | notANumber => exact absurd rfl number'
    | infinity sign' =>
      have finite := canonical.magnitude_lt_infinity
      cases sign <;> cases sign'
      · exact above (neg_lt_neg finite)
      · exact below (across positive infinite)
      · exact above (across infinite positive)
      · exact below finite
    | zero _ =>
      cases sign
      · exact below (neg_neg_of_pos positive)
      · exact above positive
    | finite sign' mantissa' exponent' _ =>
      have positive' := canonical'.magnitude_pos
      have magnitudes := canonical.compare_eq canonical'
      cases sign <;> cases sign'
      · show some ((compare exponent exponent').then (compare mantissa mantissa')).swap =
          some (compare (-_) (-_))
        rw [compare_neg, magnitudes, ← Std.OrientedCmp.eq_swap]
      · exact below (across positive positive')
      · exact above (across positive' positive)
      · exact congrArg some magnitudes

theorem isNaN_eq_false {x : Float} (number : x.isNaN = false) :
    x.toModel.unpack ≠ .notANumber := by
  intro unpacked
  have isNaN : x.isNaN = true := by
    show x.toModel.unpack.isNaN = true
    rw [unpacked]
    rfl
  rw [number] at isNaN
  exact Bool.false_ne_true isNaN

theorem number_of_isFinite {x : Float} (finite : x.isFinite = true) : x.isNaN = false := by
  change x.toModel.unpack.isFinite = true at finite
  show x.toModel.unpack.isNaN = false
  cases unpacked : x.toModel.unpack with
  | notANumber =>
    rw [unpacked] at finite
    exact absurd finite (by decide)
  | _ => rfl

section Order

variable {x y : Float}

theorem compare_value (number : x.isNaN = false) (number' : y.isNaN = false) :
    x.toModel.unpack.compare y.toModel.unpack = some (compare (value x) (value y)) :=
  compare_unpacked (unpack_canonical x) (unpack_canonical y) (isNaN_eq_false number)
    (isNaN_eq_false number')

theorem lt_iff_value (number : x.isNaN = false) (number' : y.isNaN = false) :
    x < y ↔ value x < value y := by
  rw [lt_iff, compare_value number number', Option.some_inj, compare_lt_iff_lt]

theorem le_iff_value (number : x.isNaN = false) (number' : y.isNaN = false) :
    x ≤ y ↔ value x ≤ value y := by
  rw [le_iff, compare_value number number', Option.any_some, Ordering.isLE_iff_ne_gt]
  exact compare_le_iff_le

theorem beq_iff_value (number : x.isNaN = false) (number' : y.isNaN = false) :
    (x == y) = true ↔ value x = value y := by
  show (x.toModel.unpack.compare y.toModel.unpack == some .eq) = true ↔ _
  rw [beq_iff_eq, compare_value number number', Option.some_inj, compare_eq_iff_eq]

/-- What compares with something is not a NaN. -/
theorem number_of_compare {order : Ordering}
    (compared : x.toModel.unpack.compare y.toModel.unpack = some order) :
    x.isNaN = false ∧ y.isNaN = false := by
  constructor
  · show x.toModel.unpack.isNaN = false
    cases unpacked : x.toModel.unpack with
    | notANumber =>
      rw [unpacked] at compared
      exact absurd compared (by simp [UnpackedFloat.compare])
    | _ => rfl
  · show y.toModel.unpack.isNaN = false
    cases unpacked : y.toModel.unpack with
    | notANumber =>
      rw [unpacked] at compared
      cases other : x.toModel.unpack <;> rw [other] at compared <;>
        exact absurd compared (by simp [UnpackedFloat.compare])
    | _ => rfl

theorem number_of_beq (equal : (x == y) = true) : x.isNaN = false ∧ y.isNaN = false :=
  number_of_compare (beq_iff_eq.mp equal : _ = some .eq)

theorem number_of_le (ordered : x ≤ y) : x.isNaN = false ∧ y.isNaN = false := by
  obtain ⟨order, compared, _⟩ := (Option.any_eq_true _ _).mp ((le_iff x y).mp ordered)
  exact number_of_compare compared

/-- Equality of doubles is the equality of the values of numbers. -/
theorem beq_iff : (x == y) = true ↔ x.isNaN = false ∧ y.isNaN = false ∧ value x = value y := by
  constructor
  · intro equal
    obtain ⟨one, other⟩ := number_of_beq equal
    exact ⟨one, other, (beq_iff_value one other).mp equal⟩
  · rintro ⟨one, other, same⟩
    exact (beq_iff_value one other).mpr same

end Order

/-! ### Bits -/

/-- The magnitude of the bits of a double below the sign. -/
def magnitudeOf (bits : Nat) : ℚ :=
  if bits / 2 ^ 52 = 0 then (bits % 2 ^ 52 : Nat) * 2 ^ (-1074 : Int)
  else (2 ^ 52 + bits % 2 ^ 52 : Nat) * 2 ^ ((bits / 2 ^ 52 : Nat) - 1075 : Int)

theorem magnitudeOf_mono : Monotone magnitudeOf := by
  intro bits bits' below
  have digits := Nat.mod_lt bits (Nat.two_pow_pos 52)
  have fields := Nat.div_le_div_right (c := 2 ^ 52) below
  have decomposed := Nat.div_add_mod bits (2 ^ 52)
  have decomposed' := Nat.div_add_mod bits' (2 ^ 52)
  have sameField (exponent : Int) {low high : Nat} (ordered : low ≤ high) :
      (low : ℚ) * 2 ^ exponent ≤ high * 2 ^ exponent :=
    mul_le_mul_of_nonneg_right (Nat.cast_le.mpr ordered) (by positivity)
  unfold magnitudeOf
  by_cases subnormal : bits / 2 ^ 52 = 0 <;> by_cases subnormal' : bits' / 2 ^ 52 = 0
  · rw [if_pos subnormal, if_pos subnormal']
    exact sameField _ (by omega)
  · rw [if_pos subnormal, if_neg subnormal']
    by_cases first : bits' / 2 ^ 52 = 1
    · rw [first]
      exact sameField (-1074) (by omega)
    · exact (magnitude_lt (by omega) (Nat.le_add_right _ _) (by omega)).le
  · exact absurd (Nat.le_zero.mp (subnormal' ▸ fields)) subnormal
  · rw [if_neg subnormal, if_neg subnormal']
    by_cases same : bits / 2 ^ 52 = bits' / 2 ^ 52
    · rw [same]
      exact sameField _ (by omega)
    · exact (magnitude_lt (by omega) (Nat.le_add_right _ _) (by omega)).le

section Fields

variable {x : Float}

theorem unpackMantissa_toNat (bits : BitVec Format.binary64.numBits) :
    (unpackMantissa bits).toNat = bits.toNat % 2 ^ 52 := by
  unfold unpackMantissa
  rw [BitVec.toNat_cast, BitVec.extractLsb_toNat, Nat.shiftRight_zero]
  rfl

theorem unpackExponent_toNat (bits : BitVec Format.binary64.numBits) :
    (unpackExponent bits).toNat = bits.toNat / 2 ^ 52 % 2 ^ 11 := by
  unfold unpackExponent
  rw [BitVec.toNat_cast, BitVec.extractLsb_toNat, Nat.shiftRight_eq_div_pow]
  rfl

theorem unpackSign_toNat (bits : BitVec Format.binary64.numBits) :
    (unpackSign bits).toNat = bits.toNat / 2 ^ 63 % 2 := by
  unfold unpackSign
  rw [BitVec.toNat_cast, BitVec.extractLsb_toNat, Nat.shiftRight_eq_div_pow]
  rfl

/-- The value that is unpacked from bits, by their fields. -/
theorem unpackedValue_unpack (bits : BitVec Format.binary64.numBits)
    (number : UnpackedFloat.unpack Format.binary64 bits ≠ .notANumber) :
    unpackedValue (UnpackedFloat.unpack Format.binary64 bits) =
      signed (Sign.ofBitVec (unpackSign bits)) (magnitudeOf (bits.toNat % 2 ^ 63)) := by
  have field : bits.toNat % 2 ^ 63 / 2 ^ 52 = (unpackExponent bits).toNat := by
    rw [unpackExponent_toNat]
    omega
  have digits : bits.toNat % 2 ^ 63 % 2 ^ 52 = (unpackMantissa bits).toNat := by
    rw [unpackMantissa_toNat]
    omega
  unfold magnitudeOf
  rw [field, digits]
  unfold UnpackedFloat.unpack at number ⊢
  dsimp only at number ⊢
  split at number
  · rename_i ones
    rw [if_pos ones]
    split at number
    · rename_i infinite
      rw [if_pos infinite, ones, infinite, if_neg (by decide)]
      show signed _ (2 ^ 1024) = signed _ ((2 ^ 52 + 0 : Nat) * 2 ^ ((2047 : Nat) - 1075 : Int))
      congr 1
      rw [Nat.add_zero, Nat.cast_pow, Nat.cast_ofNat, ← zpow_natCast, ← zpow_natCast,
        ← zpow_add₀ two_ne_zero]
      norm_num
    · exact absurd rfl number
  · rename_i finite
    rw [if_neg finite]
    by_cases subnormal : unpackExponent bits = 0#_
    · have zeroField : (unpackExponent bits).toNat = 0 := congrArg BitVec.toNat subnormal
      rw [if_pos subnormal, if_pos zeroField]
      by_cases zero : unpackMantissa bits = 0#_
      · rw [dif_pos zero, zero]
        show (0 : ℚ) = signed _ ((0 : Nat) * 2 ^ (-1074 : Int))
        rw [Nat.cast_zero, zero_mul]
        cases Sign.ofBitVec (unpackSign bits)
        · exact neg_zero.symm
        · rfl
      · rw [dif_neg zero, subnormal]
        rfl
    · have nonzero : (unpackExponent bits).toNat ≠ 0 :=
        fun empty => subnormal (BitVec.eq_of_toNat_eq empty)
      rw [if_neg subnormal, if_neg nonzero]
      have leading : (1#1 ++ unpackMantissa bits).toNat = 2 ^ 52 + (unpackMantissa bits).toNat := by
        rw [BitVec.toNat_append, ← Nat.shiftLeft_add_eq_or_of_lt (BitVec.isLt _),
          Nat.shiftLeft_eq]
        rfl
      show signed _ (((1#1 ++ unpackMantissa bits).toNat : ℚ) *
        2 ^ (((unpackExponent bits).toNat : Int) - ((1023 : Int) + 52))) = _
      rw [leading]
      rfl

/-- The value of a double, by its bits. -/
theorem value_eq_magnitudeOf (number : x.isNaN = false) :
    value x = if x.toBits.toNat < 2 ^ 63 then magnitudeOf x.toBits.toNat
      else -magnitudeOf (x.toBits.toNat - 2 ^ 63) := by
  have bounded : x.toBits.toNat < 2 ^ 64 := x.toBits.toNat_lt
  have unpacked := unpackedValue_unpack x.toModel.toBits.toBitVec (isNaN_eq_false number)
  have sign := unpackSign_toNat x.toModel.toBits.toBitVec
  have bits : x.toModel.toBits.toBitVec.toNat = x.toBits.toNat := rfl
  rw [bits] at unpacked sign
  refine unpacked.trans ?_
  split
  · have positive : @unpackSign Format.binary64 x.toModel.toBits.toBitVec = 0#1 := by
      refine BitVec.eq_of_toNat_eq (sign.trans ?_)
      show _ = 0
      omega
    rw [positive, Nat.mod_eq_of_lt (by omega)]
    rfl
  · have negative : @unpackSign Format.binary64 x.toModel.toBits.toBitVec = 1#1 := by
      refine BitVec.eq_of_toNat_eq (sign.trans ?_)
      show _ = 1
      omega
    rw [negative, Nat.mod_eq_sub_mod (by omega), Nat.mod_eq_of_lt (by omega)]
    rfl

end Fields

end Doubles
