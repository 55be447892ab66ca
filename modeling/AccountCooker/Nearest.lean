/-
This file rounds exact numbers to the doubles of the language as a function of
its own: to the nearest integer at the place of the 53rd digit, ties to the even
one. The function is monotone and leaves a number of at most 53 digits as it is,
so rounding never moves a number across one of these, and a sequence of
operations is bounded by bounding the exact results one after the other.

What the model of IEEE-754 computes from at least 53 digits is this function of
the exact number, in the range where no result is subnormal.
-/

import Mathlib
import AccountCooker.DoubleOrder

namespace Doubles

open Float.Model UnpackedFloat

/-! ### Integers -/

/-- The nearest integer, and the even one of two. -/
def halfEven (number : ℚ) : Int :=
  if number - ⌊number⌋ < 1 / 2 then ⌊number⌋
  else if 1 / 2 < number - ⌊number⌋ then ⌊number⌋ + 1
  else ⌊number⌋ + ⌊number⌋ % 2

theorem halfEven_bounds (number : ℚ) :
    ⌊number⌋ ≤ halfEven number ∧ halfEven number ≤ ⌊number⌋ + 1 := by
  unfold halfEven
  split_ifs <;> omega

theorem halfEven_mono {first second : ℚ} (below : first ≤ second) :
    halfEven first ≤ halfEven second := by
  have floors := Int.floor_le_floor below
  rcases floors.lt_or_eq with less | same
  · -- An integer lies between the two.
    exact (halfEven_bounds first).2.trans (less.trans_le (halfEven_bounds second).1)
  · unfold halfEven
    rw [same]
    split_ifs
    all_goals first
      | omega
      | linarith

theorem halfEven_natCast (whole : Nat) : halfEven (whole : ℚ) = whole := by
  unfold halfEven
  rw [Int.floor_natCast, Int.cast_natCast, sub_self, if_pos one_half_pos]

theorem halfEven_error (number : ℚ) : |halfEven number - number| ≤ 1 / 2 := by
  have low := Int.floor_le number
  have high := Int.lt_floor_add_one number
  have parity : ((⌊number⌋ % 2 : Int) : ℚ) = 0 ∨ ((⌊number⌋ % 2 : Int) : ℚ) = 1 := by
    exact_mod_cast Int.emod_two_eq_zero_or_one ⌊number⌋
  unfold halfEven
  rw [abs_le]
  split_ifs
  · constructor <;> linarith
  · push_cast
    constructor <;> linarith
  · rw [Int.cast_add]
    rcases parity with even | odd
    · constructor <;> linarith
    · constructor <;> linarith

/-- The extra bits of an extended mantissa round it to the nearest integer. -/
theorem Represents.roundedMantissa_eq {extended : ExtendedMantissa} {exact : ℚ}
    (represents : Represents extended exact) :
    (extended.roundedMantissa : Int) = halfEven exact := by
  have bounds := represents.bounds
  have floor : ⌊exact⌋ = (extended.mantissa : Int) := by
    rw [Int.floor_eq_iff, Int.cast_natCast]
    constructor <;> linarith [bounds.1, bounds.2]
  obtain ⟨mantissa, roundBit, stickyBit⟩ := extended
  unfold halfEven
  rw [floor, Int.cast_natCast]
  cases roundBit <;> cases stickyBit
  · have rest : exact - mantissa = 0 := represents
    rw [rest, if_pos one_half_pos]
    rfl
  · have rest : 0 < exact - mantissa ∧ exact - mantissa < 1 / 2 := represents
    rw [if_pos rest.2]
    rfl
  · have rest : exact - mantissa = 1 / 2 := represents
    rw [rest, if_neg (lt_irrefl _), if_neg (lt_irrefl _)]
    rfl
  · have rest : 1 / 2 < exact - mantissa ∧ exact - mantissa < 1 := represents
    rw [if_neg (by linarith [rest.1]), if_pos rest.1]
    rfl

/-! ### Numbers of 53 digits -/

/-- The place of the last of 53 digits. -/
def place (number : ℚ) : Int := Int.log 2 number - 52

/-- The nearest number of 53 digits. -/
def nearest (number : ℚ) : ℚ := halfEven (number / 2 ^ place number) * 2 ^ place number

/-- A number of at most 53 digits. -/
def Short (number : ℚ) : Prop :=
  ∃ (mantissa : Nat) (exponent : Int), mantissa < 2 ^ 53 ∧ (mantissa : ℚ) * 2 ^ exponent = number

section Numbers

variable {number other : ℚ}

theorem place_bounds (positive : 0 < number) :
    2 ^ 52 ≤ number / 2 ^ place number ∧ number / 2 ^ place number < 2 ^ 53 := by
  have low := Int.zpow_log_le_self (one_lt_two : 1 < 2) positive
  have high := Int.lt_zpow_succ_log_self (one_lt_two : 1 < 2) number
  rw [Nat.cast_ofNat] at low high
  have unit : (0 : ℚ) < 2 ^ place number := by positivity
  unfold place at unit ⊢
  rw [le_div_iff₀ unit, div_lt_iff₀ unit, ← zpow_natCast, ← zpow_natCast, ← zpow_add₀ two_ne_zero,
    ← zpow_add₀ two_ne_zero]
  refine ⟨le_of_eq_of_le (congrArg _ ?_) low, lt_of_lt_of_eq high (congrArg _ ?_)⟩
  · push_cast
    ring
  · push_cast
    ring

/-- The place is where there are 53 digits before the point. -/
theorem place_eq {scale : Int} (low : 2 ^ 52 ≤ number / 2 ^ scale)
    (high : number / 2 ^ scale < 2 ^ 53) : place number = scale := by
  have unit : (0 : ℚ) < 2 ^ scale := by positivity
  rw [le_div_iff₀ unit, ← zpow_natCast, ← zpow_add₀ two_ne_zero] at low
  rw [div_lt_iff₀ unit, ← zpow_natCast, ← zpow_add₀ two_ne_zero] at high
  have positive : 0 < number := lt_of_lt_of_le (by positivity) low
  have above := (Int.zpow_le_iff_le_log (one_lt_two : 1 < 2) positive).mp
    (by rw [Nat.cast_ofNat]; exact low)
  have below := (Int.lt_zpow_iff_log_lt (one_lt_two : 1 < 2) positive).mp
    (by rw [Nat.cast_ofNat]; exact high)
  push_cast at above below
  unfold place
  omega

theorem nearest_bounds (positive : 0 < number) :
    (2 : ℚ) ^ 52 * 2 ^ place number ≤ nearest number ∧
      nearest number ≤ 2 ^ 53 * 2 ^ place number := by
  obtain ⟨low, high⟩ := place_bounds positive
  have unit : (0 : ℚ) ≤ 2 ^ place number := by positivity
  have least : halfEven ((2 ^ 52 : Nat) : ℚ) ≤ halfEven (number / 2 ^ place number) :=
    halfEven_mono (by rw [Nat.cast_pow, Nat.cast_ofNat]; exact low)
  have most : halfEven (number / 2 ^ place number) ≤ halfEven ((2 ^ 53 : Nat) : ℚ) :=
    halfEven_mono (by rw [Nat.cast_pow, Nat.cast_ofNat]; exact high.le)
  rw [halfEven_natCast] at least most
  unfold nearest
  constructor
  · refine mul_le_mul_of_nonneg_right ?_ unit
    exact_mod_cast least
  · refine mul_le_mul_of_nonneg_right ?_ unit
    exact_mod_cast most

theorem nearest_zero : nearest 0 = 0 := by
  have zero := halfEven_natCast 0
  rw [Nat.cast_zero, Nat.cast_zero] at zero
  unfold nearest
  rw [zero_div, zero, Int.cast_zero, zero_mul]

theorem nearest_pos (positive : 0 < number) : 0 < nearest number :=
  lt_of_lt_of_le (by positivity) (nearest_bounds positive).1

/-- Rounding moves a number by at most one half in the last place. -/
theorem nearest_error (positive : 0 < number) : |nearest number - number| ≤ number / 2 ^ 53 := by
  have low := (place_bounds positive).1
  have unit : (0 : ℚ) < 2 ^ place number := by positivity
  have same : number = number / 2 ^ place number * 2 ^ place number := by field_simp
  have half := halfEven_error (number / 2 ^ place number)
  calc |nearest number - number|
      = |halfEven (number / 2 ^ place number) - number / 2 ^ place number| * 2 ^ place number := by
        rw [← abs_of_pos unit, ← abs_mul, abs_of_pos unit, sub_mul, ← same]
        rfl
    _ ≤ number / 2 ^ place number / 2 ^ 53 * 2 ^ place number := by
        refine mul_le_mul_of_nonneg_right (half.trans ?_) unit.le
        rw [le_div_iff₀ (by positivity)]
        linarith
    _ = number / 2 ^ 53 := by field_simp

theorem nearest_mono (positive : 0 < number) (below : number ≤ other) :
    nearest number ≤ nearest other := by
  have places : place number ≤ place other := by
    have := Int.log_mono_right (b := 2) positive below
    unfold place
    omega
  rcases places.lt_or_eq with less | same
  · -- A power of two lies between the two.
    refine (nearest_bounds positive).2.trans
      (le_trans ?_ (nearest_bounds (positive.trans_le below)).1)
    rw [← zpow_natCast, ← zpow_natCast, ← zpow_add₀ two_ne_zero, ← zpow_add₀ two_ne_zero]
    exact zpow_le_zpow_right₀ one_le_two (by push_cast; omega)
  · unfold nearest
    rw [same]
    have unit : (0 : ℚ) < 2 ^ place other := by positivity
    refine mul_le_mul_of_nonneg_right ?_ unit.le
    exact_mod_cast halfEven_mono (div_le_div_of_nonneg_right below unit.le)

/-- A number of at most 53 digits is left as it is. -/
theorem Short.nearest_eq (short : Short number) (positive : 0 < number) :
    nearest number = number := by
  obtain ⟨mantissa, exponent, digits, rfl⟩ := short
  have nonzero : 0 < mantissa := by
    rcases Nat.eq_zero_or_pos mantissa with rfl | nonzero
    · rw [Nat.cast_zero, zero_mul] at positive
      exact absurd positive (lt_irrefl _)
    · exact nonzero
  have small : mantissa.log2 ≤ 52 := by
    rw [← Nat.lt_succ_iff, Nat.log2_lt nonzero.ne']
    exact digits
  -- The mantissa is filled up with zeros to 53 digits.
  have filled : (mantissa : ℚ) * 2 ^ exponent / 2 ^ (exponent - (52 - mantissa.log2 : Nat)) =
      (mantissa * 2 ^ (52 - mantissa.log2) : Nat) := by
    rw [div_eq_iff (by positivity), filled_value]
  have log := log2_filled nonzero digits
  obtain ⟨low, high⟩ := log2_bounds (by positivity) log
  have scale : place ((mantissa : ℚ) * 2 ^ exponent) = exponent - (52 - mantissa.log2 : Nat) := by
    refine place_eq ?_ ?_
    · rw [filled]
      exact_mod_cast low
    · rw [filled]
      exact_mod_cast high
  unfold nearest
  rw [scale, filled, halfEven_natCast, Int.cast_natCast, filled_value]

/-- Rounding does not move a number above one of 53 digits. -/
theorem nearest_le (positive : 0 < number) (below : number ≤ other) (short : Short other) :
    nearest number ≤ other :=
  (nearest_mono positive below).trans_eq (short.nearest_eq (positive.trans_le below))

/-- Rounding does not move a number below one of 53 digits. -/
theorem le_nearest (positive : 0 < number) (above : number ≤ other) (short : Short number) :
    number ≤ nearest other :=
  (short.nearest_eq positive).symm.trans_le (nearest_mono positive above)

theorem short_zpow (exponent : Int) : Short (2 ^ exponent) :=
  ⟨1, exponent, by decide, by rw [Nat.cast_one, one_mul]⟩

theorem short_natCast {whole : Nat} (small : whole < 2 ^ 53) : Short whole :=
  ⟨whole, 0, small, by rw [zpow_zero, mul_one]⟩

theorem short_one : Short 1 := ⟨1, 0, by decide, by norm_num⟩

theorem short_two : Short 2 := ⟨1, 1, by decide, by norm_num⟩

/-- A number of up to 53 digits that differs from one in the last of them. -/
theorem short_below_one {digits : Nat} (few : digits ≤ 53) : Short (1 - 1 / 2 ^ digits) := by
  refine ⟨2 ^ digits - 1, -(digits : Int), ?_, ?_⟩
  · have := Nat.pow_le_pow_right two_pos few
    have := Nat.two_pow_pos digits
    omega
  · rw [Nat.cast_sub (Nat.two_pow_pos digits), zpow_neg, zpow_natCast]
    push_cast
    field_simp

theorem Normal.short {x : Float} (normal : Normal x number) : Short number := by
  obtain ⟨mantissa, exponent, positive, _, log, value⟩ := normal
  exact ⟨mantissa, exponent, (log2_bounds positive log).2, value⟩

theorem Short.double (short : Short number) : Short (2 * number) := by
  obtain ⟨mantissa, exponent, digits, rfl⟩ := short
  refine ⟨mantissa, exponent + 1, digits, ?_⟩
  rw [zpow_add_one₀ two_ne_zero]
  ring

end Numbers

/-! ### Doubles -/

section Operations

variable {x y : Float} {a b exact : ℚ}

/-- A double that is rounded once is the nearest number. -/
theorem Rounded.nearest (rounded : Rounded x exact) : Normal x (nearest exact) := by
  obtain ⟨mantissa, exponent, accuracy, number, full, normal, small, represents, rfl, computed⟩ :=
    rounded
  obtain ⟨final, scale, positive, rounded, log, above, below, same⟩ :=
    roundWithAccuracy_full accuracy .positive full normal
  obtain ⟨atLeast, under⟩ := kept_bounds accuracy full
  have large : 52 ≤ mantissa.log2 := (Nat.le_log2 (by omega)).mpr full
  have shifted := represents.shiftRight (mantissa.log2 - 52)
  refine ⟨final, scale, positive, ?_, log, ?_⟩
  · rw [computed, rounded]
    exact unpack_pack positive log (by omega) (by omega)
  · rw [same]
    generalize ExtendedMantissa.ofMantissaAndAccuracy mantissa accuracy >>> (mantissa.log2 - 52) =
      extended at atLeast under shifted
    have digits : number * 2 ^ exponent / 2 ^ (exponent + (mantissa.log2 - 52 : Nat)) =
        number / 2 ^ (mantissa.log2 - 52) := by
      rw [zpow_add₀ two_ne_zero, zpow_natCast]
      field_simp
    have bounds := shifted.bounds
    have low : (2 : ℚ) ^ 52 ≤ extended.mantissa := by exact_mod_cast atLeast
    have high : (extended.mantissa : ℚ) + 1 ≤ 2 ^ 53 := by exact_mod_cast under
    have here : place (number * 2 ^ exponent) = exponent + (mantissa.log2 - 52 : Nat) := by
      refine place_eq ?_ ?_
      · rw [digits]
        linarith [bounds.1]
      · rw [digits]
        linarith [bounds.2]
    unfold Doubles.nearest
    rw [here, digits, ← shifted.roundedMantissa_eq, Int.cast_natCast]

theorem Normal.isNaN (normal : Normal x a) : x.isNaN = false := by
  obtain ⟨mantissa, exponent, positive, unpacked, _, _⟩ := normal
  show x.toModel.unpack.isNaN = false
  rw [unpacked]
  rfl

theorem Normal.value_eq (normal : Normal x a) : value x = a := by
  obtain ⟨mantissa, exponent, positive, unpacked, _, rfl⟩ := normal
  unfold value
  rw [unpacked]
  rfl

theorem Normal.le_iff (normal : Normal x a) (normal' : Normal y b) : x ≤ y ↔ a ≤ b := by
  rw [le_iff_value normal.isNaN normal'.isNaN, normal.value_eq, normal'.value_eq]

/-- Normal doubles of one value divide to one. -/
theorem Normal.div_same (normal : Normal x a) (normal' : Normal y a) : x / y = 1.0 := by
  obtain ⟨m, e, positive, unpacked, log, rfl⟩ := normal
  obtain ⟨n, f, positive', unpacked', log', same⟩ := normal'
  obtain ⟨low, high⟩ := value_bounds e positive
  obtain ⟨low', high'⟩ := value_bounds f positive'
  rw [log] at low high
  rw [log', same] at low' high'
  have above := (zpow_lt_zpow_iff_right₀ (one_lt_two : (1 : ℚ) < 2)).mp (low.trans_lt high')
  have below := (zpow_lt_zpow_iff_right₀ (one_lt_two : (1 : ℚ) < 2)).mp (low'.trans_lt high)
  obtain rfl : e = f := by omega
  have mantissas := mul_right_cancel₀ (by positivity : (2 : ℚ) ^ e ≠ 0) same
  rw [Nat.cast_inj] at mantissas
  subst mantissas
  exact Doubles.div_same unpacked (unpacked'.trans unpacked.symm)

theorem normal_one : Normal 1.0 1 := ⟨2 ^ 52, -52, by decide, rfl, by decide, by norm_num⟩

theorem normal_two : Normal 2.0 2 := ⟨2 ^ 52, -51, by decide, rfl, by decide, by norm_num⟩

theorem Normal.eq_one (normal : Normal x a) (one : x = 1.0) : a = 1 := by
  subst one
  exact normal.value_eq.symm.trans normal_one.value_eq

/-- A mantissa at a smaller exponent. -/
theorem aligned_value {mantissa : Nat} {exponent low : Int} (below : low ≤ exponent) :
    ((mantissa * 2 ^ (exponent - low).toNat : Nat) : ℚ) * 2 ^ low = mantissa * 2 ^ exponent := by
  have scale : (2 : ℚ) ^ (exponent - low).toNat * 2 ^ low = 2 ^ exponent := by
    rw [← zpow_natCast, ← zpow_add₀ two_ne_zero]
    exact congrArg _ (by omega)
  push_cast
  rw [mul_assoc, scale]

theorem sub_finite {m n : Nat} {e f : Int} (positive : 0 < m) (positive' : 0 < n) :
    UnpackedFloat.sub Format.binary64 (.finite .positive m e positive)
        (.finite .positive n f positive') =
      UnpackedFloat.normalize Format.binary64 (((m * 2 ^ (e - min e f).toNat : Nat) : Int) -
        (n * 2 ^ (f - min e f).toNat : Nat)) (min e f) .positive := by
  unfold UnpackedFloat.sub decreaseExponent
  simp only [Nat.shiftLeft_eq]
  rfl

/-- The difference to a smaller number is rounded once. -/
theorem sub_rounded (first : Positive x a) (second : Positive y b) (less : b < a)
    (moderate : Moderate (a - b)) : Rounded (x - y) (a - b) := by
  obtain ⟨m, e, positive, unpacked, low, rfl⟩ := first
  obtain ⟨n, f, positive', unpacked', low', rfl⟩ := second
  have unit : (0 : ℚ) < 2 ^ min e f := by positivity
  rw [← aligned_value (min_le_left e f), ← aligned_value (min_le_right e f)] at less moderate ⊢
  have below := lt_of_mul_lt_mul_right less unit.le
  rw [Nat.cast_lt] at below
  generalize computed : m * 2 ^ (e - min e f).toNat = one at below less moderate ⊢
  generalize computed' : n * 2 ^ (f - min e f).toNat = other at below less moderate ⊢
  rw [← sub_mul, ← Nat.cast_sub below.le] at moderate ⊢
  refine round_rounded (Nat.sub_pos_of_lt below) (by omega) moderate ?_
  show pack (UnpackedFloat.sub Format.binary64 x.toModel.unpack y.toModel.unpack) = _
  have sign : compare ((one : Int) - other) 0 = .gt := compare_gt_iff_gt.mpr (by omega)
  have difference : ((one : Int) - other).toNat = one - other := by omega
  rw [unpacked, unpacked', sub_finite, computed, computed']
  unfold UnpackedFloat.normalize
  rw [sign]
  simp only [difference]

/-- The difference to the same number is nothing. -/
theorem sub_eq_zero_of_same (first : Positive x a) (second : Positive y a) : x - y = 0.0 := by
  obtain ⟨m, e, positive, unpacked, low, rfl⟩ := first
  obtain ⟨n, f, positive', unpacked', low', same⟩ := second
  rw [← aligned_value (min_le_left e f), ← aligned_value (min_le_right e f)] at same
  have equal := mul_right_cancel₀ (by positivity : (2 : ℚ) ^ min e f ≠ 0) same
  rw [Nat.cast_inj] at equal
  show Float.ofModel (pack (UnpackedFloat.sub Format.binary64 x.toModel.unpack
    y.toModel.unpack)) = _
  rw [unpacked, unpacked', sub_finite, equal, Int.sub_self]
  rfl

/-- Nothing divided by a positive double. -/
theorem zero_div_eq (normal : Normal y b) : Float.ofModel (.ofNat 0) / y = 0.0 := by
  obtain ⟨mantissa, exponent, positive, unpacked, _, _⟩ := normal
  show Float.ofModel (pack (UnpackedFloat.div Format.binary64 _ y.toModel.unpack)) = _
  rw [unpacked]
  rfl

end Operations

end Doubles
