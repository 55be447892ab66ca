/-
This file fixes the machine arithmetic the crates run on. The fixed-width
integers are modelled by `Nat` and `Int` with their ranges made explicit:
an operation the source writes with a plain `+`, `-` or `*` is a panic when
its exact value leaves the range, a `saturating_` operation clamps, and an
`as` cast truncates or saturates as the language says.

An `f64` is Lean's own `Float`, which is IEEE-754 binary64 down to the kernel.
Only what Rust and Lean do differently is defined here: `f64::max` ignores a
NaN, and the casts to integers are stated on their exact values. The one fact
every engine rests on is that a float raised to at least `1.0` is cast to an
integer of at least one, whatever it was before; the one every score rests on is
that a count divided by itself is one.
-/

import Mathlib
import AccountCooker.Doubles

namespace AccountCooker

/-! ### Fixed-width integers -/

/-- `i64::MIN`. -/
def i64Min : Int := -(2 ^ 63)

/-- `i64::MAX`. -/
def i64Max : Int := 2 ^ 63 - 1

/-- `u64::MAX`. -/
def u64Max : Nat := 2 ^ 64 - 1

/-- The result of an `i64` operation: a panic when the exact value is out of range. -/
def checkedI64 (value : Int) : Option Int :=
  if i64Min ≤ value ∧ value ≤ i64Max then some value else none

/-- The result of a `u64` addition or multiplication: a panic when it overflows. -/
def checkedU64 (value : Nat) : Option Nat :=
  if value ≤ u64Max then some value else none

/-- A `u64` subtraction: a panic when it would underflow. -/
def checkedSub (minuend subtrahend : Nat) : Option Nat :=
  if subtrahend ≤ minuend then some (minuend - subtrahend) else none

/-- The result of a saturating `i64` operation. -/
def saturatingI64 (value : Int) : Int := max i64Min (min i64Max value)

/-- `value as i64` for a `u64` (or `usize`): the same 64 bits read as two's complement. -/
def asI64 (value : Nat) : Int :=
  if value % 2 ^ 64 < 2 ^ 63 then (value % 2 ^ 64 : Nat) else (value % 2 ^ 64 : Nat) - 2 ^ 64

/-- `value.rem_euclid(86_400) as u64`: the second of the day of a timestamp. -/
def secondOfDay (timestamp : Int) : Nat := (timestamp % 86400).toNat

/-- `value.clamp(low, high)` on integers; the standard library panics when the bounds cross. -/
def clampNat (value low high : Nat) : Option Nat :=
  if low ≤ high then some (max low (min value high)) else none

theorem checkedI64_eq_some {value result : Int} :
    checkedI64 value = some result ↔ (i64Min ≤ value ∧ value ≤ i64Max) ∧ value = result := by
  unfold checkedI64
  split
  · rename_i inRange
    rw [Option.some_inj]
    exact ⟨fun equal => ⟨inRange, equal⟩, fun both => both.2⟩
  · rename_i outside
    exact ⟨fun impossible => absurd impossible (by simp), fun both => absurd both.1 outside⟩

theorem checkedU64_eq_some {value result : Nat} :
    checkedU64 value = some result ↔ value ≤ u64Max ∧ value = result := by
  unfold checkedU64
  split
  · rename_i inRange
    rw [Option.some_inj]
    exact ⟨fun equal => ⟨inRange, equal⟩, fun both => both.2⟩
  · rename_i outside
    exact ⟨fun impossible => absurd impossible (by simp), fun both => absurd both.1 outside⟩

theorem checkedSub_eq_some {minuend subtrahend result : Nat} :
    checkedSub minuend subtrahend = some result ↔
      subtrahend ≤ minuend ∧ minuend - subtrahend = result := by
  unfold checkedSub
  split
  · rename_i inRange
    rw [Option.some_inj]
    exact ⟨fun equal => ⟨inRange, equal⟩, fun both => both.2⟩
  · rename_i outside
    exact ⟨fun impossible => absurd impossible (by simp), fun both => absurd both.1 outside⟩

theorem clampNat_eq_some {value low high result : Nat} :
    clampNat value low high = some result ↔
      low ≤ high ∧ result = max low (min value high) := by
  unfold clampNat
  split
  · rename_i ordered
    rw [Option.some_inj]
    exact ⟨fun equal => ⟨ordered, equal.symm⟩, fun both => both.2.symm⟩
  · rename_i crossed
    exact ⟨fun impossible => absurd impossible (by simp), fun both => absurd both.1 crossed⟩

theorem saturatingI64_mono : Monotone saturatingI64 := fun _ _ below =>
  max_le_max_left _ (min_le_min_left _ below)

/-- A saturated difference is within a bound of the representable range exactly when the
difference itself is, or the bound is the largest value there is. -/
theorem saturatingI64_le {value bound : Int} (nonnegative : 0 ≤ bound) :
    saturatingI64 value ≤ bound ↔ value ≤ bound ∨ i64Max ≤ bound := by
  unfold saturatingI64 i64Min i64Max
  omega

/-! ### `f64` -/

namespace F64

/-- `self.max(other)`: a NaN on either side is ignored. -/
def max (x y : Float) : Float :=
  if x.isNaN then y else if y.isNaN then x else if x < y then y else x

/-- `self.clamp(low, high)` for constant, ordered bounds. -/
def clamp (x low high : Float) : Float :=
  if x < low then low else if high < x then high else x

/-- `self as u64`: truncation towards zero, saturating at both ends, zero for a NaN. -/
def toU64 (x : Float) : Nat := x.toModel.toUInt64.toNat

/-- `self as i64`: truncation towards zero, saturating at both ends, zero for a NaN. -/
def toI64 (x : Float) : Int := x.toModel.toInt64.toInt

/-- `value as f64` for a `u64` or a `usize`. -/
def ofU64 (value : Nat) : Float := .ofModel (.ofNat value)

/-- `value as f64` for an `i64`. -/
def ofI64 (value : Int) : Float := .ofModel (.ofInt value)

/-- `self.round()`: to the nearest integer, halves away from zero. From `2 ^ 52` on every
double is an integer already; below, the truncation to an `i64` is exact. -/
def round (x : Float) : Float :=
  if x.isNaN || !(x.abs < 4503599627370496.0) then x
  else
    let truncated := ofI64 (toI64 x)
    if (x - truncated).abs < 0.5 then truncated
    else if x < 0 then truncated - 1 else truncated + 1

/-! ### A float raised to one -/

section RaisedToOne

open Float.Model Doubles

theorem isNaN_iff (x : Float) : x.isNaN = true ↔ x.toModel.unpack = .notANumber := by
  show x.toModel.unpack.isNaN = true ↔ _
  cases x.toModel.unpack <;> simp [UnpackedFloat.isNaN]

/-- Truncating a double with a full mantissa and an exponent of at least `-52` leaves an integer
of at least one. -/
theorem one_le_roundToInt (mantissa : Nat) (exponent : Int) (large : -52 ≤ exponent)
    (full : 2 ^ 52 ≤ mantissa) : 1 ≤ UnpackedFloat.roundToInt .positive mantissa exponent := by
  have bound : 1 ≤ mantissa <<< (exponent - 0).toNat /
      2 ^ (0 - (exponent - ((exponent - 0).toNat : Int))).toNat := by
    rw [Nat.le_div_iff_mul_le (by positivity), Nat.shiftLeft_eq, one_mul]
    calc 2 ^ (0 - (exponent - ((exponent - 0).toNat : Int))).toNat
        ≤ 2 ^ 52 := Nat.pow_le_pow_right (by decide) (by omega)
      _ ≤ mantissa := full
      _ ≤ mantissa * 2 ^ (exponent - 0).toNat := Nat.le_mul_of_pos_right _ (by positivity)
  show (1 : Int) ≤ ((UnpackedFloat.ExtendedMantissa.mk (mantissa <<< (exponent - 0).toNat)
    false false >>> (0 - (exponent - ((exponent - 0).toNat : Int))).toNat).mantissa : Int)
  rw [shiftRight_mantissa]
  exact_mod_cast bound

/-- Whatever `x` is, `x.max(1.0)` is infinite or a full mantissa scaled to at least one. -/
theorem unpack_max_one (x : Float) :
    (max x 1.0).toModel.unpack = .infinity .positive ∨
      ∃ mantissa exponent positive,
        (max x 1.0).toModel.unpack = .finite .positive mantissa exponent positive ∧
          -52 ≤ exponent ∧ 2 ^ 52 ≤ mantissa := by
  have unpackOne : (1.0 : Float).toModel.unpack =
      .finite .positive (2 ^ 52) (-52) (by decide) := rfl
  have one : ∃ mantissa exponent positive,
      (1.0 : Float).toModel.unpack = .finite .positive mantissa exponent positive ∧
        -52 ≤ exponent ∧ 2 ^ 52 ≤ mantissa :=
    ⟨_, _, _, unpackOne, by decide, by decide⟩
  unfold max
  by_cases nan : x.isNaN = true
  · rw [if_pos nan]
    exact Or.inr one
  rw [if_neg nan, if_neg (by decide)]
  by_cases below : x < 1.0
  · rw [if_pos below]
    exact Or.inr one
  rw [if_neg below]
  rw [lt_iff, unpackOne] at below
  rw [isNaN_iff] at nan
  cases unpacked : x.toModel.unpack with
  | notANumber => exact absurd unpacked nan
  | infinity sign =>
    cases sign with
    | positive => exact Or.inl rfl
    | negative => exact absurd (by rw [unpacked]; rfl) below
  | zero sign => exact absurd (by rw [unpacked]; rfl) below
  | finite sign mantissa exponent positive =>
    cases sign with
    | negative => exact absurd (by rw [unpacked]; rfl) below
    | positive =>
      refine Or.inr ⟨mantissa, exponent, positive, rfl, ?_⟩
      have canonical := (unpack_finite unpacked).2.2
      rw [unpacked] at below
      simp only [UnpackedFloat.compare, Option.some_inj] at below
      rcases lt_trichotomy exponent (-52) with smaller | rfl | larger
      · exact absurd (by rw [compare_lt_iff_lt.mpr smaller]; rfl) below
      · exact ⟨le_rfl, canonical.resolve_left (by decide)⟩
      · exact ⟨le_of_lt larger, canonical.resolve_left (by omega)⟩

theorem one_le_toInt_max_one (x : Float) (low high : Int) (room : 1 ≤ high) :
    1 ≤ (max x 1.0).toModel.unpack.toInt low high := by
  rcases unpack_max_one x with infinite | ⟨mantissa, exponent, positive, finite, large, full⟩
  · rw [infinite]
    exact room
  · rw [finite]
    exact one_le_roundToInt mantissa exponent large full

/-- `x.max(1.0) as i64` is at least one. -/
theorem one_le_toI64_max_one (x : Float) : 1 ≤ toI64 (max x 1.0) := by
  have bound := one_le_toInt_max_one x Int64.minValue.toInt Int64.maxValue.toInt (by decide)
  show 1 ≤ (Int64.ofIntClamp ((max x 1.0).toModel.unpack.toInt Int64.minValue.toInt
    Int64.maxValue.toInt)).toInt
  by_cases fits : (max x 1.0).toModel.unpack.toInt Int64.minValue.toInt Int64.maxValue.toInt ≤
      Int64.maxValue.toInt
  · rw [Int64.toInt_ofIntClamp (le_trans (by decide) bound) fits]
    exact bound
  · unfold Int64.ofIntClamp
    rw [dif_pos (le_trans (by decide) bound), dif_neg fits]
    decide

/-- `x.max(1.0) as u64` is at least one. -/
theorem one_le_toU64_max_one (x : Float) : 1 ≤ toU64 (max x 1.0) := by
  have bound := one_le_toInt_max_one x 0 (UInt64.size - 1) (by decide)
  show 1 ≤ (UInt64.ofNatClamp _).toNat
  by_cases fits : ((max x 1.0).toModel.unpack.toInt 0 (UInt64.size - 1)).toNat < UInt64.size
  · rw [UInt64.ofNatClamp_eq_ofNat _ fits, UInt64.toNat_ofNat_of_lt' fits]
    omega
  · unfold UInt64.ofNatClamp
    rw [dif_neg fits]
    decide

end RaisedToOne

/-! ### A count divided by itself -/

/-- A count divided by itself is one. -/
theorem ofU64_div_self {value : Nat} (positive : 0 < value) (bounded : value ≤ u64Max) :
    ofU64 value / ofU64 value = 1.0 := by
  have word : value < 2 ^ 64 := Nat.lt_of_le_of_lt bounded (by decide)
  obtain ⟨_, ⟨mantissa, exponent, nonzero, finite, _⟩, _⟩ :=
    Doubles.ofNat_near positive word
  exact Doubles.div_same finite rfl

end F64

/-! ### Text -/

/-- `char::is_whitespace`. -/
def isWhitespace (char : Char) : Bool :=
  (9 ≤ char.toNat && char.toNat ≤ 13) || (0x2000 ≤ char.toNat && char.toNat ≤ 0x200A) ||
    [0x20, 0x85, 0xA0, 0x1680, 0x2028, 0x2029, 0x202F, 0x205F, 0x3000].contains char.toNat

/-- `text.trim_end()`. -/
def trimEnd (text : String) : String := String.ofList (text.toList.rdropWhile isWhitespace)

/-- `text.trim()`. -/
def trim (text : String) : String :=
  String.ofList ((text.toList.dropWhile isWhitespace).rdropWhile isWhitespace)

theorem trimEnd_newline (text : String) : trimEnd (text ++ "\n") = trimEnd text := by
  unfold trimEnd
  rw [String.toList_append]
  exact congrArg String.ofList (List.rdropWhile_concat_pos _ _ _ (by decide))

/-! ### Checks -/

/-- Fail with a message unless the condition holds. -/
def ensure (condition : Bool) (message : String) : Except String Unit :=
  if condition then .ok () else .error message

theorem ensure_eq_ok {condition : Bool} {message : String} :
    ensure condition message = .ok () ↔ condition = true := by
  unfold ensure
  cases condition with
  | false => exact ⟨fun impossible => absurd impossible (by simp), nofun⟩
  | true => exact ⟨fun _ => rfl, fun _ => rfl⟩

end AccountCooker
