/-
This file bounds the delays of a rhythm. An hour has a rate of at least a
twentieth of an action, so the mean gap is below a day and a half; the unit is
clamped away from zero, so its logarithm is at least `-21`; and the jitter is a
fraction. The delay is computed in floating point, and stays below `2 ^ 25`
seconds, whatever is drawn.

The logarithm is the platform's. Of it only its range on the clamped units
matters.
-/

import Mathlib
import AccountCooker.Magnitudes
import AccountCooker.Noise

namespace AccountCooker

open Doubles Draw

/-- What the logarithm of the platform is relied on for: on the units it is applied to it lies
between `-21` and zero. -/
def LogBounded [Libm] : Prop :=
  ∀ u : Float, 1e-9 ≤ u → u ≤ 1.0 → -21.0 ≤ Libm.ln u ∧ Libm.ln u ≤ 0.0

/-! ### Constants -/

theorem value_one : value 1.0 = 1 := by
  show ((2 ^ 52 : Nat) : ℚ) * 2 ^ (-52 : Int) = 1
  norm_num

theorem within_one : Within 0 1.0 := by
  refine within_of_value rfl ?_ (by decide)
  rw [value_one]
  norm_num

theorem within_two : Within 1 2.0 := by
  show WithinUnpacked 1 (.finite .positive (2 ^ 52) (-51) (by decide))
  exact ⟨by decide, by norm_num⟩

theorem within_hour : Within 12 3600.0 := by
  show WithinUnpacked 12 (.finite .positive (3600 * 2 ^ 41) (-41) (by decide))
  exact ⟨by decide, by norm_num⟩

/-! ### The parts of a delay -/

/-- A number drawn from the unit interval, clamped, is not below the least unit nor above one. -/
theorem clamp_unit {unit : Float} (low : 0 ≤ unit) :
    1e-9 ≤ F64.clamp unit 1e-9 1.0 ∧ F64.clamp unit 1e-9 1.0 ≤ 1.0 := by
  have number := (number_of_le low).2
  have ordered : (1e-9 : Float) ≤ 1e-9 ∧ (1e-9 : Float) ≤ 1.0 ∧ (1.0 : Float) ≤ 1.0 := by decide
  unfold F64.clamp
  split
  · exact ⟨ordered.1, ordered.2.1⟩
  · rename_i above
    split
    · exact ⟨ordered.2.1, ordered.2.2⟩
    · rename_i below
      rw [lt_iff_value number rfl, not_lt] at above
      rw [lt_iff_value rfl number, not_lt] at below
      exact ⟨(le_iff_value rfl number).mpr above, (le_iff_value number rfl).mpr below⟩

theorem within_unit {unit : Float} (low : 0 ≤ unit) (high : unit < 1) : Within 0 unit := by
  have number := (number_of_le low).2
  have least := (le_iff_value rfl number).mp low
  have most := (lt_iff_value number rfl).mp high
  rw [show value 0 = 0 from rfl] at least
  rw [show value 1 = value 1.0 from rfl, value_one] at most
  refine within_of_value number ?_ (by decide)
  rw [abs_of_nonneg least, zpow_zero]
  exact most.le

theorem within_log [Libm] (bounded : LogBounded) {unit : Float} (low : 0 ≤ unit) :
    Within 5 (-Libm.ln (F64.clamp unit 1e-9 1.0)) := by
  obtain ⟨above, below⟩ := clamp_unit low
  obtain ⟨least, most⟩ := bounded _ above below
  have deepest : Within 5 21.0 := by
    show WithinUnpacked 5 (.finite .positive (21 * 2 ^ 48) (-48) (by decide))
    exact ⟨by decide, by norm_num⟩
  have nothing : Within 5 0.0 := trivial
  exact Within.neg (within_of_between least most (Within.neg deepest (by decide)) nothing
    (by decide)) (by decide)

/-- The mean gap of an hour, whose rate is at least a twentieth. -/
theorem within_meanGap (rate : Float) : Within 17 (3600.0 / F64.max rate 0.05) := by
  have beyond : Beyond (-5) (F64.max rate 0.05) := by
    have least : (0.05 : Float).isNaN = false ∧ 2 ^ (-5 : Int) ≤ |value 0.05| := by
      refine ⟨rfl, ?_⟩
      show _ ≤ |((7205759403792794 : Nat) : ℚ) * 2 ^ (-57 : Int)|
      norm_num
    unfold F64.max
    split
    · exact beyond_of_value least.1 least.2
    · rename_i number
      rw [if_neg (by decide)]
      split
      · exact beyond_of_value least.1 least.2
      · rename_i above
        have number' := Bool.eq_false_of_not_eq_true number
        rw [lt_iff_value number' rfl, not_lt] at above
        refine beyond_of_value number' (least.2.trans ?_)
        have positive : 0 ≤ value 0.05 := by
          show 0 ≤ ((7205759403792794 : Nat) : ℚ) * 2 ^ (-57 : Int)
          positivity
        rw [abs_of_nonneg positive]
        exact above.trans (le_abs_self _)
  exact Within.div within_hour beyond (by decide) (by decide)

/-- The jitter of a gap. -/
theorem within_jitter {unit jitter : Float} (low : 0 ≤ unit) (high : unit < 1)
    (fraction : Within 0 jitter) : Within 3 (1.0 + (unit * 2.0 - 1.0) * jitter) := by
  have doubled : Within (0 + 1) (unit * 2.0) :=
    Within.mul (within_unit low high) within_two (by decide) (by decide)
  have centred : Within (0 + 1 + 1) (unit * 2.0 - 1.0) :=
    Within.sub doubled (within_one.mono (by decide)) (by decide) (by decide)
  have scaled : Within (0 + 1 + 1 + 0) ((unit * 2.0 - 1.0) * jitter) :=
    Within.mul centred fraction (by decide) (by decide)
  exact Within.add (within_one.mono (by decide)) scaled (by decide) (by decide)

theorem within_max_one {x : Float} {bound : Int} (within : Within bound x) (large : 0 ≤ bound) :
    Within bound (F64.max x 1.0) := by
  unfold F64.max
  split
  · exact within_one.mono large
  · split
    · exact within
    · split
      · exact within_one.mono large
      · exact within

/-! ### The delay -/

/-- The delay in seconds, when its two units are drawn. -/
theorem delay_le [Libm] {gap jittered : Float} {bound bound' : Int} (first : Within bound gap)
    (second : Within bound' jittered) (least : 0 ≤ bound + bound') (most : bound + bound' ≤ 971) :
    (F64.toU64 (F64.max (gap * jittered) 1.0) : ℚ) ≤ 2 ^ (bound + bound') :=
  (within_max_one (Within.mul first second (by omega) most) least).toUInt64_le

variable {Generator : Type} [Rng Generator]

/-- Delays are below `2 ^ 25` seconds, and at least one. -/
theorem nextDelaySecs_bounded [Libm] (bounded : LogBounded) (model : CircadianModel)
    (fraction : Within 0 model.jitter) (secondOfDay : Nat) :
    Silent (model.nextDelaySecs secondOfDay : Draw Generator Nat)
      (fun delay => 1 ≤ delay ∧ delay ≤ 2 ^ 25) := by
  refine Silent.bind yields_random (fun unit inUnit => ?_)
  refine Silent.bind yields_random (fun unit' inUnit' => ?_)
  refine (yields_pure _).mono ?_
  rintro delay rfl
  refine ⟨F64.one_le_toU64_max_one _, ?_⟩
  have gap : Within (5 + 17) _ := Within.mul (within_log bounded inUnit.1)
    (within_meanGap (model.actionsPerActiveHour *
      F64.max (model.hourlyWeights.get (Fin.ofNat 24 (secondOfDay / 3600))) 0.01))
    (by decide) (by decide)
  have delay := delay_le gap (within_jitter inUnit'.1 inUnit'.2 fraction) (by decide) (by decide)
  have power : (2 : ℚ) ^ (5 + 17 + 3 : Int) = ((2 ^ 25 : Nat) : ℚ) := by norm_num
  rw [power] at delay
  exact Nat.cast_le.mp delay

end AccountCooker
