/-
This file says when splitting an amount keeps it whole. Every part starts at the
floor of the policy, and the rest is shared out by weights in floating point;
what rounding leaves over is found by a subtraction, which is in range only when
the shares, each rounded to a double and truncated, do not add up to more than
the rest.

They do not while the rest times the number of parts is below `2 ^ 53`. A single
part gets the rest as it is rounded to a double, which can be more than the rest.
-/

import Mathlib
import AccountCooker.Noise
import AccountCooker.Completion

namespace AccountCooker

open Draw

theorem mapM_checkedU64 {Item : Type} {items : List Item} {value : Item → Nat}
    {results : List Nat} :
    items.mapM (fun item => checkedU64 (value item)) = some results ↔
      (∀ item ∈ items, value item ≤ u64Max) ∧ items.map value = results := by
  induction items generalizing results with
  | nil => simp
  | cons item rest inductionHypothesis =>
    rw [List.mapM_cons, List.forall_mem_cons, List.map_cons]
    constructor
    · intro ran
      obtain ⟨first, computed, ran⟩ := Option.bind_eq_some_iff.mp ran
      obtain ⟨others, mapped, same⟩ := Option.bind_eq_some_iff.mp ran
      obtain ⟨inRange, rfl⟩ := checkedU64_eq_some.mp computed
      obtain ⟨each, rfl⟩ := inductionHypothesis.mp mapped
      exact ⟨⟨inRange, each⟩, Option.some.inj same⟩
    · rintro ⟨⟨inRange, each⟩, rfl⟩
      rw [checkedU64_eq_some.mpr ⟨inRange, rfl⟩, inductionHypothesis.mpr ⟨each, rfl⟩]
      rfl

/-! ### The draws of a split -/

section Draws

variable {Generator : Type} [Rng Generator]

/-- The units a generator hands out one after the other, and the generator behind them. -/
def drawUnits : Nat → Generator → List Float × Generator
  | 0, generator => ([], generator)
  | count + 1, generator =>
    let (unit, later) := Rng.random generator
    let (units, last) := drawUnits count later
    (unit :: units, last)

theorem drawUnits_length (count : Nat) (generator : Generator) :
    (drawUnits count generator).1.length = count := by
  induction count generalizing generator with
  | zero => rfl
  | succ count inductionHypothesis =>
    exact congrArg (· + 1) (inductionHypothesis (Rng.random generator).2)

/-- The units are in the unit interval. -/
theorem drawUnits_unit (count : Nat) (generator : Generator) :
    ∀ unit ∈ (drawUnits count generator).1, 0 ≤ unit ∧ unit < 1 := by
  induction count generalizing generator with
  | zero => simp [drawUnits]
  | succ count inductionHypothesis =>
    exact List.forall_mem_cons.mpr ⟨Rng.random_unit generator, inductionHypothesis _⟩

/-- The weights of a split are the units drawn, each a little raised. -/
theorem drawWeights_run {Item : Type} (items : List Item) (tape : Tape Generator) :
    (items.mapM (fun _ => (· + 0.01) <$> random) : Draw Generator (List Float)) tape =
      some ((drawUnits items.length tape.generator).1.map (· + 0.01),
        ⟨(drawUnits items.length tape.generator).2, tape.drawn⟩) := by
  induction items generalizing tape with
  | nil => rfl
  | cons item rest inductionHypothesis =>
    rw [List.mapM_cons]
    refine bind_eq_some.mpr ⟨_, _, rfl, ?_⟩
    refine bind_eq_some.mpr ⟨_, _, inductionHypothesis _, ?_⟩
    rfl

end Draws

/-! ### Shares -/

/-- The shares of some weights in what is left above the floors, as the source rounds them. -/
def shares (remainder : Nat) (weights : List Float) : List Nat :=
  weights.map fun w => F64.toU64 (w / sumF64 weights * F64.ofU64 remainder)

section Runs

variable {Generator : Type} [Rng Generator]

/-- The weights that a generator leads to. -/
def drawWeights (n : Nat) (generator : Generator) : List Float :=
  (drawUnits n generator).1.map (· + 0.01)

theorem shares_length (remainder n : Nat) (generator : Generator) :
    (shares remainder (drawWeights n generator)).length = n := by
  rw [shares, drawWeights, List.length_map, List.length_map, drawUnits_length]

theorem weightedParts_returns {base n remainder : Nat} {tape : Tape Generator}
    {post : List Nat → Tape Generator → Prop} :
    Returns (weightedParts base n remainder) tape post ↔
      (∀ share ∈ shares remainder (drawWeights n tape.generator), base + share ≤ u64Max) ∧
        post ((shares remainder (drawWeights n tape.generator)).map (base + ·))
          ⟨(drawUnits n tape.generator).2, tape.drawn⟩ := by
  have drawn := drawWeights_run (List.range n) tape
  rw [List.length_range, show List.map _ (drawUnits n tape.generator).1 =
    drawWeights n tape.generator from rfl] at drawn
  unfold weightedParts
  rw [returns_bind, returns_of_run drawn, mapM_checked, returns_checked]
  simp only [mapM_checkedU64]
  unfold shares
  rw [List.forall_mem_map, List.map_map]
  constructor
  · rintro ⟨parts, ⟨each, rfl⟩, holds⟩
    exact ⟨each, holds⟩
  · rintro ⟨each, holds⟩
    exact ⟨_, ⟨each, rfl⟩, holds⟩

/-- What is left over goes to one part. -/
def spreadLeftover (total n : Nat) (parts : List Nat) : Draw Generator (List Nat) := do
  let assigned ← checked (sumU64 parts)
  let leftover ← checked (checkedSub total assigned)
  let idx ← randomIndex n
  let part ← checked parts[idx]?
  let grown ← checked (checkedU64 (part + leftover))
  pure (parts.set idx grown)

theorem sum_set_grown {parts : List Nat} {idx part : Nat} (found : parts[idx]? = some part)
    (leftover : Nat) : (parts.set idx (part + leftover)).sum = parts.sum + leftover := by
  induction parts generalizing idx with
  | nil => exact nomatch found
  | cons first rest inductionHypothesis =>
    cases idx with
    | zero =>
      obtain rfl : first = part := Option.some.inj found
      rw [List.set_cons_zero, List.sum_cons, List.sum_cons]
      omega
    | succ idx =>
      rw [List.set_cons_succ, List.sum_cons, List.sum_cons, inductionHypothesis found]
      omega

/-- The leftover can be given to a part exactly when the parts are not above the total. -/
theorem spreadLeftover_returns {total n base : Nat} {parts : List Nat} {tape : Tape Generator}
    (bounded : total ≤ u64Max) (positive : 0 < n) (length : parts.length = n)
    (floor : ∀ part ∈ parts, base ≤ part) {post : List Nat → Tape Generator → Prop}
    (enough : ∀ final after, final.sum = total → final.length = n →
      (∀ part ∈ final, base ≤ part) → post final after) :
    Returns (spreadLeftover total n parts) tape post ↔ parts.sum ≤ total := by
  unfold spreadLeftover
  simp only [returns_bind, returns_checked, returns_pure, sumU64_eq_some, checkedSub_eq_some]
  constructor
  · rintro ⟨_, ⟨_, rfl⟩, _, ⟨below, _⟩, _⟩
    exact below
  · intro below
    refine ⟨_, ⟨below.trans bounded, rfl⟩, _, ⟨below, rfl⟩, ?_⟩
    obtain ⟨idx, after, drawn, inRange⟩ := randomIndex_returns positive tape
    refine ⟨idx, after, drawn, parts[idx], List.getElem?_eq_getElem (by omega), ?_⟩
    have found : parts[idx]? = some parts[idx] := List.getElem?_eq_getElem (by omega)
    have member : parts[idx] ∈ parts := List.getElem_mem _
    have least := List.single_le_sum (fun _ _ => Nat.zero_le _) _ member
    have grown := sum_set_grown found (total - parts.sum)
    refine ⟨_, checkedU64_eq_some.mpr ⟨by omega, rfl⟩, enough _ _ ?_ ?_ ?_⟩
    · omega
    · rw [List.length_set, length]
    · intro part present
      rcases List.mem_or_eq_of_mem_set present with old | rfl
      · exact floor part old
      · exact (floor _ member).trans (Nat.le_add_right _ _)

end Runs

/-! ### What a split promises -/

namespace SplitPolicy

variable (policy : SplitPolicy)

/-- The checks of `Persona::validate` on the policy of a persona. -/
def validate : Except String Unit :=
  if policy.minParts = 0 ∨ policy.maxParts < policy.minParts then
    .error "split parts must satisfy 1 <= min_parts <= max_parts"
  else if policy.minPartLamports = 0 then
    .error "split.min_part_lamports must be greater than zero"
  else .ok ()

/-- What an accepted policy is. -/
structure Valid : Prop where
  positive : 1 ≤ policy.minParts
  ordered : policy.minParts ≤ policy.maxParts
  floor : 1 ≤ policy.minPartLamports

/-- How many parts of at least the floor an amount affords. -/
def feasible (total : Nat) : Nat := max (total / policy.minPartLamports) 1

/-- The numbers of parts an amount may be split into. -/
def Allows (total n : Nat) : Prop :=
  min policy.minParts (policy.feasible total) ≤ n ∧
    n ≤ min policy.maxParts (policy.feasible total)

/-- The parts are a split of the amount. -/
structure Splits (total : Nat) (parts : List Nat) : Prop where
  empty : parts = [] ↔ total = 0
  sum : parts.sum = total
  floor : parts.length = 1 ∨ ∀ part ∈ parts, policy.minPartLamports ≤ part
  count : total ≠ 0 → policy.Allows total parts.length

/-- Whatever is drawn, the truncated shares of so many weights do not exceed the remainder. -/
def SharesWithin (n remainder : Nat) : Prop :=
  ∀ units : List Float, units.length = n → (∀ unit ∈ units, 0 ≤ unit ∧ unit < 1) →
    (shares remainder (units.map (· + 0.01))).sum ≤ remainder

variable {policy}

theorem validate_eq_ok : policy.validate = .ok () ↔ policy.Valid := by
  unfold validate
  split_ifs with parts floor
  · exact iff_of_false (by simp) (fun valid => by
      have positive := valid.positive
      have ordered := valid.ordered
      omega)
  · exact iff_of_false (by simp) (fun valid => absurd valid.floor (by omega))
  · exact iff_of_true rfl ⟨by omega, by omega, by omega⟩

theorem Allows.positive (valid : policy.Valid) {total n : Nat} (allowed : policy.Allows total n) :
    0 < n := by
  have one := valid.positive
  have least : 1 ≤ policy.feasible total := le_max_right _ _
  exact lt_of_lt_of_le (lt_min one least) allowed.1

/-- The floors of an allowed number of parts are affordable. -/
theorem Allows.floors_le {total n : Nat} (allowed : policy.Allows total n)
    (large : policy.minPartLamports ≤ total) (floor : 1 ≤ policy.minPartLamports) :
    policy.minPartLamports * n ≤ total := by
  have quotient : 1 ≤ total / policy.minPartLamports := (Nat.one_le_div_iff floor).mpr large
  have most : n ≤ total / policy.minPartLamports := by
    have bound := allowed.2.trans (min_le_right _ _)
    unfold feasible at bound
    rwa [max_eq_left quotient] at bound
  exact (Nat.mul_le_mul_left _ most).trans (Nat.mul_div_le _ _)

/-- An amount not above the floor is one part. -/
theorem allows_one (valid : policy.Valid) {total : Nat} (small : total ≤ policy.minPartLamports) :
    policy.Allows total 1 := by
  have one : policy.feasible total = 1 :=
    max_eq_right (Nat.div_le_of_le_mul (by rwa [mul_one]))
  unfold Allows
  rw [one]
  exact ⟨min_le_right _ _, le_min (valid.positive.trans valid.ordered) le_rfl⟩

section Counting

variable {Generator : Type} [Rng Generator]

/-- The number of parts is drawn from those that are allowed. -/
theorem partCount_returns (valid : policy.Valid) (total : Nat) (tape : Tape Generator) :
    Returns (policy.partCount (policy.feasible total) : Draw Generator Nat) tape
      (fun n _ => policy.Allows total n) := by
  have least : 1 ≤ policy.feasible total := le_max_right _ _
  obtain ⟨one, ordered, _⟩ := valid
  unfold partCount
  rw [returns_bind, returns_checked]
  refine ⟨_, clampNat_eq_some.mpr ⟨by omega, rfl⟩, ?_⟩
  unfold Allows
  split
  · rw [returns_pure]
    omega
  · unfold randomRangeNat randomRange
    rw [if_pos (by omega)]
    refine ⟨_, _, rfl, ?_⟩
    have range := Rng.randomRange_mem .usize
      ((max 1 (min policy.minParts (min (max policy.maxParts 1) (policy.feasible total))) : Nat) :
        Int)
      ((min (max policy.maxParts 1) (policy.feasible total) : Nat) : Int) tape.generator
      (by omega)
    show _ ≤ Int.toNat _ ∧ Int.toNat _ ≤ _
    omega

end Counting

end SplitPolicy

/-! ### One run -/

section OneRun

variable {Generator : Type} [Rng Generator] {policy : SplitPolicy}

/-- Adding the floor to every share. -/
theorem sum_map_add (base : Nat) (items : List Nat) :
    (items.map (base + ·)).sum = base * items.length + items.sum := by
  induction items with
  | nil => rfl
  | cons item rest inductionHypothesis =>
    rw [List.map_cons, List.sum_cons, List.sum_cons, inductionHypothesis, List.length_cons]
    ring

/-- The parts of a number of parts that was drawn. -/
theorem sharesOut_returns {total n : Nat} (large : policy.minPartLamports < total)
    (valid : policy.Valid) (bounded : total ≤ u64Max) (allowed : policy.Allows total n)
    (tape : Tape Generator) :
    Returns (do
        let floors ← checked (checkedU64 (policy.minPartLamports * n))
        let remainder ← checked (checkedSub total floors)
        let parts ← weightedParts policy.minPartLamports n remainder
        spreadLeftover total n parts) tape (fun parts _ => policy.Splits total parts) ↔
      (shares (total - policy.minPartLamports * n) (drawWeights n tape.generator)).sum ≤
        total - policy.minPartLamports * n := by
  have positive := allowed.positive valid
  have floors := allowed.floors_le large.le valid.floor
  have length := shares_length (total - policy.minPartLamports * n) n tape.generator
  have sum := sum_map_add policy.minPartLamports
    (shares (total - policy.minPartLamports * n) (drawWeights n tape.generator))
  rw [length] at sum
  have floor : ∀ part ∈ (shares (total - policy.minPartLamports * n)
      (drawWeights n tape.generator)).map (policy.minPartLamports + ·),
        policy.minPartLamports ≤ part := by
    intro part member
    obtain ⟨share, _, rfl⟩ := List.mem_map.mp member
    exact Nat.le_add_right _ _
  have spread (middle : Tape Generator) :
      Returns (spreadLeftover total n ((shares (total - policy.minPartLamports * n)
          (drawWeights n tape.generator)).map (policy.minPartLamports + ·))) middle
        (fun parts _ => policy.Splits total parts) ↔
      ((shares (total - policy.minPartLamports * n) (drawWeights n tape.generator)).map
        (policy.minPartLamports + ·)).sum ≤ total := by
    refine spreadLeftover_returns bounded positive (by rw [List.length_map, length]) floor ?_
    intro final after whole counted floor
    refine ⟨?_, whole, Or.inr floor, fun _ => counted ▸ allowed⟩
    constructor
    · rintro rfl
      exact absurd counted (by simpa using positive.ne)
    · rintro rfl
      exact absurd large (Nat.not_lt_zero _)
  simp only [returns_bind, returns_checked, checkedU64_eq_some, checkedSub_eq_some,
    weightedParts_returns]
  constructor
  · rintro ⟨_, ⟨_, rfl⟩, _, ⟨_, rfl⟩, _, spreads⟩
    have below := (spread _).mp spreads
    omega
  · intro within
    refine ⟨_, ⟨floors.trans bounded, rfl⟩, _, ⟨floors, rfl⟩, ?_, (spread _).mpr (by omega)⟩
    intro share member
    have small := List.single_le_sum (fun _ _ => Nat.zero_le _) share member
    have one : policy.minPartLamports ≤ policy.minPartLamports * n :=
      Nat.le_mul_of_pos_right _ positive
    omega

/-- A run splits its amount exactly when the shares of the weights it draws are within the
remainder. -/
theorem splitAmount_returns {total : Nat} (large : policy.minPartLamports < total)
    (valid : policy.Valid) (bounded : total ≤ u64Max) (tape : Tape Generator) :
    Returns (splitAmount total policy) tape (fun parts _ => policy.Splits total parts) ↔
      Returns (policy.partCount (policy.feasible total)) tape (fun n middle =>
        (shares (total - policy.minPartLamports * n) (drawWeights n middle.generator)).sum ≤
          total - policy.minPartLamports * n) := by
  have base : max policy.minPartLamports 1 = policy.minPartLamports := max_eq_left valid.floor
  unfold splitAmount
  rw [if_neg (by omega), base, if_neg (by omega)]
  dsimp only
  rw [returns_bind]
  obtain ⟨n, middle, counted, allowed⟩ := SplitPolicy.partCount_returns valid total tape
  have counted' : policy.partCount (max (total / policy.minPartLamports) 1) tape =
      some (n, middle) := counted
  rw [returns_of_run counted', returns_of_run counted]
  exact sharesOut_returns large valid bounded allowed middle

/-- An amount not above the floor is kept as one part. -/
theorem splitAmount_small {total : Nat} (small : total ≤ policy.minPartLamports)
    (valid : policy.Valid) (tape : Tape Generator) :
    Returns (splitAmount total policy) tape (fun parts _ => policy.Splits total parts) := by
  unfold splitAmount
  by_cases nothing : total = 0
  · rw [if_pos nothing, returns_pure]
    exact ⟨iff_of_true rfl nothing, nothing.symm, Or.inr (by simp),
      fun nonzero => absurd nothing nonzero⟩
  · rw [if_neg nothing, if_pos (small.trans (le_max_left _ _)), returns_pure]
    exact ⟨iff_of_false (List.cons_ne_nil _ _) nothing, List.sum_singleton, Or.inl rfl,
      fun _ => SplitPolicy.allows_one valid small⟩

end OneRun

/-! ### Shares within the remainder -/

namespace SplitPolicy

/-- Nothing is shared out as nothing. -/
theorem sharesWithin_zero (n : Nat) : SharesWithin n 0 := by
  intro units _ _
  have nothing : ∀ share ∈ shares 0 (units.map (· + 0.01)), share = 0 := by
    intro share member
    obtain ⟨w, _, rfl⟩ := List.mem_map.mp member
    have zero : (F64.ofU64 0).toModel.unpack = .zero .positive := rfl
    exact congrArg UInt64.toNat (Doubles.toUInt64_mul_zero zero)
  rw [List.sum_eq_zero nothing]

/-- What is drawn from the unit interval and raised a little is a weight. -/
theorem weight_of_unit {unit : Float} (low : 0 ≤ unit) (high : unit < 1) :
    ∃ value, Doubles.Weight (unit + 0.01) value := by
  have raised : (0.01 : Float).toModel.unpack =
      .finite .positive 5764607523034235 (-59) (by decide) := rfl
  have normal : Doubles.Normal 0.01 (5764607523034235 * 2 ^ (-59 : Int)) :=
    ⟨_, _, _, raised, by decide, rfl⟩
  have moderate : Doubles.Moderate (5764607523034235 * 2 ^ (-59 : Int)) :=
    Doubles.moderate_of_bounds (by norm_num) (by norm_num)
  rcases Doubles.unit_cases low high with ⟨sign, zero⟩ | ⟨value, positive, below⟩
  · have same := Doubles.zero_add_unpack zero normal moderate
    exact ⟨_, ⟨_, _, _, same.trans raised, by decide, rfl⟩, by norm_num, by norm_num⟩
  · have above : 0 < value := by
      obtain ⟨mantissa, exponent, nonzero, _, _, rfl⟩ := positive
      have cast : (0 : ℚ) < mantissa := Nat.cast_pos.mpr nonzero
      positivity
    obtain ⟨sum, added, error⟩ := Doubles.add_near positive (normal.toPositive moderate)
      (Doubles.moderate_of_bounds (by norm_num; linarith) (by norm_num; linarith))
    obtain ⟨lower, upper⟩ := abs_le.mp error
    norm_num at lower upper
    exact ⟨sum, added, by linarith, by linarith⟩

/-- The weights that some units lead to. -/
theorem weights_of_units {units : List Float} (inUnit : ∀ unit ∈ units, 0 ≤ unit ∧ unit < 1) :
    ∃ values, List.Forall₂ Doubles.Weight (units.map (· + 0.01)) values := by
  induction units with
  | nil => exact ⟨[], .nil⟩
  | cons unit units inductionHypothesis =>
    obtain ⟨here, later⟩ := List.forall_mem_cons.mp inUnit
    obtain ⟨value, weight⟩ := weight_of_unit here.1 here.2
    obtain ⟨values, weights⟩ := inductionHypothesis later
    exact ⟨value :: values, .cons weight weights⟩

/-- A remainder that is small for its number of parts is shared out within it. -/
theorem sharesWithin_of_small {n remainder : Nat}
    (small : remainder = 0 ∨ (remainder + 1) * (n + 1) < 2 ^ 53) : SharesWithin n remainder := by
  rcases Nat.eq_zero_or_pos remainder with rfl | positive
  · exact sharesWithin_zero n
  have fits := small.resolve_left positive.ne'
  intro units length inUnit
  rcases Nat.eq_zero_or_pos n with rfl | parts
  · rw [List.length_eq_zero_iff.mp length]
    exact Nat.zero_le _
  obtain ⟨values, weights⟩ := weights_of_units inUnit
  refine Doubles.sum_shares_le weights ?_ positive ?_
  · rw [ne_eq, List.map_eq_nil_iff, ← List.length_eq_zero_iff, length]
    exact parts.ne'
  · rwa [List.length_map, length]

/-- A single weight gets what the remainder is rounded to. -/
theorem share_single {unit : Float} (low : 0 ≤ unit) (high : unit < 1) {remainder : Nat}
    (positive : 0 < remainder) (bounded : remainder ≤ u64Max) :
    shares remainder [unit + 0.01] = [F64.toU64 (F64.ofU64 remainder)] := by
  obtain ⟨value, normal, least, most⟩ := weight_of_unit low high
  have zero : (0.0 : Float).toModel.unpack = .zero .positive := rfl
  have same := Doubles.zero_add_unpack zero normal
    (Doubles.moderate_of_bounds (by linarith) (by linarith))
  obtain ⟨mantissa, exponent, nonzero, unpacked, _⟩ := normal
  have one : (unit + 0.01) / sumF64 [unit + 0.01] = 1.0 := Doubles.div_same unpacked same
  obtain ⟨amount, given, error⟩ :=
    Doubles.ofNat_near positive (Nat.lt_of_le_of_lt bounded (by decide))
  obtain ⟨lower, upper⟩ := abs_le.mp error
  have least' : (1 : ℚ) ≤ remainder := Nat.one_le_cast.mpr positive
  have most' : (remainder : ℚ) ≤ 2 ^ 64 := by exact_mod_cast bounded.trans (by decide)
  have product := Doubles.one_mul_unpack given
    (Doubles.moderate_of_bounds (by linarith) (by linarith))
  show [F64.toU64 ((unit + 0.01) / sumF64 [unit + 0.01] * F64.ofU64 remainder)] = _
  rw [one]
  exact congrArg (fun unpacked : Float.Model.UnpackedFloat => [unpacked.toUInt64.toNat]) product

/-- A single part is within the remainder exactly when the remainder is not rounded up. -/
theorem sharesWithin_one {remainder : Nat} (bounded : remainder ≤ u64Max) :
    SharesWithin 1 remainder ↔ F64.toU64 (F64.ofU64 remainder) ≤ remainder := by
  rcases Nat.eq_zero_or_pos remainder with rfl | positive
  · exact iff_of_true (sharesWithin_zero 1) (by decide)
  constructor
  · intro within
    have zero : (0 : Float) ≤ 0 ∧ (0 : Float) < 1 := by decide
    have share := within [0] rfl (by simpa using zero)
    rwa [List.map_singleton, share_single zero.1 zero.2 positive bounded,
      List.sum_singleton] at share
  · intro rounded units length inUnit
    obtain ⟨unit, rfl⟩ := List.length_eq_one_iff.mp length
    obtain ⟨low, high⟩ := inUnit unit List.mem_cons_self
    rwa [List.map_singleton, share_single low high positive bounded, List.sum_singleton]

end SplitPolicy

/-! ### Every run -/

/-- A generator that reads its draws from a script. -/
structure Script where
  units : List {unit : Float // 0 ≤ unit ∧ unit < 1}
  number : Nat

namespace Script

/-- The number of the script, brought into a range. -/
def pick (script : Script) (low high : Int) : Int := max low (min script.number high)

instance : Rng Script where
  seedFromU64 _ := ⟨[], 0⟩
  random script :=
    match script.units with
    | [] => (0, script)
    | unit :: units => (unit, { script with units := units })
  randomRange _ low high script := (script.pick low high, script)
  fillBytes script := (⟨0⟩, script)
  logNormal _ _ := none
  random_unit script := by
    rcases script with ⟨_ | ⟨unit, units⟩, number⟩
    · show (0 : Float) ≤ 0 ∧ (0 : Float) < 1
      decide
    · exact unit.2
  randomRange_mem _ low high script ordered :=
    ⟨le_max_left _ _, max_le ordered (min_le_right _ _)⟩

/-- A script is read in its order. -/
theorem drawUnits_eq (script : Script) :
    (drawUnits script.units.length script).1 = script.units.map Subtype.val := by
  obtain ⟨units, number⟩ := script
  induction units with
  | nil => rfl
  | cons unit units inductionHypothesis => exact congrArg (unit.1 :: ·) inductionHypothesis

/-- The number of a script is the number of parts, when that is allowed. -/
theorem partCount_eq {policy : SplitPolicy} (valid : policy.Valid) {total n : Nat}
    (allowed : policy.Allows total n) {script : Script} (number : script.number = n) :
    policy.partCount (policy.feasible total) (⟨script, []⟩ : Tape Script) =
      some (n, ⟨script, []⟩) := by
  have least : 1 ≤ policy.feasible total := le_max_right _ _
  obtain ⟨one, ordered, _⟩ := valid
  obtain ⟨low, high⟩ := allowed
  unfold SplitPolicy.partCount
  refine bind_eq_some.mpr
    ⟨_, _, checked_eq_some.mpr ⟨clampNat_eq_some.mpr ⟨by omega, rfl⟩, rfl⟩, ?_⟩
  split
  · refine pure_eq_some.mpr ⟨?_, rfl⟩
    omega
  · unfold randomRangeNat randomRange
    rw [if_pos (by omega)]
    refine map_eq_some.mpr ⟨_, rfl, ?_⟩
    show Int.toNat (script.pick _ _) = n
    unfold pick
    rw [number]
    omega

end Script

/-- An amount is split whatever is drawn, exactly when no weights have shares above the
remainder. -/
theorem splitAmount_always_iff {policy : SplitPolicy} (valid : policy.Valid) {total : Nat}
    (bounded : total ≤ u64Max) :
    (∀ (Generator : Type) [Rng Generator] (tape : Tape Generator),
        Returns (splitAmount total policy) tape (fun parts _ => policy.Splits total parts)) ↔
      ∀ n, policy.Allows total n →
        SplitPolicy.SharesWithin n (total - policy.minPartLamports * n) := by
  rcases Nat.lt_or_ge policy.minPartLamports total with large | small
  · constructor
    · intro always n allowed units length inUnit
      have run := (splitAmount_returns large valid bounded
        ⟨(⟨units.attachWith _ inUnit, n⟩ : Script), []⟩).mp (always Script _)
      rw [returns_of_run (Script.partCount_eq valid allowed rfl)] at run
      have drawn := Script.drawUnits_eq ⟨units.attachWith _ inUnit, n⟩
      simp only [List.length_attachWith, length, List.attachWith_map_subtype_val] at drawn
      unfold drawWeights at run
      rw [drawn] at run
      exact run
    · intro within Generator _ tape
      refine (splitAmount_returns large valid bounded tape).mpr ?_
      obtain ⟨n, middle, counted, allowed⟩ := SplitPolicy.partCount_returns valid total tape
      exact ⟨n, middle, counted, within n allowed _ (drawUnits_length n middle.generator)
        (drawUnits_unit n middle.generator)⟩
  · refine iff_of_true (fun Generator _ tape => splitAmount_small small valid tape) ?_
    intro n allowed units length inUnit
    have positive := allowed.positive valid
    have nothing : total - policy.minPartLamports * n = 0 :=
      Nat.sub_eq_zero_of_le (small.trans (Nat.le_mul_of_pos_right _ positive))
    rw [nothing]
    exact SplitPolicy.sharesWithin_zero n units length inUnit

/-- Splitting conserves the amount whatever is drawn exactly when, for each number of parts that is
allowed, the truncated shares of the remainder are within it. For one part that is a remainder
which is not rounded up; for more parts it is so while the roundings together are less than one. -/
theorem splitAmount_conserves_iff {policy : SplitPolicy} (accepted : policy.validate = .ok ())
    {total : Nat} (bounded : total ≤ u64Max) :
    ((∀ (Generator : Type) [Rng Generator] (tape : Tape Generator),
        Returns (splitAmount total policy) tape (fun parts _ => policy.Splits total parts)) ↔
      ∀ n, policy.Allows total n →
        SplitPolicy.SharesWithin n (total - policy.minPartLamports * n)) ∧
    (∀ remainder ≤ u64Max, SplitPolicy.SharesWithin 1 remainder ↔
      F64.toU64 (F64.ofU64 remainder) ≤ remainder) ∧
    (∀ n remainder, remainder = 0 ∨ (remainder + 1) * (n + 1) < 2 ^ 53 →
      SplitPolicy.SharesWithin n remainder) :=
  ⟨splitAmount_always_iff (SplitPolicy.validate_eq_ok.mp accepted) bounded,
    fun _ small => SplitPolicy.sharesWithin_one small,
    fun _ _ small => SplitPolicy.sharesWithin_of_small small⟩

/-- Two to five parts of at least ten thousand. -/
def fewParts : SplitPolicy := ⟨2, 5, 10000⟩

/-- Five million are always split well into a few parts; here in one run. -/
theorem splitAmount_conserves_fewParts :
    Returns (splitAmount 5000000 fewParts) (⟨⟨3⟩, []⟩ : Tape Counter)
      (fun parts _ => fewParts.Splits 5000000 parts) := by
  obtain ⟨always, _, within⟩ := @splitAmount_conserves_iff fewParts rfl 5000000 (by decide)
  refine always.mpr (fun n allowed => within _ _ (Or.inr ?_)) Counter _
  have most : n ≤ 5 := allowed.2.trans (min_le_left _ _)
  show (5000000 - 10000 * n + 1) * (n + 1) < 2 ^ 53
  calc (5000000 - 10000 * n + 1) * (n + 1) ≤ 5000001 * 6 := Nat.mul_le_mul (by omega) (by omega)
    _ < 2 ^ 53 := by decide

/-- Five equal shares of three quarters of `2 ^ 53` add up to one more. -/
theorem splitAmount_fewParts_panics :
    splitAmount 6755399441105744 fewParts (⟨⟨3⟩, []⟩ : Tape Counter) = none := by
  decide +kernel

/-- The amount of a policy that is accepted, which is not split at all. -/
theorem fewParts_unsplit :
    fewParts.validate = .ok () ∧ 6755399441105744 ≤ u64Max ∧
      ¬ Returns (splitAmount 6755399441105744 fewParts) (⟨⟨3⟩, []⟩ : Tape Counter)
        (fun parts _ => fewParts.Splits 6755399441105744 parts) := by
  refine ⟨rfl, by decide, ?_⟩
  rintro ⟨parts, after, ran, _⟩
  rw [splitAmount_fewParts_panics] at ran
  exact nomatch ran

end AccountCooker
