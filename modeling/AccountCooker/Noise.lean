/-
This file models the noise primitives: splitting an amount into parts, sampling
the delay to an agent's next action from its circadian rhythm, and drawing the
decoys that surround a real action. None of them draws an account identifier.
-/

import Mathlib
import AccountCooker.Machine
import AccountCooker.Random

namespace AccountCooker

open Draw

variable {Generator : Type} [Rng Generator]

/-- `items.iter().sum()` of floats. -/
def sumF64 (items : List Float) : Float := items.foldl (· + ·) 0.0

/-- `items.iter().sum()` of `u64`s, which panics on overflow. -/
def sumU64 (items : List Nat) : Option Nat :=
  items.foldlM (fun total item => checkedU64 (total + item)) 0

/-- A checked sum is the sum, when that is in range. -/
theorem sumU64_eq_some {items : List Nat} {total : Nat} :
    sumU64 items = some total ↔ items.sum ≤ u64Max ∧ items.sum = total := by
  have run (start : Nat) (small : start ≤ u64Max) :
      items.foldlM (fun total item => checkedU64 (total + item)) start = some total ↔
        start + items.sum ≤ u64Max ∧ start + items.sum = total := by
    induction items generalizing start with
    | nil =>
      show some start = some total ↔ start + 0 ≤ u64Max ∧ start + 0 = total
      rw [Option.some_inj, Nat.add_zero]
      exact ⟨fun same => ⟨small, same⟩, And.right⟩
    | cons item rest inductionHypothesis =>
      rw [List.foldlM_cons, Option.bind_eq_bind, Option.bind_eq_some_iff, List.sum_cons,
        ← Nat.add_assoc]
      constructor
      · rintro ⟨next, added, later⟩
        obtain ⟨inRange, rfl⟩ := checkedU64_eq_some.mp added
        exact (inductionHypothesis _ inRange).mp later
      · rintro ⟨inRange, same⟩
        have next : start + item ≤ u64Max := (Nat.le_add_right _ _).trans inRange
        exact ⟨_, checkedU64_eq_some.mpr ⟨next, rfl⟩,
          (inductionHypothesis _ next).mpr ⟨inRange, same⟩⟩
  have whole := run 0 (Nat.zero_le _)
  rwa [Nat.zero_add] at whole

/-! ### Splitting -/

structure SplitPolicy where
  minParts : Nat
  maxParts : Nat
  /-- No part is smaller than this. -/
  minPartLamports : Nat

/-- How many parts to make of an amount that affords `feasible` of them. -/
def SplitPolicy.partCount (policy : SplitPolicy) (feasible : Nat) : Draw Generator Nat := do
  let maxParts := min (max policy.maxParts 1) feasible
  let minParts ← checked (clampNat policy.minParts 1 maxParts)
  if minParts ≥ maxParts then pure maxParts else randomRangeNat .usize minParts maxParts

/-- `n` parts that start at `base` and share `remainder` by random weights, rounded down. -/
def weightedParts (base n remainder : Nat) : Draw Generator (List Nat) := do
  let weights ← (List.range n).mapM (fun _ => (· + 0.01) <$> random)
  let wsum := sumF64 weights
  weights.mapM (fun w =>
    checked (checkedU64 (base + F64.toU64 (w / wsum * F64.ofU64 remainder))))

/-- Split `total` into parts of at least the policy's floor: every part starts at the floor, the
remainder is spread by random weights, and what rounding leaves over goes to one part. -/
def splitAmount (total : Nat) (policy : SplitPolicy) : Draw Generator (List Nat) :=
  if total = 0 then pure []
  else if total ≤ max policy.minPartLamports 1 then pure [total]
  else do
    let base := max policy.minPartLamports 1
    let n ← policy.partCount (max (total / base) 1)
    let floors ← checked (checkedU64 (base * n))
    let remainder ← checked (checkedSub total floors)
    let parts ← weightedParts base n remainder
    let assigned ← checked (sumU64 parts)
    let leftover ← checked (checkedSub total assigned)
    let idx ← randomIndex n
    let part ← checked parts[idx]?
    let grown ← checked (checkedU64 (part + leftover))
    pure (parts.set idx grown)

/-! ### Timing -/

structure CircadianModel where
  /-- The relative activity of each hour of the day. -/
  hourlyWeights : Vector Float 24
  actionsPerActiveHour : Float
  jitter : Float

/-- A waking day: quiet nights, busy hours, a peak in the evening. -/
def CircadianModel.default : CircadianModel where
  hourlyWeights := #v[0.05, 0.03, 0.02, 0.02, 0.03, 0.05, 0.15, 0.35,
    0.6, 0.8, 0.9, 0.95, 0.85, 0.9, 0.95, 0.9,
    0.85, 0.9, 1.0, 1.0, 0.95, 0.7, 0.4, 0.15]
  actionsPerActiveHour := 2.0
  jitter := 0.35

/-- The delay to the next action at a second of the day: an exponential gap at the rate of the
hour, jittered, and never below one second. -/
def CircadianModel.nextDelaySecs [Libm] (model : CircadianModel) (secondOfDay : Nat) :
    Draw Generator Nat := do
  let w := F64.max (model.hourlyWeights.get (Fin.ofNat 24 (secondOfDay / 3600))) 0.01
  let ratePerHour := F64.max (model.actionsPerActiveHour * w) 0.05
  let meanGap := 3600.0 / ratePerHour
  let unit ← random
  let u := F64.clamp unit 1e-9 1.0
  let gap := -Libm.ln u * meanGap
  let unit ← random
  let j := 1.0 + (unit * 2.0 - 1.0) * model.jitter
  pure (F64.toU64 (F64.max (gap * j) 1.0))

/-! ### Decoys -/

structure DecoyPolicy where
  decoysPerReal : Float
  dustLamportsMax : Nat

/-- Knuth's loop after `k` rounds: it ends when the product falls to `l`, or for safety after
the sixty-fifth round. -/
def poissonRounds (l : Float) : (rounds k : Nat) → (p : Float) → Draw Generator Nat
  | 0, k, _ => pure (k - 1)
  | rounds + 1, k, p => do
    let unit ← random
    if p * unit ≤ l then pure k else poissonRounds l rounds (k + 1) (p * unit)

/-- The number of decoys for one real action, Poisson around the policy's mean. -/
def DecoyPolicy.numDecoys [Libm] (policy : DecoyPolicy) : Draw Generator Nat :=
  if policy.decoysPerReal ≤ 0.0 then pure 0
  else poissonRounds (Libm.exp (-policy.decoysPerReal)) 65 0 1.0

/-- A dust amount for a decoy. -/
def DecoyPolicy.dustAmount (policy : DecoyPolicy) : Draw Generator Nat :=
  randomRangeNat .u64 1 (max policy.dustLamportsMax 1)

/-! ### What the primitives draw -/

theorem partCount_silent (policy : SplitPolicy) (feasible : Nat) :
    Silent (policy.partCount feasible : Draw Generator Nat) (fun _ => True) := by
  refine Silent.bind (yields_checked _) (fun minParts _ => ?_)
  split
  · exact (yields_pure _).mono (fun _ _ => trivial)
  · exact (yields_randomRangeNat _ _ _).mono (fun _ _ => trivial)

theorem weightedParts_silent (base n remainder : Nat) :
    Silent (weightedParts base n remainder : Draw Generator (List Nat)) (fun _ => True) := by
  refine Silent.bind (yields_mapM_silent _ _ (fun _ => ?_)) (fun weights _ => ?_)
  · exact (Silent.map yields_random).mono (fun _ _ => trivial)
  · exact yields_mapM_silent _ _ (fun w => (yields_checked _).mono (fun _ _ => trivial))

/-- Splitting draws no identifier, and only nothing splits into no parts. -/
theorem splitAmount_silent (total : Nat) (policy : SplitPolicy) :
    Silent (splitAmount total policy : Draw Generator (List Nat))
      (fun parts => total = 0 → parts = []) := by
  unfold splitAmount
  split
  · exact (yields_pure _).mono (fun parts empty _ => empty)
  · rename_i nonzero
    split
    · exact (yields_pure _).mono (fun parts _ zero => absurd zero nonzero)
    · refine Silent.bind (partCount_silent policy _) (fun n _ => ?_)
      refine Silent.bind (yields_checked _) (fun floors _ => ?_)
      refine Silent.bind (yields_checked _) (fun remainder _ => ?_)
      refine Silent.bind (weightedParts_silent _ n remainder) (fun parts _ => ?_)
      refine Silent.bind (yields_checked _) (fun assigned _ => ?_)
      refine Silent.bind (yields_checked _) (fun leftover _ => ?_)
      refine Silent.bind (yields_randomIndex n) (fun idx _ => ?_)
      refine Silent.bind (yields_checked _) (fun part _ => ?_)
      refine Silent.bind (yields_checked _) (fun grown _ => ?_)
      exact (yields_pure _).mono (fun parts _ zero => absurd zero nonzero)

theorem nextDelaySecs_silent [Libm] (model : CircadianModel) (secondOfDay : Nat) :
    Silent (model.nextDelaySecs secondOfDay : Draw Generator Nat) (fun delay => 1 ≤ delay) := by
  refine Silent.bind yields_random (fun unit _ => ?_)
  refine Silent.bind yields_random (fun unit _ => ?_)
  refine (yields_pure _).mono ?_
  rintro delay rfl
  exact F64.one_le_toU64_max_one _

theorem poissonRounds_silent (l : Float) (rounds k : Nat) (p : Float) :
    Silent (poissonRounds l rounds k p : Draw Generator Nat) (fun _ => True) := by
  induction rounds generalizing k p with
  | zero => exact (yields_pure _).mono (fun _ _ => trivial)
  | succ rounds inductionHypothesis =>
    refine Silent.bind yields_random (fun unit _ => ?_)
    split
    · exact (yields_pure _).mono (fun _ _ => trivial)
    · exact inductionHypothesis (k + 1) (p * unit)

theorem numDecoys_silent [Libm] (policy : DecoyPolicy) :
    Silent (policy.numDecoys : Draw Generator Nat) (fun _ => True) := by
  unfold DecoyPolicy.numDecoys
  split
  · exact (yields_pure _).mono (fun _ _ => trivial)
  · exact poissonRounds_silent _ _ _ _

theorem dustAmount_silent (policy : DecoyPolicy) :
    Silent (policy.dustAmount : Draw Generator Nat) (fun amount => 1 ≤ amount) :=
  (yields_randomRangeNat _ _ _).mono (fun _ range => range.1)

end AccountCooker
