/-
This file models the personas and the protocol adapters. A persona carries its
action mix, its spend distribution, its rhythm and its noise policies; sampling
an action or an amount draws no account identifier, and an amount is never
zero. An adapter turns one action of a sub-account into the transfers it
intends: a value move to the counterparty, or for a memo a transfer of nothing
from the account to itself.
-/

import Mathlib
import AccountCooker.Noise

namespace AccountCooker

open Collections Draw

variable {Generator : Type} [Rng Generator]

/-! ### Personas -/

structure Persona where
  name : String
  wealthTier : String
  circadian : CircadianModel
  split : SplitPolicy
  decoy : DecoyPolicy
  baseAmountLamports : Nat
  amountSigma : Float
  numSubaccounts : Nat
  /-- The weights by the key of an action kind. -/
  actionWeights : BTreeMap String Float

/-- Walk the table, in key order, until the weights passed use up `pick`. -/
def pickAction : List (String × Float) → Float → ActionKind
  | [], _ => .transfer
  | (key, weight) :: rest, pick =>
    if weight ≤ 0.0 then pickAction rest pick
    else if pick - weight ≤ 0.0 then
      match ActionKind.fromKey key with
      | some kind => kind
      | none => pickAction rest (pick - weight)
    else pickAction rest (pick - weight)

namespace Persona

/-- The built-in profile of a small user. -/
def retail : Persona where
  name := "retail"
  wealthTier := "retail"
  circadian := .default
  split := { minParts := 2, maxParts := 4, minPartLamports := 50000 }
  decoy := { decoysPerReal := 1.0, dustLamportsMax := 30000 }
  baseAmountLamports := 2000000
  amountSigma := 0.7
  numSubaccounts := 4
  actionWeights := .ofList [("transfer", 0.55), ("swap", 0.25), ("stake", 0.10), ("memo", 0.10)]

/-- The built-in profile of a large holder. -/
def whale : Persona where
  name := "whale"
  wealthTier := "whale"
  circadian := .default
  split := { minParts := 3, maxParts := 6, minPartLamports := 1000000 }
  decoy := { decoysPerReal := 2.0, dustLamportsMax := 200000 }
  baseAmountLamports := 500000000
  amountSigma := 0.5
  numSubaccounts := 8
  actionWeights := .ofList [("transfer", 0.30), ("swap", 0.40), ("stake", 0.20), ("memo", 0.10)]

/-- The built-in profile of a market maker, active around the clock. -/
def marketMaker : Persona where
  name := "market_maker"
  wealthTier := "mm"
  circadian :=
    { hourlyWeights := Vector.replicate 24 0.6, actionsPerActiveHour := 5.0, jitter := 0.25 }
  split := { minParts := 2, maxParts := 5, minPartLamports := 500000 }
  decoy := { decoysPerReal := 2.5, dustLamportsMax := 100000 }
  baseAmountLamports := 50000000
  amountSigma := 0.4
  numSubaccounts := 6
  actionWeights := .ofList [("swap", 0.60), ("transfer", 0.30), ("memo", 0.10)]

/-- The built-in profiles. -/
def presets : List Persona := [retail, whale, marketMaker]

/-- The weighted pick of the next action; a table without positive weights picks a transfer. -/
def chooseAction (persona : Persona) : Draw Generator ActionKind :=
  let total := sumF64 (persona.actionWeights.values.filter (fun weight => 0.0 < weight))
  if total ≤ 0.0 then pure .transfer
  else do
    let unit ← random
    pure (pickAction persona.actionWeights.entries (unit * total))

/-- An amount from a log-normal distribution around the base. -/
def sampleAmount [Libm] (persona : Persona) : Draw Generator Nat :=
  let base := F64.ofU64 (max persona.baseAmountLamports 1)
  match Rng.logNormal (Libm.ln base) (F64.max persona.amountSigma 0.01) with
  | some distribution =>
    (fun value => F64.toU64 (F64.max (F64.round value) 1.0)) <$> sample distribution
  | none => pure (max persona.baseAmountLamports 1)

theorem chooseAction_silent (persona : Persona) :
    Silent (persona.chooseAction : Draw Generator ActionKind) (fun _ => True) := by
  unfold chooseAction
  dsimp only
  split
  · exact (yields_pure _).mono (fun _ _ => trivial)
  · refine Silent.bind yields_random (fun unit _ => ?_)
    exact (yields_pure _).mono (fun _ _ => trivial)

/-- An amount is at least one lamport. -/
theorem sampleAmount_silent [Libm] (persona : Persona) :
    Silent (persona.sampleAmount : Draw Generator Nat) (fun amount => 1 ≤ amount) := by
  unfold sampleAmount
  dsimp only
  split
  · refine (Silent.map (yields_sample _)).mono ?_
    rintro amount ⟨value, _, rfl⟩
    exact F64.one_le_toU64_max_one _
  · refine (yields_pure _).mono ?_
    rintro amount rfl
    exact le_max_right _ _

end Persona

/-! ### Adapters -/

/-- One intended transfer of value. -/
structure PlannedTx where
  source : AccountId
  dest : AccountId
  amount : Nat
  kind : ActionKind

/-- Everything an adapter needs to plan an action. -/
structure ActionContext where
  source : AccountId
  counterparty : AccountId
  amount : Nat

structure ProtocolAdapter where
  kind : ActionKind
  plan : ActionContext → List PlannedTx

/-- The plan of an adapter that moves the value to the counterparty. -/
def planMove (kind : ActionKind) (ctx : ActionContext) : List PlannedTx :=
  [⟨ctx.source, ctx.counterparty, ctx.amount, kind⟩]

def transferAdapter : ProtocolAdapter := ⟨.transfer, planMove .transfer⟩

def stakeAdapter : ProtocolAdapter := ⟨.stake, planMove .stake⟩

def swapAdapter : ProtocolAdapter := ⟨.swap, planMove .swap⟩

/-- A memo carries no value and goes back to its source. -/
def memoAdapter : ProtocolAdapter :=
  ⟨.memo, fun ctx => [⟨ctx.source, ctx.source, 0, .memo⟩]⟩

/-- The built-in adapter of a kind; what is neither a stake, a swap nor a memo is a transfer. -/
def adapterFor : ActionKind → ProtocolAdapter
  | .stake => stakeAdapter
  | .swap => swapAdapter
  | .memo => memoAdapter
  | .transfer | .dust | .consolidate => transferAdapter

/-- Every planned transfer starts at the acting account and ends at the counterparty, or moves
nothing back to the acting account. -/
theorem plan_shape {kind : ActionKind} {ctx : ActionContext} {planned : PlannedTx}
    (member : planned ∈ (adapterFor kind).plan ctx) :
    planned.source = ctx.source ∧
      (planned.dest = ctx.counterparty ∨ planned.dest = ctx.source ∧ planned.amount = 0) := by
  cases kind <;> obtain rfl := List.mem_singleton.mp member
  · exact ⟨rfl, Or.inl rfl⟩
  · exact ⟨rfl, Or.inl rfl⟩
  · exact ⟨rfl, Or.inl rfl⟩
  · exact ⟨rfl, Or.inr ⟨rfl, rfl⟩⟩
  · exact ⟨rfl, Or.inl rfl⟩
  · exact ⟨rfl, Or.inl rfl⟩

end AccountCooker
