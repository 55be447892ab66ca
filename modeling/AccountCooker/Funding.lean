/-
This file models the funding post-pass. Over a finished ledger it gives every
throwaway fee payer one earlier transfer from its funder, drawn from a seed of
its own, and appends these transfers in time order under continued signatures.
The records of the base ledger are never touched, and without a funding
configuration, or for the naive engine, nothing is appended.
-/

import Mathlib
import AccountCooker.Engine

namespace AccountCooker

open Collections Draw

/-- Seed derivation, shared by fresh runs and durable resume. -/
def deriveSeed (cfg : SimConfig) : Nat :=
  cfg.seed ^^^ ((match cfg.mode with | .naive => 0 | .cooker => 1) * 0x9E3779B9 % 2 ^ 64)

/-- The seed of the funding stream: a fixed salt on the action seed. -/
def deriveFundingSeed (cfg : SimConfig) : Nat := deriveSeed cfg ^^^ 0xF00D5EED00000004

section Assignment

variable {Generator : Type} [Rng Generator]

/-- The pool of relayers, drawn before any assignment. -/
def drawRelayers (policy : FundingPolicy) : Draw Generator (List AccountId) :=
  match policy with
  | .sharedRelayers k => (List.range (max k 1)).mapM (fun _ => randomAccount)
  | .operatorHub | .dedicatedFunder => pure []

/-- The funder of an operator, and the label its transfers carry. A relayer that is drawn per
event leaves the first of the pool as a placeholder. -/
def assignFunder (fcfg : FundingConfig) (hubs : BTreeMap AgentId AccountId)
    (relayers : List AccountId) (funderOf : BTreeMap AgentId (AccountId × Option AgentId))
    (op : AgentId) : Draw Generator (BTreeMap AgentId (AccountId × Option AgentId)) :=
  match fcfg.policy with
  | .operatorHub => do
    let hub ← checked (hubs.get? op)
    pure (funderOf.insert op (hub, some op))
  | .dedicatedFunder => do
    let funder ← randomAccount
    pure (funderOf.insert op (funder, some op))
  | .sharedRelayers _ =>
    if fcfg.sticky then do
      let relayer ← choose relayers
      pure (funderOf.insert op (relayer, none))
    else do
      let relayer ← checked relayers[0]?
      pure (funderOf.insert op (relayer, none))

/-- A relayer is drawn for each event. -/
def FundingConfig.perEventRelayer (fcfg : FundingConfig) : Bool :=
  match fcfg.policy with
  | .sharedRelayers _ => !fcfg.sticky
  | .operatorHub | .dedicatedFunder => false

/-- The throwaways already funded, and the transfers that fund them. -/
structure FundingEvents where
  funded : Finset AccountId
  events : List TxRecord

/-- Fund the fee payer of a record at its first use, unless it also signs as a source, its
operator is unknown, or it would fund itself. -/
def fundRecord (fcfg : FundingConfig) (sourceSet : Finset AccountId) (relayers : List AccountId)
    (funderOf : BTreeMap AgentId (AccountId × Option AgentId)) (state : FundingEvents)
    (r : TxRecord) : Draw Generator FundingEvents :=
  if r.feePayer ∈ sourceSet then pure state
  else if r.feePayer ∈ state.funded then pure state
  else match r.operator with
    | none => pure { state with funded := insert r.feePayer state.funded }
    | some op => do
      let assigned ← (if fcfg.perEventRelayer
        then (fun relayer => (relayer, none)) <$> choose relayers
        else checked (funderOf.get? op))
      if assigned.1 = r.feePayer then
        pure { state with funded := insert r.feePayer state.funded }
      else do
        let lead ← randomRange .i64 fcfg.leadMinSecs (max fcfg.leadMaxSecs fcfg.leadMinSecs)
        let amount ← randomRangeNat .u64 fcfg.topupMin (max fcfg.topupMax fcfg.topupMin)
        let ts ← checked (checkedI64 (r.ts - lead))
        pure ⟨insert r.feePayer state.funded, state.events ++ [{
          sig := 0
          slot := 0
          ts := ts
          feePayer := assigned.1
          source := assigned.1
          dest := r.feePayer
          amount := amount
          kind := .transfer
          operator := assigned.2 }]⟩

/-- All funding transfers of a ledger, in the order of the first uses. -/
def fundingEvents (fcfg : FundingConfig) (hubs : BTreeMap AgentId AccountId)
    (records : List TxRecord) : Draw Generator (List TxRecord) := do
  let relayers ← drawRelayers fcfg.policy
  let funderOf ← hubs.keys.foldlM (assignFunder fcfg hubs relayers) BTreeMap.empty
  let sourceSet := (records.map (·.source)).toFinset
  let state ← records.foldlM (fundRecord fcfg sourceSet relayers funderOf) ⟨∅, []⟩
  pure state.events

end Assignment

/-- The order in which funding transfers are appended. -/
def fundedBefore (first second : TxRecord) : Prop :=
  first.ts < second.ts ∨ first.ts = second.ts ∧ first.dest ≤ second.dest

instance : DecidableRel fundedBefore := fun first second =>
  inferInstanceAs (Decidable (first.ts < second.ts ∨ first.ts = second.ts ∧
    first.dest ≤ second.dest))

/-- Append transfers under the signatures and slots that follow `sig` and `slot`. -/
def appendEvents : (sig slot : Nat) → List TxRecord → Option (List TxRecord)
  | _, _, [] => some []
  | sig, slot, event :: rest => do
    let sig ← checkedU64 (sig + 1)
    let slot ← checkedU64 (slot + 1)
    let later ← appendEvents sig slot rest
    pure ({ event with sig := sig, slot := slot } :: later)

/-- Append the funding transfers to a finished ledger; `none` is a panic. -/
def applyFunding (Generator : Type) [Rng Generator] (ledger : Ledger)
    (hubs : BTreeMap AgentId AccountId) (cfg : SimConfig) : Option Ledger :=
  match cfg.funding with
  | none => some ledger
  | some fcfg =>
    if cfg.mode = .naive then some ledger
    else do
      let frng : Generator := Rng.seedFromU64 (deriveFundingSeed cfg)
      let (events, _) ← fundingEvents fcfg hubs ledger.records ⟨frng, []⟩
      let suffix ← appendEvents ((ledger.records.map (·.sig)).foldl max 0)
        ((ledger.records.map (·.slot)).foldl max 0) (events.insertionSort fundedBefore)
      pure ⟨ledger.records ++ suffix⟩

end AccountCooker
