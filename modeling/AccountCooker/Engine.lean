/-
This file models the engines: what one wake of an agent writes to the chain.

The naive and the legacy engine stamp every record of a wake with the time of
the chain, the naive one under the agent's main account as fee payer, the
legacy one in parts under throwaway fee payers. The hardened engine acts from
one sub-account and moves the clock on before each record. Its maintenance
either rotates sub-accounts into fresh successors or, as the leaky ablation,
sweeps them into the main account.

The source threads the chain and the agent as mutable references; here a
function takes them and returns what it changed.
-/

import Mathlib
import AccountCooker.Persona

namespace AccountCooker

open Draw

variable {Generator : Type} [Rng Generator]

/-! ### Configuration -/

/-- The noise mode; `naive` is the sloppy baseline. -/
inductive Mode
  | naive
  | cooker
deriving DecidableEq

/-- Where the money of a throwaway fee payer comes from. -/
inductive FundingPolicy
  | operatorHub
  | dedicatedFunder
  | sharedRelayers (k : Nat)

structure FundingConfig where
  policy : FundingPolicy
  sticky : Bool
  leadMinSecs : Int
  leadMaxSecs : Int
  topupMin : Nat
  topupMax : Nat

/-- A policy with the standard just-in-time lead and fee-sized top-up. -/
def FundingConfig.new (policy : FundingPolicy) : FundingConfig where
  policy := policy
  sticky := true
  leadMinSecs := 30
  leadMaxSecs := 900
  topupMin := 20000
  topupMax := 60000

/-- How periodic balance maintenance moves value. -/
inductive RebalanceStrategy
  | rotateAccounts
  | directHub
deriving DecidableEq

/-- Tunables for the hardened path. -/
structure HardeningConfig where
  intraGapMeanSecs : Float
  consolidationProb : Float
  sweepMinSources : Nat
  sweepMaxSources : Nat
  holdAggregateRate : Bool
  rebalance : RebalanceStrategy

def HardeningConfig.default : HardeningConfig where
  intraGapMeanSecs := 7.0
  consolidationProb := 0.03
  sweepMinSources := 2
  sweepMaxSources := 3
  holdAggregateRate := true
  rebalance := .rotateAccounts

structure SimConfig where
  numAgents : Nat
  durationSecs : Int
  startTs : Int
  mode : Mode
  seed : Nat
  numExternal : Nat
  hardenTiming : Bool
  hardening : HardeningConfig
  funding : Option FundingConfig

/-- Twelve hardened agents over three simulated days. -/
def SimConfig.default : SimConfig where
  numAgents := 12
  durationSecs := 3 * 86400
  startTs := 1700000000
  mode := .cooker
  seed := 1
  numExternal := 40
  hardenTiming := true
  hardening := .default
  funding := none

/-- The run takes the hardened path. -/
def SimConfig.hardened (cfg : SimConfig) : Bool := cfg.mode = .cooker && cfg.hardenTiming

/-! ### The chain -/

/-- The in-memory sink: it records exactly what an observer of the chain would see. -/
structure MockChain where
  ledger : Ledger
  clock : Int
  slot : Nat
  sig : Nat

namespace MockChain

def new (startTs : Int) : MockChain := ⟨⟨[]⟩, startTs, 0, 0⟩

def now (chain : MockChain) : Int := chain.clock

def setTime (chain : MockChain) (ts : Int) : MockChain := { chain with clock := ts }

/-- Append the transfer under the next signature and slot, at the time of the clock. -/
def record (chain : MockChain) (tx : PlannedTx) (feePayer : AccountId)
    (operator : Option AgentId) : Option MockChain := do
  let sig ← checkedU64 (chain.sig + 1)
  let slot ← checkedU64 (chain.slot + 1)
  pure { chain with
    sig := sig
    slot := slot
    ledger := ⟨chain.ledger.records ++ [{
      sig := sig
      slot := slot
      ts := chain.clock
      feePayer := feePayer
      source := tx.source
      dest := tx.dest
      amount := tx.amount
      kind := tx.kind
      operator := operator }]⟩ }

end MockChain

/-! ### Agents -/

/-- The fixed circadian phase of a sub-account, for the hardened path. -/
structure SubSched where
  phase : Int

structure Agent where
  id : AgentId
  persona : Persona
  subaccounts : List AccountId
  subSched : List SubSched
  main : AccountId

/-! ### Naive and legacy wakes -/

section Wakes

variable [Libm]

/-- The parts of a planned amount; an amount that splits into no parts is kept whole. -/
def partsOf (amount : Nat) (policy : SplitPolicy) : Draw Generator (List Nat) := do
  let parts ← splitAmount amount policy
  pure (if parts.isEmpty then [amount] else parts)

/-- One part of a legacy transfer: a throwaway fee payer, a source of its own. -/
def emitPart (agent : Agent) (planned : PlannedTx) (chain : MockChain) (part : Nat) :
    Draw Generator MockChain := do
  let feePayer ← randomAccount
  let source ← choose agent.subaccounts
  checked (chain.record ⟨source, planned.dest, part, planned.kind⟩ feePayer (some agent.id))

/-- Naive: one record under the main account. Legacy: the parts of the value. -/
def emitWithNoise (agent : Agent) (mode : Mode) (chain : MockChain) (planned : PlannedTx) :
    Draw Generator MockChain :=
  match mode with
  | .naive => checked (chain.record planned agent.main (some agent.id))
  | .cooker => do
    let parts ← partsOf planned.amount agent.persona.split
    parts.foldlM (emitPart agent planned) chain

/-- One naive consolidation: a sub-account other than the main one pays into it. -/
def consolidateInto (agent : Agent) (chain : MockChain) (sub : AccountId) :
    Draw Generator MockChain :=
  if sub = agent.main then pure chain
  else do
    let amount ← randomRangeNat .u64 1000 100000
    checked (chain.record ⟨sub, agent.main, amount, .consolidate⟩ agent.main (some agent.id))

/-- Periodic consolidation: naive funnels every sub-account into the main one, legacy now and
then moves value to a fresh churn address. -/
def maybeRebalance (chain : MockChain) (agent : Agent) (mode : Mode) : Draw Generator MockChain :=
  match mode with
  | .naive => do
    let unit ← random
    if unit < 0.12 then agent.subaccounts.foldlM (consolidateInto agent) chain else pure chain
  | .cooker => do
    let unit ← random
    if unit < 0.08 then do
      let source ← choose agent.subaccounts
      let churn ← randomAccount
      let amount ← randomRangeNat .u64 1000 200000
      let feePayer ← randomAccount
      checked (chain.record ⟨source, churn, amount, .transfer⟩ feePayer (some agent.id))
    else pure chain

/-- One legacy decoy: dust from a random sub-account to a random external. -/
def emitDecoy (agent : Agent) (externals : List AccountId) (mode : Mode) (chain : MockChain)
    (_ : Nat) : Draw Generator MockChain := do
  let source ← choose agent.subaccounts
  let dest ← choose externals
  let dust ← agent.persona.decoy.dustAmount
  emitWithNoise agent mode chain ⟨source, dest, dust, .dust⟩

/-- The decoys of a wake; the naive engine has none. -/
def emitDecoys (agent : Agent) (externals : List AccountId) (mode : Mode) (chain : MockChain) :
    Draw Generator MockChain :=
  match mode with
  | .naive => pure chain
  | .cooker => do
    let n ← agent.persona.decoy.numDecoys
    (List.range n).foldlM (emitDecoy agent externals mode) chain

/-- A wake of the naive or the legacy engine. -/
def performAction (chain : MockChain) (agent : Agent) (externals : List AccountId) (mode : Mode) :
    Draw Generator MockChain := do
  let kind ← agent.persona.chooseAction
  let source ← choose agent.subaccounts
  let counterparty ← choose externals
  let amount ← agent.persona.sampleAmount
  let planned := (adapterFor kind).plan ⟨source, counterparty, amount⟩
  let chain ← planned.foldlM (emitWithNoise agent mode) chain
  let chain ← emitDecoys agent externals mode chain
  maybeRebalance chain agent mode

/-! ### Hardened wakes -/

/-- The gap between two records of one wake: exponential, at least a second. -/
def intraGap (cfg : SimConfig) : Draw Generator Int := do
  let mean := F64.max cfg.hardening.intraGapMeanSecs 1.0
  let unit ← random
  let u := F64.clamp unit 1e-9 1.0
  pure (F64.toI64 (F64.max (-Libm.ln u * mean) 1.0))

/-- The chain and the clock `t` of a hardened wake. -/
structure Clocked where
  chain : MockChain
  t : Int

/-- Move the wake's clock on by a gap, and the chain's with it. -/
def Clocked.advance (clocked : Clocked) (cfg : SimConfig) : Draw Generator Clocked := do
  let gap ← intraGap cfg
  let t ← checked (checkedI64 (clocked.t + gap))
  pure ⟨clocked.chain.setTime t, t⟩

/-- Record a transfer of the agent at the wake's clock. -/
def Clocked.record (clocked : Clocked) (agent : Agent) (tx : PlannedTx) (feePayer : AccountId) :
    Draw Generator Clocked := do
  let chain ← checked (clocked.chain.record tx feePayer (some agent.id))
  pure ⟨chain, clocked.t⟩

/-- One part of a hardened action, from the one source of the wake. -/
def hardenedPart (cfg : SimConfig) (agent : Agent) (source : AccountId) (planned : PlannedTx)
    (clocked : Clocked) (part : Nat) : Draw Generator Clocked := do
  let clocked ← clocked.advance cfg
  let feePayer ← randomAccount
  clocked.record agent ⟨source, planned.dest, part, planned.kind⟩ feePayer

/-- All parts of one planned transfer. -/
def hardenedParts (cfg : SimConfig) (agent : Agent) (source : AccountId) (clocked : Clocked)
    (planned : PlannedTx) : Draw Generator Clocked := do
  let parts ← partsOf planned.amount agent.persona.split
  parts.foldlM (hardenedPart cfg agent source planned) clocked

/-- One decoy, from the same source. -/
def hardenedDecoy (cfg : SimConfig) (agent : Agent) (source : AccountId)
    (externals : List AccountId) (clocked : Clocked) (_ : Nat) : Draw Generator Clocked := do
  let clocked ← clocked.advance cfg
  let dest ← choose externals
  let dust ← agent.persona.decoy.dustAmount
  let feePayer ← randomAccount
  clocked.record agent ⟨source, dest, dust, .dust⟩ feePayer

/-- `items.swap(i, j)`. -/
def swap {Item : Type} (items : List Item) (i j : Nat) : Option (List Item) := do
  let first ← items[i]?
  let second ← items[j]?
  pure ((items.set i second).set j first)

/-- Step `i` of a partial Fisher-Yates shuffle. -/
def shuffleStep (available : Nat) (idxs : List Nat) (i : Nat) : Draw Generator (List Nat) := do
  let left ← checked (checkedSub available i)
  let offset ← randomIndex left
  checked (swap idxs i (i + offset))

/-- `k` distinct indices of `1..n`: the front of a partial Fisher-Yates shuffle. -/
def sweepIndices (n k : Nat) : Draw Generator (List Nat) := do
  let idxs ← (List.range k).foldlM (shuffleStep (n - 1)) (List.range' 1 (n - 1))
  pure (idxs.take k)

/-- How many accounts to move, between `kmin` and `kmax`. -/
def sweepCount (kmin kmax : Nat) : Draw Generator Nat :=
  if kmin ≥ kmax then pure kmax else randomRangeNat .usize kmin kmax

/-- A hardened wake that rotates: the clock, and the agent whose account table changes. -/
structure Rotating where
  clocked : Clocked
  agent : Agent

/-- Move one sub-account into a fresh successor, which takes its place in the table. -/
def rotateOne (cfg : SimConfig) (rotating : Rotating) (subIdx : Nat) :
    Draw Generator Rotating := do
  let source ← checked rotating.agent.subaccounts[subIdx]?
  let successor ← randomAccount
  let clocked ← rotating.clocked.advance cfg
  let amount ← rotating.agent.persona.sampleAmount
  let feePayer ← randomAccount
  let clocked ← clocked.record rotating.agent ⟨source, successor, amount, .transfer⟩ feePayer
  pure ⟨clocked, { rotating.agent with
    subaccounts := rotating.agent.subaccounts.set subIdx successor }⟩

/-- Move selected sub-accounts one-to-one into fresh successors; index zero stays. -/
def rotateAccounts (cfg : SimConfig) (clocked : Clocked) (agent : Agent) :
    Draw Generator Rotating :=
  if agent.subaccounts.length < 2 then pure ⟨clocked, agent⟩
  else do
    let available := agent.subaccounts.length - 1
    let kmax ← checked (clampNat cfg.hardening.sweepMaxSources 1 available)
    let kmin ← checked (clampNat cfg.hardening.sweepMinSources 1 kmax)
    let k ← sweepCount kmin kmax
    let idxs ← sweepIndices agent.subaccounts.length k
    idxs.foldlM (rotateOne cfg) ⟨clocked, agent⟩

/-- Move value from one sub-account into the main account. -/
def sweepOne (cfg : SimConfig) (agent : Agent) (clocked : Clocked) (sub : Nat) :
    Draw Generator Clocked := do
  let source ← checked agent.subaccounts[sub]?
  let clocked ← clocked.advance cfg
  let amount ← agent.persona.sampleAmount
  let feePayer ← randomAccount
  clocked.record agent ⟨source, agent.main, amount, .transfer⟩ feePayer

/-- Move value from `k` distinct sub-accounts into the main account. Unlike a rotation, the upper
bound on `k` is only capped, so that a configured maximum of zero panics in the second clamp. -/
def consolidateSweep (cfg : SimConfig) (clocked : Clocked) (agent : Agent) :
    Draw Generator Clocked :=
  if agent.subaccounts.length < 2 then pure clocked
  else do
    let avail := agent.subaccounts.length - 1
    let kmax := min cfg.hardening.sweepMaxSources avail
    let kmin ← checked (clampNat cfg.hardening.sweepMinSources 1 kmax)
    let k ← sweepCount kmin kmax
    let idxs ← sweepIndices agent.subaccounts.length k
    idxs.foldlM (sweepOne cfg agent) clocked

/-- Balance maintenance, in the configured way. -/
def maintain (cfg : SimConfig) (clocked : Clocked) (agent : Agent) : Draw Generator Rotating :=
  match cfg.hardening.rebalance with
  | .rotateAccounts => rotateAccounts cfg clocked agent
  | .directHub => (fun clocked => ⟨clocked, agent⟩) <$> consolidateSweep cfg clocked agent

/-- An outward action and its decoys, all from one source. -/
def hardenedAction (cfg : SimConfig) (clocked : Clocked) (agent : Agent) (source : AccountId)
    (externals : List AccountId) : Draw Generator Clocked := do
  let kind ← agent.persona.chooseAction
  let counterparty ← choose externals
  let amount ← agent.persona.sampleAmount
  let planned := (adapterFor kind).plan ⟨source, counterparty, amount⟩
  let clocked ← planned.foldlM (hardenedParts cfg agent source) clocked
  let ndec ← agent.persona.decoy.numDecoys
  (List.range ndec).foldlM (hardenedDecoy cfg agent source externals) clocked

/-- A wake of the hardened engine: now and then maintenance, else one action of the acting
sub-account. -/
def performActionHardened (chain : MockChain) (agent : Agent) (subIdx : Nat)
    (externals : List AccountId) (cfg : SimConfig) : Draw Generator (MockChain × Agent) := do
  let clocked : Clocked := ⟨chain, chain.now⟩
  let source ← checked agent.subaccounts[subIdx]?
  let unit ← random
  if unit < cfg.hardening.consolidationProb then do
    let rotating ← maintain cfg clocked agent
    pure (rotating.clocked.chain, rotating.agent)
  else do
    let clocked ← hardenedAction cfg clocked agent source externals
    pure (clocked.chain, agent)

end Wakes

end AccountCooker
