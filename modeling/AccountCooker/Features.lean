/-
This file models the features the learned adversary computes for a pair of
accounts. Every edge map counts in floating point, by adding one for each pair
it is handed; it is modelled as that sum over the list of the pairs, in the
order they come. The groupings and the tests of a record are those of the
heuristics.
-/

import Mathlib
import AccountCooker.Machine
import AccountCooker.Random
import AccountCooker.Heuristics

namespace AccountCooker

open Collections

/-! ### Configuration -/

structure MlConfig where
  folds : Nat
  iters : Nat
  learningRate : Float
  l2 : Float
  threshold : Float
  windowSecs : Int
  temporalWindowSecs : Int
  amountToleranceBps : Nat
  activationWindowSecs : Int
  minOperators : Nat
  minPositivePairs : Nat

namespace MlConfig

/-- `MlConfig::default`. -/
def standard : MlConfig where
  folds := 5
  iters := 300
  learningRate := 0.3
  l2 := 1e-3
  threshold := 0.5
  windowSecs := 120
  temporalWindowSecs := 120
  amountToleranceBps := 50
  activationWindowSecs := 2 * 86400
  minOperators := 6
  minPositivePairs := 20

end MlConfig

/-! ### Edges -/

/-- The key of an unordered pair. -/
def pairKey (a b : AccountId) : AccountId × AccountId := if a ≤ b then (a, b) else (b, a)

/-- `*edges.entry(key).or_insert(0.0) += 1.0`, for each of the keys. -/
def weigh (keys : List (AccountId × AccountId)) : HashMap (AccountId × AccountId) Float :=
  gather 0.0 (fun weight _ => weight + 1.0) (keys.map (fun key => (key, ())))

/-- Every unordered pair within a set of distinct sources. -/
def clique (srcs : List AccountId) : List (AccountId × AccountId) :=
  (orderedPairs srcs).map (fun pair => pairKey pair.1 pair.2)

/-! ### Features -/

/-- Everything needed to build a feature vector for any owned pair. -/
structure Features where
  feePayers : HashMap AccountId (BTreeSet AccountId)
  dests : HashMap AccountId (BTreeSet AccountId)
  span : HashMap AccountId (Int × Int)
  coburst : HashMap (AccountId × AccountId) Float
  windowedCopay : HashMap (AccountId × AccountId) Float
  fundingHop : HashMap (AccountId × AccountId) Float
  activation : HashMap (AccountId × AccountId) Float
  peel : HashMap (AccountId × AccountId) Float

namespace Features

/-- The first and the last time each source signs. -/
def spanOf (records : List TxRecord) : HashMap AccountId (Int × Int) :=
  records.foldl (fun span r =>
    update span r.source (r.ts, r.ts) (fun e => (min e.1 r.ts, max e.2 r.ts))) ∅

/-- (3) The sources of each burst. -/
def coburstPairs (bursts : List (List TxRecord)) : List (AccountId × AccountId) :=
  bursts.flatMap (fun group => clique (sourcesOf group))

/-- (4) The sources that share a window and a destination. -/
def windowedCopayPairs (order : HashOrder) (windows : List (List TxRecord)) :
    List (AccountId × AccountId) :=
  windows.zipIdx.flatMap (fun group =>
    (order.iterate [11, 0, group.2]
      (collectSets (group.1.map (fun r => (r.dest, r.source))))).flatMap
        (fun bucket => clique bucket.2.keys))

/-- (5) The sources behind the fee payers of each funder. -/
def fundingHopPairs (order : HashOrder) (records : List TxRecord) : List (AccountId × AccountId) :=
  (order.iterate [11, 1] (fundingEdges records)).flatMap (fun entry =>
    clique (reachedSources (feePayerSources records) entry.2))

/-- (6) Value enters an account that first signs within the window after it. -/
def activationPairs (records : List TxRecord) (cfg : MlConfig) : List (AccountId × AccountId) :=
  (records.filter (activates records cfg.activationWindowSecs)).map
    (fun r => pairKey r.source r.dest)

/-- (7) Nearly the value of a record leaves its destination shortly after. -/
def peelPairs (records : List TxRecord) (cfg : MlConfig) :
    Option (List (AccountId × AccountId)) := do
  let txs := valueTransfers records
  let linked ← txs.mapM (fun r => do
    let found ← peels txs cfg.temporalWindowSecs cfg.amountToleranceBps r
    pure ((found.filter (fun b => r.source ≠ b.dest)).map (fun b => pairKey r.source b.dest)))
  pure linked.flatten

/-- `none` is a panic. -/
def build (order : HashOrder) (ledger : Ledger) (cfg : MlConfig) : Option Features := do
  let recs := ledger.records
  let bursts ← burstGroups recs
  let peeled ← peelPairs recs cfg
  pure
    { feePayers := collectSets (recs.map (fun r => (r.source, r.feePayer)))
      dests := collectSets (recs.map (fun r => (r.source, r.dest)))
      span := spanOf recs
      coburst := weigh (coburstPairs bursts)
      windowedCopay := weigh (windowedCopayPairs order (windowGroups recs cfg.windowSecs))
      fundingHop := weigh (fundingHopPairs order recs)
      activation := weigh (activationPairs recs cfg)
      peel := weigh peeled }

/-- How much two sets overlap. -/
def jaccard (a b : BTreeSet AccountId) : Float :=
  if a.keys = [] && b.keys = [] then 0.0
  else
    let inter := F64.ofU64 (a.keys.filter (fun account => account ∈ b.keys)).length
    let uni := F64.ofU64 (a.keys.length + b.keys.length) - inter
    if uni == 0.0 then 0.0 else inter / uni

/-- The features of a pair, in the order of their names; `none` is an overflow panic. -/
def vector [Libm] (features : Features) (a b : AccountId) : Option (List Float) := do
  let fpa := (features.feePayers.lookup a).getD BTreeMap.empty
  let fpb := (features.feePayers.lookup b).getD BTreeMap.empty
  let da := (features.dests.lookup a).getD BTreeMap.empty
  let db := (features.dests.lookup b).getD BTreeMap.empty
  let edge := fun (m : HashMap (AccountId × AccountId) Float) => (m.lookup (pairKey a b)).getD 0.0
  let ln1p := fun (x : Float) => Libm.ln (1.0 + x)
  let spanA := (features.span.lookup a).getD (0, 0)
  let spanB := (features.span.lookup b).getD (0, 0)
  let shared ← checkedI64 (min spanA.2 spanB.2 - max spanA.1 spanB.1)
  let whole ← checkedI64 (max spanA.2 spanB.2 - min spanA.1 spanB.1)
  let spanOverlap := F64.ofI64 (max shared 0) / F64.ofI64 (max whole 1)
  pure [jaccard fpa fpb, jaccard da db, ln1p (edge features.coburst),
    ln1p (edge features.windowedCopay), ln1p (edge features.fundingHop),
    ln1p (edge features.activation), ln1p (edge features.peel), spanOverlap]

end Features

end AccountCooker
