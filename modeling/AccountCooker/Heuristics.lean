/-
This file models the adversary's clustering: the groupings of a ledger by time,
the edges each heuristic draws between accounts, and the clusters that joining
all of them leaves.

The heuristics never look at the structure they join accounts in. Each is
modelled as the list of the unions it asks for, in the order it asks; `cluster`
carries them all out. A group of records is the list of the records themselves
where the source has their indices. A hash map is iterated in the order a
`HashOrder` gives, whose label starts with the number of the heuristic.
-/

import Mathlib
import AccountCooker.Machine
import AccountCooker.Ledger
import AccountCooker.UnionFind

namespace AccountCooker

open Collections

/-! ### Configuration -/

structure AdversaryConfig where
  useFeePayer : Bool
  useCospend : Bool
  useTemporalAmount : Bool
  temporalWindowSecs : Int
  amountToleranceBps : Nat
  useActivationLineage : Bool
  activationWindowSecs : Int
  useBurstCopay : Bool
  copayMinSources : Nat
  copayMinSharedBuckets : Nat
  useBurstCoactivity : Bool
  coactivityMinSharedBursts : Nat
  burstMaxSources : Nat
  copayMinAmount : Nat
  useBurstUnionCeiling : Bool
  useWindowed : Bool
  windowSecs : Int
  useFunderGraph : Bool
  funderMinFundees : Nat
  funderMaxSources : Nat

namespace AdversaryConfig

/-- Identical-timestamp grouping, with co-payment and co-activity: the default. -/
def exactTs : AdversaryConfig where
  useFeePayer := true
  useCospend := true
  useTemporalAmount := true
  temporalWindowSecs := 120
  amountToleranceBps := 50
  useActivationLineage := true
  activationWindowSecs := 2 * 86400
  useBurstCopay := true
  copayMinSources := 2
  copayMinSharedBuckets := 2
  useBurstCoactivity := true
  coactivityMinSharedBursts := 3
  burstMaxSources := 10
  copayMinAmount := 0
  useBurstUnionCeiling := false
  useWindowed := false
  windowSecs := 120
  useFunderGraph := false
  funderMinFundees := 3
  funderMaxSources := 100000

/-- Destination-local episodes, without co-activity and with a higher repetition bar. -/
def windowed (windowSecs : Int) : AdversaryConfig :=
  { exactTs with
    useWindowed := true
    windowSecs := windowSecs
    useBurstCoactivity := false
    copayMinSharedBuckets := 3 }

/-- The windowed adversary with the common-funder graph. -/
def funderAware (windowSecs : Int) : AdversaryConfig :=
  { windowed windowSecs with useFunderGraph := true }

end AdversaryConfig

/-! ### Groups of records -/

/-- The key `slot`. -/
def slotBefore (first second : TxRecord) : Prop := first.slot ≤ second.slot

instance : DecidableRel slotBefore := fun first second =>
  inferInstanceAs (Decidable (first.slot ≤ second.slot))

/-- The key `(ts, slot, sig)`. -/
def timeBefore (first second : TxRecord) : Prop :=
  first.ts < second.ts ∨ first.ts = second.ts ∧
    (first.slot < second.slot ∨ first.slot = second.slot ∧ first.sig ≤ second.sig)

instance : DecidableRel timeBefore := fun first second =>
  inferInstanceAs (Decidable (first.ts < second.ts ∨ first.ts = second.ts ∧
    (first.slot < second.slot ∨ first.slot = second.slot ∧ first.sig ≤ second.sig)))

/-- A record extends the burst of the record before it. All records of a burst have the
timestamp of its first, so that comparing neighbours is comparing with the first. -/
def sameBurst (previous next : TxRecord) : Bool :=
  next.ts = previous.ts && next.slot = previous.slot + 1

/-- `prev + 1` overflows for some neighbours in slot order: it is computed once the timestamps
are equal. -/
def burstOverflow (order : List TxRecord) : Bool :=
  (order.zip order.tail).any (fun pair => pair.2.ts = pair.1.ts && pair.1.slot = u64Max)

/-- Maximal runs of one timestamp with contiguous slots; `none` is an overflow panic. -/
def burstGroups (records : List TxRecord) : Option (List (List TxRecord)) :=
  if burstOverflow (records.insertionSort slotBefore) then none
  else some ((records.insertionSort slotBefore).splitBy sameBurst)

/-- The gap between neighbours in time is at most the window. -/
def withinWindow (windowSecs : Int) (previous next : TxRecord) : Bool :=
  saturatingI64 (next.ts - previous.ts) ≤ max windowSecs 0

/-- Chains of records, in order of time, whose gaps are at most the window. -/
def windowGroups (records : List TxRecord) (windowSecs : Int) : List (List TxRecord) :=
  (records.insertionSort timeBefore).splitBy (withinWindow windowSecs)

/-- The distinct sources of some records, in order. -/
def sourcesOf (records : List TxRecord) : List AccountId :=
  (BTreeMap.setOf (records.map (·.source))).keys

/-! ### Edge weights -/

/-- The source pairs of a bucket, if the number of its sources is within bounds. -/
def boundedPairs (low high : Nat) (sources : List AccountId) : List (AccountId × AccountId) :=
  if sources.length < low || sources.length > high then [] else orderedPairs sources

/-- The destinations of a group and the distinct sources that pay each of them. -/
def payersByDest (minAmount : Nat) (group : List TxRecord) :
    HashMap AccountId (BTreeSet AccountId) :=
  collectSets ((group.filter (fun r => minAmount ≤ r.amount)).map (fun r => (r.dest, r.source)))

-- The source counts the weights of the following edges in `u32`. Here they are natural numbers;
-- that they fit is a condition of its own where the absence of panics is at stake (`CountersFit`).

/-- Co-payment: how many (group, destination) buckets each pair of sources shares. -/
def copayEdges (order : HashOrder) (groups : List (List TxRecord)) (cfg : AdversaryConfig) :
    HashMap (AccountId × AccountId) Nat :=
  tally (groups.zipIdx.flatMap (fun group =>
    (order.iterate [4, 0, group.2] (payersByDest cfg.copayMinAmount group.1)).flatMap
      (fun bucket => boundedPairs cfg.copayMinSources cfg.burstMaxSources bucket.2.keys)))

/-- The records into each destination that is itself an active source. -/
def recordsByDest (records : List TxRecord) (cfg : AdversaryConfig) :
    HashMap AccountId (List TxRecord) :=
  let activeSources := (records.map (·.source)).toFinset
  collectLists ((records.filter
    (fun r => cfg.copayMinAmount ≤ r.amount && r.dest ∈ activeSources)).map (fun r => (r.dest, r)))

/-- Destination-local co-payment: how many episodes each pair of sources shares. -/
def windowedCopayEdges (order : HashOrder) (records : List TxRecord) (cfg : AdversaryConfig) :
    HashMap (AccountId × AccountId) Nat :=
  tally ((order.iterate [4, 1] (recordsByDest records cfg)).flatMap (fun bucket =>
    (windowGroups bucket.2 cfg.windowSecs).flatMap (fun episode =>
      boundedPairs cfg.copayMinSources cfg.burstMaxSources (sourcesOf episode))))

/-- Co-activity: how many groups each pair of sponsored sources shares. -/
def coactEdges (groups : List (List TxRecord)) (cfg : AdversaryConfig) :
    HashMap (AccountId × AccountId) Nat :=
  tally (groups.flatMap (fun group =>
    boundedPairs 2 cfg.burstMaxSources (sourcesOf (group.filter (fun r => r.feePayer ≠ r.source)))))

/-- The funding graph: who sends to an account that pays fees somewhere. -/
def fundingEdges (records : List TxRecord) : HashMap AccountId (BTreeSet AccountId) :=
  let feeSet := (records.map (·.feePayer)).toFinset
  collectSets ((records.filter (fun r => r.source ≠ r.dest && r.dest ∈ feeSet)).map
    (fun r => (r.source, r.dest)))

/-! ### The heuristics -/

/-- (1) Fee-payer linkage: the fee payer with the source, and with the first source under the
same fee payer. -/
def feePayerUnions : HashMap AccountId AccountId → List TxRecord → List (AccountId × AccountId)
  | _, [] => []
  | repByFee, r :: rest =>
    (r.feePayer, r.source) ::
      match repByFee.lookup r.feePayer with
      | some rep => (rep, r.source) :: feePayerUnions repByFee rest
      | none => feePayerUnions (repByFee.insert r.feePayer r.source) rest

/-- The distinct sources of value into each destination that is itself an active source. -/
def sourcesByDest (records : List TxRecord) : HashMap AccountId (BTreeSet AccountId) :=
  let activeSources := (records.map (·.source)).toFinset
  collectSets ((records.filter
    (fun r => 0 < r.amount && r.source ≠ r.dest && r.dest ∈ activeSources)).map
      (fun r => (r.dest, r.source)))

/-- (2) Structural consolidation: an active destination with a few distinct sources. -/
def cospendUnions (order : HashOrder) (records : List TxRecord) (cfg : AdversaryConfig) :
    List (AccountId × AccountId) :=
  (order.iterate [2] (sourcesByDest records)).flatMap (fun entry =>
    if entry.2.keys.length < 2 || entry.2.keys.length > cfg.burstMaxSources then []
    else entry.2.keys.map (fun source => (entry.1, source)))

/-- A transfer as it is indexed by its source. -/
structure Outgoing where
  ts : Int
  amount : Nat
  sig : Nat
  dest : AccountId
deriving DecidableEq

/-- The key `(ts, sig)`. -/
def outgoingBefore (first second : Outgoing) : Prop :=
  first.ts < second.ts ∨ first.ts = second.ts ∧ first.sig ≤ second.sig

instance : DecidableRel outgoingBefore := fun first second =>
  inferInstanceAs (Decidable (first.ts < second.ts ∨ first.ts = second.ts ∧
    first.sig ≤ second.sig))

/-- The transfers of value between different accounts. -/
def valueTransfers (records : List TxRecord) : List TxRecord :=
  records.filter (fun r => 0 < r.amount && r.source ≠ r.dest)

/-- The transfers of each source, in order of time. -/
def outgoingBySource (txs : List TxRecord) (source : AccountId) : Option (List Outgoing) :=
  ((collectLists (txs.map (fun b =>
    (b.source, (⟨b.ts, b.amount, b.sig, b.dest⟩ : Outgoing))))).lookup source).map
      (fun bucket => bucket.insertionSort outgoingBefore)

/-- `bucket.partition_point(test)` of a list the test partitions. -/
def partitionPoint (test : Outgoing → Bool) (bucket : List Outgoing) : Nat :=
  (bucket.takeWhile test).length

/-- `bucket[low..high]`: a start past the end panics. -/
def slice (bucket : List Outgoing) (low high : Nat) : Option (List Outgoing) :=
  if low ≤ high then some ((bucket.take high).drop low) else none

/-- The tolerance of an amount, `(amount * bps / 10_000) as u64`. -/
def tolerance (amount bps : Nat) : Nat := amount * bps / 10000 % 2 ^ 64

/-- `amount.abs_diff(other)`. -/
def absDiff (amount other : Nat) : Nat := (amount - other) + (other - amount)

/-- The later transfers of nearly the amount of `a` out of its destination. -/
def peels (txs : List TxRecord) (windowSecs : Int) (toleranceBps : Nat) (a : TxRecord) :
    Option (List Outgoing) :=
  match outgoingBySource txs a.dest with
  | none => some []
  | some bucket => do
    let low := partitionPoint (fun b => b.ts < a.ts) bucket
    let last ← checkedI64 (a.ts + windowSecs)
    let high := partitionPoint (fun b => b.ts ≤ last) bucket
    let candidates ← slice bucket low high
    pure (candidates.filter (fun b => a.sig ≠ b.sig &&
      absDiff a.amount b.amount ≤ tolerance a.amount toleranceBps))

/-- (3) Peel chains: value leaves `a.source` for an account that soon sends nearly as much on. -/
def temporalUnions (records : List TxRecord) (cfg : AdversaryConfig) :
    Option (List (AccountId × AccountId)) := do
  let txs := valueTransfers records
  let linked ← txs.mapM (fun a => do
    let found ← peels txs cfg.temporalWindowSecs cfg.amountToleranceBps a
    pure (found.map (fun b => (a.source, b.dest))))
  pure linked.flatten

/-- When each source first signs. -/
def firstSourceAt (records : List TxRecord) : HashMap AccountId Int :=
  records.foldl (fun first r =>
    first.insert r.source
      (match first.lookup r.source with
      | some ts => min ts r.ts
      | none => r.ts)) ∅

/-- The destination of a record becomes an active source within the window after it. -/
def activates (records : List TxRecord) (windowSecs : Int) (r : TxRecord) : Bool :=
  match (firstSourceAt records).lookup r.dest with
  | none => false
  | some activatedAt => 0 < r.amount && r.source ≠ r.dest && activatedAt ≥ r.ts &&
    saturatingI64 (activatedAt - r.ts) ≤ max windowSecs 0

/-- (4) Activation lineage: value enters an address that soon starts signing. -/
def activationUnions (records : List TxRecord) (cfg : AdversaryConfig) :
    List (AccountId × AccountId) :=
  (records.filter (activates records cfg.activationWindowSecs)).map (fun r => (r.source, r.dest))

/-- The pairs of enough weight. -/
def heavyPairs (order : HashOrder) (label : List Nat)
    (edges : HashMap (AccountId × AccountId) Nat) (threshold : Nat) :
    List (AccountId × AccountId) :=
  ((order.iterate label edges).filter (fun edge => edge.2 ≥ threshold)).map Prod.fst

/-- Co-payment of a common destination. -/
def copayUnions (order : HashOrder) (groups : List (List TxRecord)) (records : List TxRecord)
    (cfg : AdversaryConfig) : List (AccountId × AccountId) :=
  heavyPairs order [4, 2]
    (if cfg.useWindowed then windowedCopayEdges order records cfg else copayEdges order groups cfg)
    cfg.copayMinSharedBuckets

/-- (5) Co-activity in the bursts of exact timestamps. -/
def coactUnions (order : HashOrder) (bursts : List (List TxRecord)) (cfg : AdversaryConfig) :
    List (AccountId × AccountId) :=
  heavyPairs order [5] (coactEdges bursts cfg) cfg.coactivityMinSharedBursts

/-- The sources each fee payer pays for, other than itself. -/
def feePayerSources (records : List TxRecord) : HashMap AccountId (BTreeSet AccountId) :=
  collectSets ((records.filter (fun r => r.feePayer ≠ r.source)).map
    (fun r => (r.feePayer, r.source)))

/-- The sources that are reached through some fee payers. -/
def reachedSources (fpSources : HashMap AccountId (BTreeSet AccountId))
    (fps : BTreeSet AccountId) : List AccountId :=
  (BTreeMap.setOf (fps.keys.flatMap (fun fp =>
    match fpSources.lookup fp with
    | some sources => sources.keys
    | none => []))).keys

/-- (7) Common-funder graph: the sources behind the fee payers of one funder, and the funder. -/
def funderUnions (order : HashOrder) (records : List TxRecord) (cfg : AdversaryConfig) :
    List (AccountId × AccountId) :=
  (order.iterate [7] (fundingEdges records)).flatMap (fun entry =>
    if entry.2.keys.length < cfg.funderMinFundees then []
    else
      let srcs := reachedSources (feePayerSources records) entry.2
      if srcs.length < 2 || srcs.length > cfg.funderMaxSources then []
      else srcs.map (fun source => (entry.1, source)))

/-- Every source of a list with its first. -/
def star : List AccountId → List (AccountId × AccountId)
  | [] => []
  | first :: rest => rest.map (fun other => (first, other))

/-- (6) Ablation only: every source of a group, with no repetition threshold. -/
def ceilingUnions (groups : List (List TxRecord)) (cfg : AdversaryConfig) :
    List (AccountId × AccountId) :=
  groups.flatMap (fun group =>
    let v := sourcesOf group
    if v.length < 2 || v.length > cfg.burstMaxSources then [] else star v)

/-- What an enabled heuristic contributes. -/
def enabled (flag : Bool) (pairs : List (AccountId × AccountId)) : List (AccountId × AccountId) :=
  if flag then pairs else []

/-- All unions the enabled heuristics ask for; `none` is a panic of one of them. -/
def requestedUnions (order : HashOrder) (records : List TxRecord) (cfg : AdversaryConfig) :
    Option (List (AccountId × AccountId)) := do
  let temporal ← (if cfg.useTemporalAmount then temporalUnions records cfg else some [])
  let groups ← (if cfg.useWindowed then some (windowGroups records cfg.windowSecs)
    else burstGroups records)
  let bursts ← (if cfg.useBurstCoactivity && cfg.useWindowed then burstGroups records
    else some groups)
  pure (enabled cfg.useFeePayer (feePayerUnions ∅ records) ++
    enabled cfg.useCospend (cospendUnions order records cfg) ++
    temporal ++
    enabled cfg.useActivationLineage (activationUnions records cfg) ++
    enabled cfg.useBurstCopay (copayUnions order groups records cfg) ++
    enabled cfg.useBurstCoactivity (coactUnions order bursts cfg) ++
    enabled cfg.useFunderGraph (funderUnions order records cfg) ++
    enabled cfg.useBurstUnionCeiling (ceilingUnions groups cfg))

/-! ### Clusters -/

/-- The adversary's predicted clustering. -/
structure Clustering where
  clusterOf : HashMap AccountId Nat
  sizes : List Nat

/-- The clusters materialized so far. -/
structure Materialized where
  uf : UnionFind AccountId
  rootToIdx : HashMap AccountId Nat
  clustering : Clustering

/-- Give an account the index of its root, or the next index to a new root. -/
def materializeStep (state : Materialized) (account : AccountId) : Option Materialized := do
  let (root, uf) ← state.uf.find account
  let sizes := state.clustering.sizes
  match state.rootToIdx.lookup root with
  | some idx => do
    let size ← sizes[idx]?
    pure ⟨uf, state.rootToIdx,
      ⟨state.clustering.clusterOf.insert account idx, sizes.set idx (size + 1)⟩⟩
  | none =>
    pure ⟨uf, state.rootToIdx.insert root sizes.length,
      ⟨state.clustering.clusterOf.insert account sizes.length, sizes ++ [1]⟩⟩

/-- Number the classes of the accounts in the order of their first account. -/
def materialize (uf : UnionFind AccountId) (accounts : List AccountId) : Option Clustering := do
  let state ← accounts.foldlM materializeStep ⟨uf, ∅, ⟨∅, []⟩⟩
  pure state.clustering

/-- Cluster the accounts of a ledger. -/
def cluster (order : HashOrder) (ledger : Ledger) (cfg : AdversaryConfig) : Option Clustering := do
  let pairs ← requestedUnions order ledger.records cfg
  let uf ← UnionFind.unionAll (UnionFind.new ledger.accounts.keys) pairs
  materialize uf ledger.accounts.keys

end AccountCooker
