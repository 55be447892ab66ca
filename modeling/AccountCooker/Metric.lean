/-
This file models the scoring of a clustering against the ground truth: the one
place that may read the operator of a record. Precision and recall are counted
through contingency tables, one entry per operator and cluster.

What the tables count are pairs. `agreeingPairs` counts the pairs of items that
share a key; the total of a table of tallies is that number, in whatever order
the table is iterated.
-/

import Mathlib
import AccountCooker.Heuristics
import AccountCooker.Noise

namespace AccountCooker

open Collections

/-! ### Counting pairs -/

/-- The number of unordered pairs of `k` items; the product may overflow. -/
def c2 (k : Nat) : Option Nat := do
  let product ← checkedU64 (k * (k - 1))
  pure (product / 2)

/-- The sum of `c2` over the values of a table. -/
def pairTotal {Key : Type} (order : HashOrder) (label : List Nat) (table : HashMap Key Nat) :
    Option Nat := do
  let pairs ← (order.iterate label table).mapM (fun entry => c2 entry.2)
  sumU64 pairs

/-- The number of pairs of positions of a list that hold the same key. -/
def agreeingPairs {Key : Type} [DecidableEq Key] : List Key → Nat
  | [] => 0
  | key :: rest => rest.count key + agreeingPairs rest

/-- Grouping by key and counting pairs in each group counts the pairs that agree. -/
theorem sum_choose_count {Key : Type} [DecidableEq Key] (keys : List Key) (support : Finset Key)
    (covers : keys.toFinset ⊆ support) :
    ∑ key ∈ support, (keys.count key).choose 2 = agreeingPairs keys := by
  induction keys with
  | nil => simp [agreeingPairs]
  | cons first rest inductionHypothesis =>
    rw [List.toFinset_cons, Finset.insert_subset_iff] at covers
    have grown (key : Key) : ((first :: rest).count key).choose 2 =
        (rest.count key).choose 2 + if key = first then rest.count first else 0 := by
      by_cases here : key = first
      · subst here
        rw [List.count_cons_self, Nat.choose_succ_succ, Nat.choose_one_right, if_pos rfl,
          Nat.add_comm]
      · rw [List.count_cons_of_ne (Ne.symm here), if_neg here, Nat.add_zero]
    simp only [grown]
    rw [Finset.sum_add_distrib, inductionHypothesis covers.2, Finset.sum_ite_eq', if_pos covers.1,
      Nat.add_comm]
    rfl

theorem c2_eq_some {k pairs : Nat} (counted : c2 k = some pairs) : pairs = k.choose 2 := by
  simp only [c2, Option.bind_eq_bind, Option.bind_eq_some_iff] at counted
  obtain ⟨product, multiplied, equal⟩ := counted
  rw [Nat.choose_two_right, (checkedU64_eq_some.mp multiplied).2]
  exact (Option.some.inj equal).symm

theorem mapM_eq_map {Item Result : Type} {items : List Item} {compute : Item → Option Result}
    {value : Item → Result} {results : List Result}
    (each : ∀ item result, compute item = some result → result = value item)
    (computed : items.mapM compute = some results) : results = items.map value := by
  induction items generalizing results with
  | nil => exact (Option.some.inj computed).symm
  | cons item rest inductionHypothesis =>
    rw [List.mapM_cons] at computed
    simp only [Option.bind_eq_bind, Option.bind_eq_some_iff] at computed
    obtain ⟨result, here, later, there, equal⟩ := computed
    rw [← Option.some.inj equal, each item result here, inductionHypothesis there]
    rfl

/-- The entries of a tally are the distinct keys with their counts. -/
theorem iterate_tally_perm {Key : Type} [DecidableEq Key] (order : HashOrder) (label : List Nat)
    (keys : List Key) : (order.iterate label (tally keys)).Perm
      (keys.dedup.map (fun key => (key, keys.count key))) := by
  have distinct : (order.iterate label (tally keys)).Nodup := by
    refine (order.arrange_perm label _).nodup_iff.mpr (List.Nodup.of_map Prod.fst ?_)
    rw [List.map_map]
    exact (tally keys).nodupKeys
  have dedup : (keys.dedup.map (fun key => (key, keys.count key))).Nodup :=
    keys.nodup_dedup.map (fun _ _ equal => (Prod.mk.inj equal).1)
  refine (List.perm_ext_iff_of_nodup distinct dedup).mpr (fun ⟨key, count⟩ => ?_)
  rw [order.mem_iterate, lookup_tally, List.mem_map]
  constructor
  · rintro ⟨rfl, positive⟩
    exact ⟨key, List.mem_dedup.mpr (List.count_pos_iff.mp positive), rfl⟩
  · rintro ⟨other, member, equal⟩
    obtain ⟨rfl, rfl⟩ := Prod.mk.inj equal
    exact ⟨rfl, List.count_pos_iff.mpr (List.mem_dedup.mp member)⟩

/-- The total of a tally is the number of pairs that agree. -/
theorem pairTotal_tally {Key : Type} [DecidableEq Key] {order : HashOrder} {label : List Nat}
    {keys : List Key} {total : Nat} (totalled : pairTotal order label (tally keys) = some total) :
    total = agreeingPairs keys := by
  simp only [pairTotal, Option.bind_eq_bind, Option.bind_eq_some_iff] at totalled
  obtain ⟨pairs, counted, summed⟩ := totalled
  have each : pairs = (order.iterate label (tally keys)).map (fun entry => entry.2.choose 2) :=
    mapM_eq_map (fun _ _ => c2_eq_some) counted
  rw [← (sumU64_eq_some.mp summed).2, each, ((iterate_tally_perm order label keys).map _).sum_eq,
    List.map_map, ← sum_choose_count keys keys.toFinset (Finset.Subset.refl _)]
  rfl

/-- Keys that agree on the same items agree on as many pairs. -/
theorem agreeingPairs_congr {Item Key Other : Type} [DecidableEq Key] [DecidableEq Other]
    {items : List Item} {key : Item → Key} {other : Item → Other}
    (same : ∀ first ∈ items, ∀ second ∈ items,
      key first = key second ↔ other first = other second) :
    agreeingPairs (items.map key) = agreeingPairs (items.map other) := by
  induction items with
  | nil => rfl
  | cons item rest inductionHypothesis =>
    have later := inductionHypothesis (fun first one second two =>
      same first (List.mem_cons_of_mem _ one) second (List.mem_cons_of_mem _ two))
    have here : (rest.map key).count (key item) = (rest.map other).count (other item) := by
      rw [List.count_eq_countP, List.count_eq_countP, List.countP_map, List.countP_map]
      refine List.countP_congr (fun second member => ?_)
      simp only [Function.comp_apply, beq_iff_eq]
      exact same second (List.mem_cons_of_mem _ member) item List.mem_cons_self
    show (rest.map key).count (key item) + _ = _
    rw [here, later]
    rfl

/-- Two items with one key are a pair that agrees. -/
theorem agreeingPairs_pos {Item Key : Type} [DecidableEq Key] {items : List Item}
    {key : Item → Key} {first second : Item} (one : first ∈ items) (other : second ∈ items)
    (different : first ≠ second) (equal : key first = key second) :
    0 < agreeingPairs (items.map key) := by
  induction items with
  | nil => exact absurd one List.not_mem_nil
  | cons item rest inductionHypothesis =>
    show 0 < (rest.map key).count (key item) + agreeingPairs (rest.map key)
    have counted {partner : Item} (member : partner ∈ rest) (agrees : key partner = key item) :
        0 < (rest.map key).count (key item) :=
      List.count_pos_iff.mpr (List.mem_map.mpr ⟨partner, member, agrees⟩)
    rcases List.mem_cons.mp one with rfl | oneLater
    · rcases List.mem_cons.mp other with rfl | otherLater
      · exact absurd rfl different
      · exact Nat.add_pos_left (counted otherLater equal.symm) _
    · rcases List.mem_cons.mp other with rfl | otherLater
      · exact Nat.add_pos_left (counted oneLater equal) _
      · exact Nat.add_pos_right _ (inductionHypothesis oneLater otherLater)

/-! ### Purity of groups -/

/-- The sources met in a group, and the operator of each at its first labelled record. -/
structure Signers where
  seen : Finset AccountId
  operators : List AgentId

/-- `if let Some(op) = r.operator { if seen.insert(r.source) { .. } }`. -/
def signersStep (state : Signers) (r : TxRecord) : Signers :=
  match r.operator with
  | some op =>
    if r.source ∈ state.seen then state
    else ⟨insert r.source state.seen, state.operators ++ [op]⟩
  | none => state

/-- The pairs of sources of a group with one operator, and all of them, on top of those counted
so far. -/
def purityStep (order : HashOrder) (label : List Nat) (counted : Nat × Nat)
    (group : List TxRecord × Nat) : Option (Nat × Nat) := do
  let operators := (group.1.foldl signersStep ⟨∅, []⟩).operators
  let pairs ← c2 operators.length
  let total ← checkedU64 (counted.2 + pairs)
  let same ← pairTotal order (label ++ [group.2]) (tally operators)
  let purePairs ← checkedU64 (counted.1 + same)
  pure (purePairs, total)

/-- The fraction of the source pairs within the groups that have one operator. -/
def purity (order : HashOrder) (label : List Nat) (groups : List (List TxRecord)) :
    Option Float := do
  let (purePairs, total) ← groups.zipIdx.foldlM (purityStep order label) (0, 0)
  pure (if 0 < total then F64.ofU64 purePairs / F64.ofU64 total else 1.0)

/-! ### The report -/

structure Report where
  numAccounts : Nat
  ownedAccounts : Nat
  numClusters : Nat
  attributionF1 : Float
  linkageRecall : Float
  fragmentation : Float
  attributionPrecision : Float
  burstPurity : Float
  largestClusterFrac : Float
  windowPurity : Float
  windowSecs : Int
  fundingRecords : Nat
  funderAnonymitySet : Float

/-- The counts of a pairwise confusion: true positives, predicted positives, and the pairs of one
operator. -/
structure Confusion where
  tp : Nat
  predPos : Nat
  sameOpPairs : Nat

/-- Count the pairs of owned accounts through the contingency tables. -/
def confusion (order : HashOrder) (owners : List (AccountId × AgentId))
    (clusterOf : HashMap AccountId Nat) : Option Confusion := do
  let cell := tally (owners.map (fun owner => (owner.2, clusterOf.lookup owner.1)))
  let perOp := tally (owners.map (fun owner => owner.2))
  let perCluster := tally (owners.map (fun owner => clusterOf.lookup owner.1))
  let tp ← pairTotal order [8, 1] cell
  let predPos ← pairTotal order [8, 2] perCluster
  let sameOpPairs ← pairTotal order [8, 3] perOp
  pure ⟨tp, predPos, sameOpPairs⟩

/-- A quotient of counts, zero over an empty whole. -/
def ratio (part whole : Nat) : Float :=
  if 0 < whole then F64.ofU64 part / F64.ofU64 whole else 0.0

/-- Distinct clusters each operator's owned accounts land in, on average. -/
def fragmentationOf (order : HashOrder) (owners : List (AccountId × AgentId))
    (clusterOf : HashMap AccountId Nat) : Float :=
  let ops := collectSets (owners.filterMap (fun owner =>
    (clusterOf.lookup owner.1).map (fun c => (owner.2, c))))
  if ops.entries.isEmpty then 1.0
  else sumF64 ((order.iterate [8, 4] ops).map (fun entry => F64.ofU64 entry.2.keys.length)) /
    F64.ofU64 ops.entries.length

/-- The largest share of owned accounts in one cluster. -/
def largestShare (order : HashOrder) (owners : List (AccountId × AgentId))
    (clusterOf : HashMap AccountId Nat) : Float :=
  let owned := tally (owners.filterMap (fun owner => clusterOf.lookup owner.1))
  if owners.isEmpty then 0.0
  else F64.ofU64 (((order.iterate [8, 5] owned).map (fun entry => entry.2)).foldl max 0) /
    F64.ofU64 owners.length

/-- The records that are self-signed and land on an account that pays fees somewhere. -/
def fundingRecordsOf (records : List TxRecord) : List TxRecord :=
  let feeSet := (records.map (·.feePayer)).toFinset
  records.filter (fun r => r.feePayer = r.source && r.source ≠ r.dest && r.dest ∈ feeSet)

/-- The operator behind each sponsoring fee payer: that of the last record it pays for. -/
def feePayerOperator (records : List TxRecord) : HashMap AccountId AgentId :=
  records.foldl (fun operators r =>
    if r.feePayer ≠ r.source then
      match r.operator with
      | some op => operators.insert r.feePayer op
      | none => operators
    else operators) ∅

/-- How many operators hide behind each funder of at least two fee payers. -/
def anonymitySizes (order : HashOrder) (records : List TxRecord) : List Nat :=
  (order.iterate [8, 6] (fundingEdges records)).filterMap (fun entry =>
    if entry.2.keys.length < 2 then none
    else
      let ops := (entry.2.keys.filterMap (fun fp => (feePayerOperator records).lookup fp)).toFinset
      if ops.card = 0 then none else some ops.card)

/-- Score a clustering against the ground truth; `none` is an overflow panic. -/
def evaluate (order : HashOrder) (ledger : Ledger) (clustering : Clustering) (windowSecs : Int) :
    Option Report := do
  let owners := order.iterate [8, 0] ledger.ownership
  let counts ← confusion order owners clustering.clusterOf
  let fp ← checkedSub counts.predPos counts.tp
  let fn ← checkedSub counts.sameOpPairs counts.tp
  let predicted ← checkedU64 (counts.tp + fp)
  let actual ← checkedU64 (counts.tp + fn)
  let precision := ratio counts.tp predicted
  let pairRecall := ratio counts.tp actual
  let attributionF1 := if 0.0 < precision + pairRecall then
    2.0 * precision * pairRecall / (precision + pairRecall) else 0.0
  let bursts ← burstGroups ledger.records
  let burstPurity ← purity order [8, 7] bursts
  let windowPurity ← purity order [8, 8] (windowGroups ledger.records windowSecs)
  let sizes := anonymitySizes order ledger.records
  pure {
    numAccounts := ledger.accounts.keys.length
    ownedAccounts := owners.length
    numClusters := clustering.sizes.length
    attributionF1 := attributionF1
    linkageRecall := ratio counts.tp counts.sameOpPairs
    fragmentation := fragmentationOf order owners clustering.clusterOf
    attributionPrecision := precision
    burstPurity := burstPurity
    largestClusterFrac := largestShare order owners clustering.clusterOf
    windowPurity := windowPurity
    windowSecs := windowSecs
    fundingRecords := (fundingRecordsOf ledger.records).length
    funderAnonymitySet := if sizes.isEmpty then 1.0
      else F64.ofU64 sizes.sum / F64.ofU64 sizes.length }

/-- Cluster a ledger and score it; `none` is a panic. -/
def analyze (order : HashOrder) (ledger : Ledger) (cfg : AdversaryConfig) :
    Option (Clustering × Report) := do
  let clustering ← cluster order ledger cfg
  let win := if cfg.useWindowed then cfg.windowSecs else 0
  let report ← evaluate order ledger clustering win
  pure (clustering, report)

/-! ### Perfect scores -/

theorem ratio_self {count : Nat} (positive : 0 < count) (bounded : count ≤ u64Max) :
    ratio count count = 1.0 := by
  unfold ratio
  rw [if_pos positive, F64.ofU64_div_self positive bounded]

/-- A clustering that separates the owned accounts exactly by operator is scored with precision
and recall one, if there is a pair to find. -/
theorem evaluate_exact {order : HashOrder} {ledger : Ledger} {clustering : Clustering}
    {windowSecs : Int} {report : Report}
    (scored : evaluate order ledger clustering windowSecs = some report)
    (exact : ∀ first second op op', ledger.ownership.lookup first = some op →
      ledger.ownership.lookup second = some op' →
        (clustering.clusterOf.lookup first = clustering.clusterOf.lookup second ↔ op = op'))
    {first second : AccountId} {op : AgentId} (different : first ≠ second)
    (one : ledger.ownership.lookup first = some op)
    (other : ledger.ownership.lookup second = some op) :
    report.attributionPrecision = 1.0 ∧ report.linkageRecall = 1.0 := by
  simp only [evaluate, confusion, Option.bind_eq_bind, Option.bind_eq_some_iff,
    Option.pure_def, Option.some_inj] at scored
  obtain ⟨counts, ⟨tp, cells, predPos, clusters, sameOpPairs, operators, rfl⟩, fp, falsePositives,
    fn, _, predicted, predictedSum, actual, _, bursts, _, burstPurity, _, windowPurity, _,
    rfl⟩ := scored
  have owned (owner : AccountId × AgentId)
      (member : owner ∈ order.iterate [8, 0] ledger.ownership) :
      ledger.ownership.lookup owner.1 = some owner.2 := (order.mem_iterate _ _ _ _).mp member
  have found := (order.mem_iterate [8, 0] ledger.ownership first op).mpr one
  have alsoFound := (order.mem_iterate [8, 0] ledger.ownership second op).mpr other
  -- Every table counts the pairs of owned accounts of one operator.
  have cellPairs : tp = sameOpPairs := by
    rw [pairTotal_tally cells, pairTotal_tally operators]
    refine agreeingPairs_congr (fun owner inOwners partner inPartners => ?_)
    rw [Prod.mk.injEq, exact _ _ _ _ (owned owner inOwners) (owned partner inPartners), and_self]
  have clusterPairs : predPos = sameOpPairs := by
    rw [pairTotal_tally clusters, pairTotal_tally operators]
    exact agreeingPairs_congr (fun owner inOwners partner inPartners =>
      exact _ _ _ _ (owned owner inOwners) (owned partner inPartners))
  have positive : 0 < sameOpPairs := by
    rw [pairTotal_tally operators]
    exact agreeingPairs_pos found alsoFound (fun equal => different (Prod.mk.inj equal).1) rfl
  have nothing : fp = 0 := by
    unfold checkedSub at falsePositives
    simp only [cellPairs, clusterPairs, le_refl, if_true, Nat.sub_self, Option.some_inj]
      at falsePositives
    exact falsePositives.symm
  obtain ⟨bounded, whole⟩ := checkedU64_eq_some.mp predictedSum
  simp only [nothing, Nat.add_zero] at bounded whole
  rw [cellPairs] at bounded whole
  simp only [← whole, cellPairs]
  exact ⟨ratio_self positive bounded, ratio_self positive bounded⟩

end AccountCooker
