/-
This file shows that the reports of both adversaries can be reproduced: they do
not depend on the orders in which the hash maps are iterated, which differ from
one process to the next.

Clusters and features were shown to ignore the orders together with what an
observer cannot see. What is left is the scoring. Its counts add up integers, a
sum in any order; the one sum of doubles is the fragmentation, whose terms are
numbers of clusters, so that it is exact while there are fewer than `2 ^ 53`
owned accounts.
-/

import Mathlib
import AccountCooker.Blindness
import AccountCooker.Doubles
import AccountCooker.Learning

namespace AccountCooker

open Collections

/-! ### Permuted entries -/

/-- A computation on every item of a list fails, or not, in whatever order the items come. -/
theorem mapM_perm {Item Result : Type} (compute : Item → Option Result) {items others : List Item}
    (perm : items.Perm others) :
    Option.Rel List.Perm (items.mapM compute) (others.mapM compute) := by
  induction perm with
  | nil => exact .some (.refl _)
  | @cons item items others _ inductionHypothesis =>
    rw [List.mapM_cons, List.mapM_cons]
    cases compute item with
    | none => exact .none
    | some result =>
      generalize items.mapM compute = one at inductionHypothesis ⊢
      generalize others.mapM compute = two at inductionHypothesis ⊢
      cases inductionHypothesis with
      | none => exact .none
      | some perm => exact .some (perm.cons result)
  | swap first second rest =>
    simp only [List.mapM_cons]
    cases compute first with
    | none =>
      cases compute second with
      | none => exact .none
      | some _ => exact .none
    | some one =>
      cases compute second with
      | none => exact .none
      | some two =>
        cases rest.mapM compute with
        | none => exact .none
        | some results => exact .some (.swap one two results)
  | @trans items middle others _ _ before after =>
    generalize items.mapM compute = one at before ⊢
    generalize middle.mapM compute = two at before after
    generalize others.mapM compute = three at after ⊢
    cases before with
    | none =>
      cases after with
      | none => exact .none
    | some perm =>
      cases after with
      | some also => exact .some (perm.trans also)

theorem sumU64_perm {items others : List Nat} (perm : items.Perm others) :
    sumU64 items = sumU64 others :=
  Option.ext (fun total => by rw [sumU64_eq_some, sumU64_eq_some, perm.sum_eq])

/-- Maps that answer alike are iterated over the same entries. -/
theorem iterate_perm_of_lookup {Key Value : Type} [DecidableEq Key]
    (order other : HashOrder) (label : List Nat) {map copy : HashMap Key Value}
    (same : ∀ key, map.lookup key = copy.lookup key) :
    (order.iterate label map).Perm (other.iterate label copy) := by
  have distinct (order : HashOrder) (map : HashMap Key Value) :
      (order.iterate label map).Nodup := by
    refine (order.arrange_perm label _).nodup_iff.mpr (List.Nodup.of_map Prod.fst ?_)
    rw [List.map_map]
    exact map.nodupKeys
  refine (List.perm_ext_iff_of_nodup (distinct order map) (distinct other copy)).mpr
    (fun ⟨key, value⟩ => ?_)
  rw [order.mem_iterate, other.mem_iterate, same]

/-! ### Counts -/

theorem lookup_tally_perm {Key : Type} [DecidableEq Key] {keys others : List Key}
    (perm : keys.Perm others) (key : Key) :
    (tally keys).lookup key = (tally others).lookup key := by
  rw [lookup_tally_eq, lookup_tally_eq, perm.count_eq]

/-- What a tally of the same keys adds up to, if it does not overflow. -/
theorem pairTotal_perm {Key : Type} [DecidableEq Key] (order other : HashOrder)
    (label : List Nat) {keys others : List Key} (perm : keys.Perm others) :
    pairTotal order label (tally keys) = pairTotal other label (tally others) := by
  have counted := mapM_perm (fun entry : Key × Nat => c2 entry.2)
    (iterate_perm_of_lookup order other label (lookup_tally_perm perm))
  unfold pairTotal
  generalize (order.iterate label (tally keys)).mapM (fun entry => c2 entry.2) = one
    at counted ⊢
  generalize (other.iterate label (tally others)).mapM (fun entry => c2 entry.2) = two
    at counted ⊢
  cases counted with
  | none => rfl
  | some perm => exact sumU64_perm perm

theorem confusion_perm (order other : HashOrder) {owners others : List (AccountId × AgentId)}
    (perm : owners.Perm others) (clusterOf : HashMap AccountId Nat) :
    confusion order owners clusterOf = confusion other others clusterOf := by
  unfold confusion
  dsimp only
  rw [pairTotal_perm order other _ (perm.map _), pairTotal_perm order other _ (perm.map _),
    pairTotal_perm order other _ (perm.map _)]

theorem purity_order (order other : HashOrder) (label : List Nat)
    (groups : List (List TxRecord)) : purity order label groups = purity other label groups := by
  have step : purityStep order label = purityStep other label := by
    funext counted group
    unfold purityStep
    dsimp only
    rw [pairTotal_perm order other _ (List.Perm.refl _)]
  unfold purity
  rw [step]

/-! ### Fragmentation -/

/-- A set is told by its members. -/
theorem BTreeMap.set_ext {Key : Type} [LinearOrder Key] {first second : BTreeSet Key}
    (same : ∀ key, key ∈ first.keys ↔ key ∈ second.keys) : first = second := by
  have units (set : BTreeSet Key) : set.entries = set.keys.map (fun key => (key, ())) := by
    unfold BTreeMap.keys
    rw [List.map_map]
    exact (List.map_id _).symm
  have equal : first.entries = second.entries := by
    rw [units first, units second, BTreeMap.keys_ext same]
  obtain ⟨entries, _⟩ := first
  obtain ⟨others, _⟩ := second
  obtain rfl : entries = others := equal
  rfl

/-- The sets that are collected do not depend on the order of the items. -/
theorem lookup_collectSets_perm {Key Item : Type} [DecidableEq Key] [LinearOrder Item]
    {pairs others : List (Key × Item)} (perm : pairs.Perm others) (key : Key) :
    (collectSets pairs).lookup key = (collectSets others).lookup key := by
  have known := (collectSets_isSome pairs key).trans
    ((perm.map Prod.fst).mem_iff.trans (collectSets_isSome others key).symm)
  cases found : (collectSets pairs).lookup key with
  | none =>
    rw [found] at known
    exact (Option.not_isSome_iff_eq_none.mp (fun some => absurd (known.mpr some) (by simp))).symm
  | some items =>
    rw [found] at known
    obtain ⟨also, alsoFound⟩ := Option.isSome_iff_exists.mp (known.mp rfl)
    rw [alsoFound]
    refine congrArg some (BTreeMap.set_ext (fun item => ?_))
    rw [mem_collectSets found, mem_collectSets alsoFound, perm.mem_iff]

/-- The collected sets have together at most as many members as there were items. -/
theorem sum_collectSets_le {Key Item : Type} [DecidableEq Key] [LinearOrder Item]
    (order : HashOrder) (label : List Nat) (pairs : List (Key × Item)) :
    ((order.iterate label (collectSets pairs)).map (fun entry => entry.2.keys.length)).sum ≤
      pairs.length := by
  have fewer (entry : Key × BTreeSet Item)
      (member : entry ∈ order.iterate label (collectSets pairs)) :
      entry.2.keys.length ≤ (pairs.map Prod.fst).count entry.1 := by
    rw [order.mem_iterate] at member
    have inside : entry.2.keys ⊆ (pairs.filter (fun pair => pair.1 = entry.1)).map Prod.snd :=
      fun item holds => List.mem_map.mpr ⟨(entry.1, item), List.mem_filter.mpr
        ⟨(mem_collectSets member item).mp holds, decide_eq_true rfl⟩, rfl⟩
    have below := (List.subperm_of_subset entry.2.keys_nodup inside).length_le
    rw [List.length_map, ← List.countP_eq_length_filter] at below
    rw [List.count_eq_countP, List.countP_map]
    exact below
  have counted : ((order.iterate label (collectSets pairs)).map
      (fun entry => (pairs.map Prod.fst).count entry.1)).sum =
        ∑ key ∈ (pairs.map Prod.fst).toFinset, (pairs.map Prod.fst).count key := by
    refine order.sum_iterate label _ (fun key items found => ?_) (fun key occurs absent => ?_)
    · have known := (collectSets_isSome pairs key).mp (Option.isSome_iff_exists.mpr ⟨_, found⟩)
      exact ⟨List.mem_toFinset.mpr known, rfl⟩
    · have known := (collectSets_isSome pairs key).mpr (List.mem_toFinset.mp occurs)
      rw [absent] at known
      exact absurd known (by simp)
  calc _ ≤ ((order.iterate label (collectSets pairs)).map
        (fun entry => (pairs.map Prod.fst).count entry.1)).sum := List.sum_le_sum fewer
    _ = (pairs.map Prod.fst).length := by rw [counted, List.sum_toFinset_count_eq_length]
    _ = pairs.length := List.length_map _

/-- Sums of few enough machine words are exact. -/
theorem sumF64_ofU64 {values : List Nat} (small : values.sum < 2 ^ 53) :
    sumF64 (values.map F64.ofU64) = F64.ofU64 values.sum := by
  have fromZero : 0 + values.sum < 2 ^ 53 := by rwa [Nat.zero_add]
  have exact := Doubles.foldl_ofNat fromZero
  rwa [Nat.zero_add] at exact

/-- The sizes of collected sets are added without rounding. -/
theorem sumF64_collectSets {Key Item : Type} [DecidableEq Key] [LinearOrder Item]
    (order : HashOrder) (label : List Nat) {pairs : List (Key × Item)}
    (small : pairs.length < 2 ^ 53) :
    sumF64 ((order.iterate label (collectSets pairs)).map
        (fun entry => F64.ofU64 entry.2.keys.length)) =
      F64.ofU64 ((order.iterate label (collectSets pairs)).map
        (fun entry => entry.2.keys.length)).sum := by
  rw [← sumF64_ofU64 ((sum_collectSets_le order label pairs).trans_lt small), List.map_map]
  rfl

theorem fragmentationOf_perm (order other : HashOrder) {owners others : List (AccountId × AgentId)}
    (perm : owners.Perm others) (few : owners.length < 2 ^ 53)
    (clusterOf : HashMap AccountId Nat) :
    fragmentationOf order owners clusterOf = fragmentationOf other others clusterOf := by
  have pairs := perm.filterMap
    (fun owner => (clusterOf.lookup owner.1).map (fun c => (owner.2, c)))
  have fewPairs := (List.length_filterMap_le
    (fun owner => (clusterOf.lookup owner.1).map (fun c => (owner.2, c))) owners).trans_lt few
  unfold fragmentationOf
  dsimp only
  generalize owners.filterMap _ = one at pairs fewPairs ⊢
  generalize others.filterMap _ = two at pairs ⊢
  have entries := iterate_perm_of_lookup order other [8, 4] (lookup_collectSets_perm pairs)
  have lengths := entries.length_eq
  rw [(order.iterate_perm _ _).length_eq, (other.iterate_perm _ _).length_eq, List.length_map,
    List.length_map] at lengths
  have empty : (collectSets one).entries.isEmpty = (collectSets two).entries.isEmpty := by
    rw [Bool.eq_iff_iff, List.isEmpty_iff_length_eq_zero, List.isEmpty_iff_length_eq_zero, lengths]
  rw [empty, lengths, sumF64_collectSets order [8, 4] fewPairs,
    sumF64_collectSets other [8, 4] (pairs.length_eq ▸ fewPairs),
    (entries.map (fun entry => entry.2.keys.length)).sum_eq]

/-! ### Reports -/

theorem largestShare_perm (order other : HashOrder) {owners others : List (AccountId × AgentId)}
    (perm : owners.Perm others) (clusterOf : HashMap AccountId Nat) :
    largestShare order owners clusterOf = largestShare other others clusterOf := by
  have clusters := perm.filterMap (fun owner => clusterOf.lookup owner.1)
  have entries := iterate_perm_of_lookup order other [8, 5] (lookup_tally_perm clusters)
  unfold largestShare
  dsimp only
  rw [perm.isEmpty_eq, perm.length_eq, (entries.map (fun entry => entry.2)).foldl_eq]

/-- A ledger is scored alike whatever the orders, but for the rounding of huge sums. -/
theorem evaluate_order (order other : HashOrder) (ledger : Ledger) (clustering : Clustering)
    (windowSecs : Int) (few : ledger.ownership.keys.length < 2 ^ 53) :
    evaluate order ledger clustering windowSecs = evaluate other ledger clustering windowSecs := by
  have owners := iterate_perm_iterate order other [8, 0] ledger.ownership
  have fewOwners : (order.iterate [8, 0] ledger.ownership).length < 2 ^ 53 := by
    rw [(order.iterate_perm _ _).length_eq, List.length_map]
    unfold AList.keys List.keys at few
    rwa [List.length_map] at few
  have sizes : (anonymitySizes order ledger.records).Perm (anonymitySizes other ledger.records) :=
    (iterate_perm_iterate order other [8, 6] _).filterMap _
  unfold evaluate
  dsimp only
  rw [confusion_perm order other owners]
  simp only [purity_order order other [8, 7], purity_order order other [8, 8],
    fragmentationOf_perm order other owners fewOwners, largestShare_perm order other owners,
    owners.length_eq, sizes.isEmpty_eq, sizes.sum_eq, sizes.length_eq]

theorem analyze_order (order other : HashOrder) (ledger : Ledger) (cfg : AdversaryConfig)
    (few : ledger.ownership.keys.length < 2 ^ 53) :
    analyze order ledger cfg = analyze other ledger cfg := by
  have clusters : cluster order ledger cfg = cluster other ledger cfg :=
    (cluster_observed order order ledger cfg).symm.trans (cluster_observed order other ledger cfg)
  unfold analyze
  simp only [clusters, evaluate_order order other ledger _ _ few]

/-! ### Features -/

/-- The owned pairs come with the same features whatever the orders. -/
theorem ownedPairs_order [Libm] (order other : HashOrder) (ledger : Ledger) (cfg : MlConfig) :
    ownedPairs order ledger cfg = ownedPairs other ledger cfg := by
  have pairs {features others : Features} (alike : Features.Alike features others) :
      pairOf ledger (foldsUsed ledger cfg) features =
        pairOf ledger (foldsUsed ledger cfg) others := by
    funext accounts
    unfold pairOf
    simp only [alike.vector]
  -- Both lists of features are like those of the ledger an observer sees.
  have observed (order : HashOrder) :=
    Features.build_observed .asWritten order ledger cfg
  have one := observed order
  have two := observed other
  unfold ownedPairs
  generalize Features.build .asWritten ⟨ledger.records.map TxRecord.observed⟩ cfg = seen at one two
  generalize Features.build order ledger cfg = built at one ⊢
  generalize Features.build other ledger cfg = rebuilt at two ⊢
  cases one with
  | none =>
    cases two with
    | none => rfl
  | some first =>
    cases two with
    | some second =>
      show List.mapM _ _ = List.mapM _ _
      rw [← pairs first, ← pairs second]

/-- The clusters and the reports of both adversaries do not depend on the orders in which the
hash maps are iterated: two analyses of one ledger agree, also on whether they panic. -/
theorem reports_reproducible [Libm] (ledger : Ledger)
    (few : ledger.ownership.keys.length < 2 ^ 53) (order other : HashOrder) :
    (∀ cfg : AdversaryConfig, analyze order ledger cfg = analyze other ledger cfg) ∧
      ∀ cfg : MlConfig, mlAttribution order ledger cfg = mlAttribution other ledger cfg := by
  refine ⟨fun cfg => analyze_order order other ledger cfg few, fun cfg => ?_⟩
  unfold mlAttribution
  simp only [ownedPairs_order order other ledger cfg, evaluate_order order other ledger _ _ few]

/-- The entries from the last one written to the first. -/
def backwards : HashOrder where
  positions _ count := (List.range count).reverse
  positions_perm _ count := (List.range count).reverse_perm

theorem reports_reproducible_backwards :
    HashOrder.asWritten.iterate [8, 0] labelledLedger.ownership ≠
        backwards.iterate [8, 0] labelledLedger.ownership ∧
      (analyze .asWritten labelledLedger .exactTs).map (fun scored => scored.2.ownedAccounts) =
        some 3 ∧
      analyze .asWritten labelledLedger .exactTs = analyze backwards labelledLedger .exactTs ∧
      mlAttribution .asWritten labelledLedger .standard =
        mlAttribution backwards labelledLedger .standard := by
  obtain ⟨scored, learned⟩ := reports_reproducible labelledLedger (by decide) .asWritten backwards
  exact ⟨by decide, by decide +kernel, scored .exactTs, learned .standard⟩

end AccountCooker
