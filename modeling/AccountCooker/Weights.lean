/-
This file proves that the weights the heuristics count are the numbers of
buckets the evidence speaks of: a group of the sorted records is a class of the
chains, and a pair of accounts is asked for once in every bucket it is in.
-/

import Mathlib
import AccountCooker.Evidence

namespace AccountCooker

open Collections

/-! ### Groups are classes -/

theorem cuts_burst : Cuts (fun r s : TxRecord => r.slot < s.slot) Continues sameBurst where
  neighbours r s _ linked := by
    unfold sameBurst at linked
    rw [Bool.and_eq_true, decide_eq_true_eq, decide_eq_true_eq] at linked
    exact linked
  bridged u x y v below split above close := by
    have first : u.slot ≤ x.slot := below.elim (fun equal => equal ▸ le_rfl) le_of_lt
    have last : y.slot ≤ v.slot := above.elim (fun equal => equal ▸ le_rfl) le_of_lt
    rcases close with ⟨sameTime, next⟩ | ⟨_, next⟩
    · -- Consecutive slots leave no room on either side of the cut.
      have start : u = x := below.resolve_right (fun before => by omega)
      have stop : y = v := above.resolve_right (fun after => by omega)
      subst start stop
      unfold sameBurst
      rw [decide_eq_true sameTime, decide_eq_true next]
      rfl
    · omega

theorem cuts_window (windowSecs : Int) :
    Cuts (fun r s : TxRecord => r.ts ≤ s.ts) (WithinWindow windowSecs)
      (withinWindow windowSecs) where
  neighbours r s before linked := by
    unfold withinWindow at linked
    unfold WithinWindow
    rw [abs_of_nonneg (Int.sub_nonneg.mpr before)]
    exact of_decide_eq_true linked
  bridged u x y v below _ above close := by
    have first : u.ts ≤ x.ts := below.elim (fun equal => equal ▸ le_rfl) id
    have last : y.ts ≤ v.ts := above.elim (fun equal => equal ▸ le_rfl) id
    have far : saturatingI64 |v.ts - u.ts| ≤ max windowSecs 0 := by
      rcases close with near | near
      · exact near
      · rw [abs_sub_comm]
        exact near
    have gap : y.ts - x.ts ≤ |v.ts - u.ts| := (by omega : y.ts - x.ts ≤ v.ts - u.ts).trans
      (le_abs_self _)
    exact decide_eq_true ((saturatingI64_mono gap).trans far)

section Grouped

variable {records : List TxRecord}

/-- Adding up over the bursts. -/
theorem sum_bursts (distinct : (records.map (·.slot)).Nodup) (weight : Finset TxRecord → Nat) :
    (((records.insertionSort slotBefore).splitBy sameBurst).map
      (fun group => weight group.toFinset)).sum =
        ∑ burst ∈ chainClasses Continues records.toFinset, weight burst := by
  have perm := List.perm_insertionSort slotBefore records
  rw [sum_splitBy cuts_burst (sorted_slots_rise distinct)
    (splitBy_disjoint _ (perm.nodup_iff.mpr (List.Nodup.of_map _ distinct))),
    List.toFinset_eq_of_perm _ _ perm]

theorem timeBefore_sorted (records : List TxRecord) :
    (records.insertionSort timeBefore).Pairwise (fun r s => r.ts ≤ s.ts) := by
  have total : Std.Total timeBefore := ⟨fun first second => by unfold timeBefore; omega⟩
  have transitive : IsTrans TxRecord timeBefore :=
    ⟨fun _ _ _ before after => by unfold timeBefore at before after ⊢; omega⟩
  refine (List.pairwise_insertionSort timeBefore records).imp (fun {_ _} before => ?_)
  exact before.elim le_of_lt (fun tie => tie.1.le)

/-- No record is in two windows: its repetitions come at the same time. -/
theorem windowGroups_disjoint (records : List TxRecord) (windowSecs : Int) :
    (windowGroups records windowSecs).Pairwise List.Disjoint := by
  refine (cuts_window windowSecs).splitBy_disjoint (fun r => ?_) (timeBefore_sorted records)
  unfold WithinWindow
  rw [sub_self, abs_zero]
  exact le_max_right _ _

/-- Adding up over the windows. -/
theorem sum_windows (records : List TxRecord) (windowSecs : Int)
    (weight : Finset TxRecord → Nat) :
    ((windowGroups records windowSecs).map (fun group => weight group.toFinset)).sum =
      ∑ episode ∈ chainClasses (WithinWindow windowSecs) records.toFinset, weight episode := by
  have perm := List.perm_insertionSort timeBefore records
  have disjoint := windowGroups_disjoint records windowSecs
  unfold windowGroups at disjoint ⊢
  rw [sum_splitBy (cuts_window windowSecs) (timeBefore_sorted records) disjoint,
    List.toFinset_eq_of_perm _ _ perm]

end Grouped

/-! ### Pairs of a bucket -/

/-- A pair of accounts is asked for once in a bucket both are in. -/
theorem count_boundedPairs {low high : Nat} {sources : BTreeSet AccountId}
    {members : Finset AccountId} (same : ∀ account, account ∈ sources.keys ↔ account ∈ members)
    (first second : AccountId) :
    (boundedPairs low high sources.keys).count (first, second) =
      if PairOf low high members first second then 1 else 0 := by
  have length := keys_length_eq same
  unfold boundedPairs
  by_cases bounded : low ≤ members.card ∧ members.card ≤ high
  · rw [if_neg (by simp only [length, Bool.or_eq_true, decide_eq_true_eq]; omega),
      (orderedPairs_nodup sources.keys_sorted).count]
    refine if_congr ?_ rfl rfl
    rw [mem_orderedPairs sources.keys_sorted, same, same]
    exact ⟨fun ⟨one, other, less⟩ => ⟨one, other, less, bounded⟩,
      fun ⟨one, other, less, _⟩ => ⟨one, other, less⟩⟩
  · rw [if_pos (by simp only [length, Bool.or_eq_true, decide_eq_true_eq]; omega),
      if_neg (fun pair => bounded pair.2.2.2)]
    rfl

theorem mem_sourcesOf {records : List TxRecord} (account : AccountId) :
    account ∈ sourcesOf records ↔ account ∈ signers records.toFinset := by
  unfold sourcesOf
  rw [BTreeMap.mem_setOf, mem_signers]
  simp

/-! ### Co-payment -/

theorem mem_paymentsTo {cfg : AdversaryConfig} {records : Finset TxRecord} {dest : AccountId}
    {r : TxRecord} : r ∈ paymentsTo cfg records dest ↔
      r ∈ records ∧ cfg.copayMinAmount ≤ r.amount ∧ r.dest = dest := Finset.mem_filter

theorem mem_payersByDest {cfg : AdversaryConfig} {group : List TxRecord} {dest : AccountId}
    {sources : BTreeSet AccountId}
    (found : (payersByDest cfg.copayMinAmount group).lookup dest = some sources)
    (source : AccountId) :
    source ∈ sources.keys ↔ source ∈ signers (paymentsTo cfg group.toFinset dest) := by
  rw [mem_collectSets found, mem_signers]
  simp only [mem_paymentsTo, List.mem_map, List.mem_filter, List.mem_toFinset, decide_eq_true_eq,
    Prod.mk.injEq]
  constructor
  · rintro ⟨r, ⟨member, enough⟩, rfl, rfl⟩
    exact ⟨r, ⟨member, enough, rfl⟩, rfl⟩
  · rintro ⟨r, ⟨member, enough, rfl⟩, rfl⟩
    exact ⟨r, ⟨member, enough⟩, rfl, rfl⟩

theorem payersByDest_isSome (minAmount : Nat) (group : List TxRecord) (dest : AccountId) :
    ((payersByDest minAmount group).lookup dest).isSome ↔
      ∃ r ∈ group, minAmount ≤ r.amount ∧ r.dest = dest := by
  unfold payersByDest
  rw [collectSets_isSome]
  simp [and_assoc]

/-- How often a group asks for a pair. -/
theorem count_group_copayments (order : HashOrder) (label : List Nat) (cfg : AdversaryConfig)
    (group : List TxRecord) (first second : AccountId) :
    ((order.iterate label (payersByDest cfg.copayMinAmount group)).flatMap
      (fun bucket => boundedPairs cfg.copayMinSources cfg.burstMaxSources bucket.2.keys)).count
        (first, second) =
      ((group.toFinset.image (·.dest)).filter (fun dest =>
        PairOf cfg.copayMinSources cfg.burstMaxSources
          (signers (paymentsTo cfg group.toFinset dest)) first second)).card := by
  rw [List.count_flatMap, Finset.card_filter]
  refine HashOrder.sum_iterate order label _ (fun dest sources found => ⟨?_, ?_⟩)
    (fun dest _ missing => if_neg (fun pair => ?_))
  · obtain ⟨r, member, _, equal⟩ := (payersByDest_isSome cfg.copayMinAmount group dest).mp
      (Option.isSome_iff_exists.mpr ⟨sources, found⟩)
    exact Finset.mem_image.mpr ⟨r, List.mem_toFinset.mpr member, equal⟩
  · exact count_boundedPairs (mem_payersByDest found) first second
  · obtain ⟨r, pays, _⟩ := mem_signers.mp pair.1
    obtain ⟨member, enough, equal⟩ := mem_paymentsTo.mp pays
    have found := (payersByDest_isSome cfg.copayMinAmount group dest).mpr
      ⟨r, List.mem_toFinset.mp member, enough, equal⟩
    rw [missing] at found
    exact absurd found (by simp)

/-- The weight of a pair is the number of the buckets of bursts and destinations it shares. -/
theorem count_copayEdges (order : HashOrder) (cfg : AdversaryConfig) {records : List TxRecord}
    (distinct : (records.map (·.slot)).Nodup) (first second : AccountId) :
    (((records.insertionSort slotBefore).splitBy sameBurst).zipIdx.flatMap (fun group =>
      (order.iterate [4, 0, group.2] (payersByDest cfg.copayMinAmount group.1)).flatMap
        (fun bucket => boundedPairs cfg.copayMinSources cfg.burstMaxSources bucket.2.keys))).count
          (first, second) = burstCopayments cfg records.toFinset first second := by
  unfold burstCopayments
  rw [← sum_bursts distinct, List.count_flatMap,
    List.map_congr_left (fun group _ => count_group_copayments order _ cfg group.1 first second)]
  conv_rhs => rw [← List.zipIdx_map_fst 0 ((records.insertionSort slotBefore).splitBy sameBurst)]
  rw [List.map_map]
  rfl

/-- The payments into a destination that signs, in the order of the records. -/
def paymentsInto (cfg : AdversaryConfig) (records : List TxRecord) (dest : AccountId) :
    List TxRecord :=
  records.filter (fun r => r.dest = dest &&
    (cfg.copayMinAmount ≤ r.amount && r.dest ∈ (records.map (·.source)).toFinset))

theorem lookup_recordsByDest {records : List TxRecord} {cfg : AdversaryConfig} {dest : AccountId}
    {payments : List TxRecord} : (recordsByDest records cfg).lookup dest = some payments ↔
      paymentsInto cfg records dest = payments ∧ payments ≠ [] := by
  unfold recordsByDest paymentsInto
  rw [lookup_collectLists, List.filter_map, List.map_map, List.filter_filter]
  refine and_congr_left' (Eq.congr_left ?_)
  exact List.map_id _

theorem mem_paymentsInto {cfg : AdversaryConfig} {records : List TxRecord} {dest : AccountId}
    {r : TxRecord} : r ∈ paymentsInto cfg records dest ↔
      dest ∈ signers records.toFinset ∧ r ∈ paymentsTo cfg records.toFinset dest := by
  unfold paymentsInto
  simp only [mem_signers, mem_paymentsTo, List.mem_filter, Bool.and_eq_true, decide_eq_true_eq,
    List.mem_toFinset, List.mem_map]
  constructor
  · rintro ⟨member, rfl, enough, active⟩
    exact ⟨active, member, enough, rfl⟩
  · rintro ⟨active, member, enough, rfl⟩
    exact ⟨member, rfl, enough, active⟩

/-- The weight of a pair adds up over the destinations, in whatever order they are met. -/
theorem sum_recordsByDest (order : HashOrder) (label : List Nat) (cfg : AdversaryConfig)
    (records : List TxRecord) (weight : List TxRecord → Nat) (nothing : weight [] = 0) :
    ((order.iterate label (recordsByDest records cfg)).map (fun bucket => weight bucket.2)).sum =
      ∑ dest ∈ signers records.toFinset, weight (paymentsInto cfg records dest) := by
  refine HashOrder.sum_iterate order label _ (fun dest payments found => ?_)
    (fun dest _ missing => ?_)
  · obtain ⟨rfl, inhabited⟩ := lookup_recordsByDest.mp found
    obtain ⟨r, member⟩ := List.exists_mem_of_ne_nil _ inhabited
    exact ⟨(mem_paymentsInto.mp member).1, rfl⟩
  · by_cases empty : paymentsInto cfg records dest = []
    · rw [empty, nothing]
    · rw [lookup_recordsByDest.mpr ⟨rfl, empty⟩] at missing
      exact absurd missing (by simp)

/-- The pairs a destination contributes, one for each episode they share. -/
def contributed (cfg : AdversaryConfig) (records : List TxRecord) (dest : AccountId) :
    List (AccountId × AccountId) :=
  (windowGroups (paymentsInto cfg records dest) cfg.windowSecs).flatMap (fun episode =>
    boundedPairs cfg.copayMinSources cfg.burstMaxSources (sourcesOf episode))

/-- A destination that signs contributes the number of its episodes that a pair shares. -/
theorem count_contributed (cfg : AdversaryConfig) {records : List TxRecord} {dest : AccountId}
    (active : dest ∈ signers records.toFinset) (first second : AccountId) :
    (contributed cfg records dest).count (first, second) =
      ((chainClasses (WithinWindow cfg.windowSecs)
        (paymentsTo cfg records.toFinset dest)).filter (fun episode =>
          PairOf cfg.copayMinSources cfg.burstMaxSources (signers episode) first second)).card := by
  have same : (paymentsInto cfg records dest).toFinset = paymentsTo cfg records.toFinset dest := by
    ext r
    rw [List.mem_toFinset, mem_paymentsInto, and_iff_right active]
  unfold contributed
  rw [List.count_flatMap, Finset.card_filter, ← same, ← sum_windows]
  exact congrArg List.sum (List.map_congr_left
    (fun episode _ => count_boundedPairs mem_sourcesOf first second))

/-- The weight of a pair adds up what the destinations that sign contribute. -/
theorem count_windowed_contributed (order : HashOrder) (cfg : AdversaryConfig)
    (records : List TxRecord) (pair : AccountId × AccountId) :
    ((order.iterate [4, 1] (recordsByDest records cfg)).flatMap (fun bucket =>
      (windowGroups bucket.2 cfg.windowSecs).flatMap (fun episode =>
        boundedPairs cfg.copayMinSources cfg.burstMaxSources (sourcesOf episode)))).count pair =
      ∑ dest ∈ signers records.toFinset, (contributed cfg records dest).count pair := by
  rw [List.count_flatMap]
  exact sum_recordsByDest order _ cfg records (fun payments =>
    ((windowGroups payments cfg.windowSecs).flatMap (fun episode =>
      boundedPairs cfg.copayMinSources cfg.burstMaxSources (sourcesOf episode))).count pair) rfl

/-- The weight of a pair is the number of the episodes it shares. -/
theorem count_windowedCopayEdges (order : HashOrder) (cfg : AdversaryConfig)
    (records : List TxRecord) (first second : AccountId) :
    ((order.iterate [4, 1] (recordsByDest records cfg)).flatMap (fun bucket =>
      (windowGroups bucket.2 cfg.windowSecs).flatMap (fun episode =>
        boundedPairs cfg.copayMinSources cfg.burstMaxSources (sourcesOf episode)))).count
          (first, second) = episodeCopayments cfg records.toFinset first second :=
  (count_windowed_contributed order cfg records (first, second)).trans
    (Finset.sum_congr rfl (fun _ active => count_contributed cfg active first second))

/-! ### Co-activity -/

/-- The weight of a pair is the number of the bursts it is sponsored in. -/
theorem count_coactEdges (cfg : AdversaryConfig) {records : List TxRecord}
    (distinct : (records.map (·.slot)).Nodup) (first second : AccountId) :
    (((records.insertionSort slotBefore).splitBy sameBurst).flatMap (fun group =>
      boundedPairs 2 cfg.burstMaxSources
        (sourcesOf (group.filter (fun r => r.feePayer ≠ r.source))))).count (first, second) =
      coactivity cfg records.toFinset first second := by
  unfold coactivity
  rw [List.count_flatMap, Finset.card_filter, ← sum_bursts distinct]
  refine congrArg List.sum (List.map_congr_left (fun group _ => ?_))
  have sponsored : (group.filter (fun r => r.feePayer ≠ r.source)).toFinset =
      group.toFinset.filter (fun r => r.feePayer ≠ r.source) := by
    ext r
    simp
  rw [Function.comp_apply, ← sponsored]
  exact count_boundedPairs mem_sourcesOf first second

/-! ### Heavy pairs -/

theorem mem_heavyPairs (order : HashOrder) (label : List Nat)
    (pairs : List (AccountId × AccountId)) (threshold : Nat) (pair : AccountId × AccountId) :
    pair ∈ heavyPairs order label (tally pairs) threshold ↔
      0 < pairs.count pair ∧ threshold ≤ pairs.count pair := by
  unfold heavyPairs
  simp only [List.mem_map, List.mem_filter, decide_eq_true_eq]
  constructor
  · rintro ⟨⟨other, weight⟩, ⟨member, heavy⟩, rfl⟩
    obtain ⟨rfl, positive⟩ := (lookup_tally _ _ _).mp ((order.mem_iterate _ _ _ _).mp member)
    exact ⟨positive, heavy⟩
  · rintro ⟨positive, heavy⟩
    exact ⟨(pair, pairs.count pair), ⟨(order.mem_iterate _ _ _ _).mpr
      ((lookup_tally _ _ _).mpr ⟨rfl, positive⟩), heavy⟩, rfl⟩

end AccountCooker
