/-
This file proves that `cluster` computes one thing: the classes of the
equivalence closure of the enabled evidence, numbered in the order of the
accounts. The evidence speaks of the set of the records, so that neither the
order in which they are listed nor the order in which a hash map is iterated
can be told from the result.
-/

import Mathlib
import AccountCooker.Weights

namespace AccountCooker

open Collections

/-! ### The common funder -/

theorem mem_fundees {records : Finset TxRecord} {funder feePayer : AccountId} :
    feePayer ∈ fundees records funder ↔ ∃ r ∈ records, r.source = funder ∧ r.source ≠ r.dest ∧
      r.dest = feePayer ∧ ∃ s ∈ records, s.feePayer = feePayer := by
  unfold fundees
  simp only [Finset.mem_image, Finset.mem_filter]
  constructor
  · rintro ⟨r, ⟨member, source, different, s, inRecords, pays⟩, rfl⟩
    exact ⟨r, member, source, different, rfl, s, inRecords, pays⟩
  · rintro ⟨r, member, source, different, rfl, s, inRecords, pays⟩
    exact ⟨r, ⟨member, source, different, s, inRecords, pays⟩, rfl⟩

theorem mem_fundingEdges {records : List TxRecord} {funder : AccountId}
    {feePayers : BTreeSet AccountId}
    (found : (fundingEdges records).lookup funder = some feePayers) (feePayer : AccountId) :
    feePayer ∈ feePayers.keys ↔ feePayer ∈ fundees records.toFinset funder := by
  rw [mem_collectSets found, mem_fundees]
  simp only [List.mem_map, List.mem_filter, List.mem_toFinset, Bool.and_eq_true,
    decide_eq_true_eq, Prod.mk.injEq]
  constructor
  · rintro ⟨r, ⟨member, different, s, inRecords, pays⟩, source, rfl⟩
    exact ⟨r, member, source, different, rfl, s, inRecords, pays⟩
  · rintro ⟨r, member, source, different, rfl, s, inRecords, pays⟩
    exact ⟨r, ⟨member, different, s, inRecords, pays⟩, source, rfl⟩

theorem fundingEdges_isSome (records : List TxRecord) (funder : AccountId) :
    ((fundingEdges records).lookup funder).isSome ↔ (fundees records.toFinset funder).Nonempty := by
  unfold fundingEdges
  rw [collectSets_isSome]
  simp only [List.map_map, List.mem_map, List.mem_filter, List.mem_toFinset, Bool.and_eq_true,
    decide_eq_true_eq, Finset.Nonempty, mem_fundees]
  constructor
  · rintro ⟨r, ⟨member, different, s, inRecords, pays⟩, source⟩
    exact ⟨r.dest, r, member, source, different, rfl, s, inRecords, pays⟩
  · rintro ⟨_, r, member, source, different, rfl, s, inRecords, pays⟩
    exact ⟨r, ⟨member, different, s, inRecords, pays⟩, source⟩

theorem mem_sponsored {records : Finset TxRecord} {feePayers : Finset AccountId}
    {source : AccountId} : source ∈ sponsored records feePayers ↔
      ∃ r ∈ records, r.feePayer ≠ r.source ∧ r.feePayer ∈ feePayers ∧ r.source = source := by
  unfold sponsored
  rw [mem_signers]
  simp only [Finset.mem_filter, and_assoc]

/-- The sources a fee payer pays for, other than itself. -/
theorem lookup_feePayerSources (records : List TxRecord) (feePayer source : AccountId) :
    (∃ sources, (feePayerSources records).lookup feePayer = some sources ∧
      source ∈ sources.keys) ↔
      ∃ r ∈ records, r.feePayer ≠ r.source ∧ r.feePayer = feePayer ∧ r.source = source := by
  constructor
  · rintro ⟨sources, found, member⟩
    rw [mem_collectSets found] at member
    simpa [and_assoc] using member
  · rintro ⟨r, member, different, rfl, rfl⟩
    have listed : (r.feePayer, r.source) ∈ (records.filter (fun r => r.feePayer ≠ r.source)).map
        (fun r => (r.feePayer, r.source)) :=
      List.mem_map.mpr ⟨r, List.mem_filter.mpr ⟨member, decide_eq_true different⟩, rfl⟩
    obtain ⟨sources, found⟩ := Option.isSome_iff_exists.mp
      ((collectSets_isSome _ _).mpr (List.mem_map_of_mem (f := Prod.fst) listed))
    exact ⟨sources, found, (mem_collectSets found _).mpr listed⟩

theorem mem_reachedSources (records : List TxRecord) {found : BTreeSet AccountId}
    {feePayers : Finset AccountId}
    (same : ∀ feePayer, feePayer ∈ found.keys ↔ feePayer ∈ feePayers) (source : AccountId) :
    source ∈ reachedSources (feePayerSources records) found ↔
      source ∈ sponsored records.toFinset feePayers := by
  unfold reachedSources
  rw [BTreeMap.mem_setOf, List.mem_flatMap, mem_sponsored]
  constructor
  · rintro ⟨feePayer, member, behind⟩
    cases found : (feePayerSources records).lookup feePayer with
    | none =>
      rw [found] at behind
      exact absurd behind List.not_mem_nil
    | some sources =>
      rw [found] at behind
      obtain ⟨r, inRecords, different, rfl, source⟩ :=
        (lookup_feePayerSources records _ _).mp ⟨sources, found, behind⟩
      exact ⟨r, List.mem_toFinset.mpr inRecords, different, (same _).mp member, source⟩
  · rintro ⟨r, inRecords, different, member, source⟩
    obtain ⟨sources, found, behind⟩ := (lookup_feePayerSources records _ _).mpr
      ⟨r, List.mem_toFinset.mp inRecords, different, rfl, source⟩
    refine ⟨r.feePayer, (same _).mpr member, ?_⟩
    rwa [found]

theorem mem_funderUnions (order : HashOrder) (records : List TxRecord) (cfg : AdversaryConfig)
    (funder source : AccountId) : (funder, source) ∈ funderUnions order records cfg ↔
      Funds cfg records.toFinset funder source := by
  -- What the heuristic decides on is the number of fundees and of the sources behind them.
  have counts {feePayers : BTreeSet AccountId}
      (found : (fundingEdges records).lookup funder = some feePayers) :
      feePayers.keys.length = (fundees records.toFinset funder).card ∧
        (reachedSources (feePayerSources records) feePayers).length =
          (sponsored records.toFinset (fundees records.toFinset funder)).card :=
    ⟨keys_length_eq (mem_fundingEdges found),
      keys_length_eq (mem_reachedSources records (mem_fundingEdges found))⟩
  unfold funderUnions Funds
  rw [List.mem_flatMap]
  constructor
  · rintro ⟨⟨other, feePayers⟩, member, asked⟩
    have found := (order.mem_iterate _ _ other feePayers).mp member
    split at asked
    · exact absurd asked List.not_mem_nil
    · rename_i enough
      dsimp only at asked
      split at asked
      · exact absurd asked List.not_mem_nil
      · rename_i few
        obtain ⟨key, reached, equal⟩ := List.mem_map.mp asked
        obtain ⟨rfl, rfl⟩ := Prod.mk.inj equal
        obtain ⟨fundeeCount, sourceCount⟩ := counts found
        rw [Bool.or_eq_true, decide_eq_true_eq, decide_eq_true_eq, sourceCount] at few
        dsimp only at enough
        rw [fundeeCount] at enough
        exact ⟨(fundingEdges_isSome records other).mp
            (Option.isSome_iff_exists.mpr ⟨feePayers, found⟩), not_lt.mp enough,
          (mem_reachedSources records (mem_fundingEdges found) key).mp reached, by omega, by omega⟩
  · rintro ⟨some, enough, behind, several, few⟩
    obtain ⟨feePayers, found⟩ := Option.isSome_iff_exists.mp
      ((fundingEdges_isSome records funder).mpr some)
    obtain ⟨fundeeCount, sourceCount⟩ := counts found
    refine ⟨(funder, feePayers), (order.mem_iterate _ _ funder feePayers).mpr found, ?_⟩
    rw [if_neg (by rw [fundeeCount]; omega)]
    dsimp only
    rw [if_neg (by rw [Bool.or_eq_true, decide_eq_true_eq, decide_eq_true_eq, sourceCount]; omega)]
    exact List.mem_map.mpr
      ⟨source, (mem_reachedSources records (mem_fundingEdges found) source).mpr behind, rfl⟩

/-! ### Shared groups -/

/-- A star joins the same accounts as all pairs do. -/
theorem star_linked (accounts : List AccountId) {pairs : List (AccountId × AccountId)}
    (asked : ∀ pair ∈ star accounts, pair ∈ pairs) {first second : AccountId}
    (one : first ∈ accounts) (other : second ∈ accounts) : Linked pairs first second := by
  cases accounts with
  | nil => exact absurd one List.not_mem_nil
  | cons center rest =>
    have reach {account : AccountId} (member : account ∈ center :: rest) :
        Linked pairs center account := by
      rcases List.mem_cons.mp member with rfl | later
      · exact Relation.EqvGen.refl _
      · exact Relation.EqvGen.rel _ _ (asked _ (List.mem_map.mpr ⟨account, later, rfl⟩))
    exact (reach one).symm.trans _ _ _ (reach other)

theorem mem_star {accounts : List AccountId} {first second : AccountId}
    (member : (first, second) ∈ star accounts) : first ∈ accounts ∧ second ∈ accounts := by
  cases accounts with
  | nil => exact absurd member List.not_mem_nil
  | cons center rest =>
    obtain ⟨account, later, equal⟩ := List.mem_map.mp member
    obtain ⟨rfl, rfl⟩ := Prod.mk.inj equal
    exact ⟨List.mem_cons_self, List.mem_cons_of_mem _ later⟩

/-- The ablation closes to the closure of sharing a group. -/
theorem ceilingUnions_spans {cfg : AdversaryConfig} {records : Finset TxRecord}
    {groups : List (List TxRecord)}
    (same : ∀ holds : Finset TxRecord → Prop, (∃ group ∈ groups, holds group.toFinset) ↔
      ∃ group ∈ groupsOf cfg records, holds group) :
    Spans (ceilingUnions groups cfg) (ShareGroup cfg records) := by
  have length (group : List TxRecord) :
      (sourcesOf group).length = (signers group.toFinset).card := keys_length_eq mem_sourcesOf
  have share (first second : AccountId) : ShareGroup cfg records first second ↔
      ∃ group ∈ groups, first ∈ sourcesOf group ∧ second ∈ sourcesOf group ∧
        2 ≤ (sourcesOf group).length ∧ (sourcesOf group).length ≤ cfg.burstMaxSources := by
    unfold ShareGroup
    rw [← same]
    simp only [mem_sourcesOf, length]
  unfold ceilingUnions
  refine spans_of_closure (fun first second member => ?_) (fun first second shared => ?_)
  · obtain ⟨group, inGroups, asked⟩ := List.mem_flatMap.mp member
    dsimp only at asked
    split at asked
    · exact absurd asked List.not_mem_nil
    · rename_i few
      rw [Bool.or_eq_true, decide_eq_true_eq, decide_eq_true_eq] at few
      obtain ⟨one, other⟩ := mem_star asked
      exact Relation.EqvGen.rel _ _
        ((share first second).mpr ⟨group, inGroups, one, other, by omega, by omega⟩)
  · obtain ⟨group, inGroups, one, other, several, few⟩ := (share first second).mp shared
    refine star_linked (sourcesOf group) (fun pair asked => ?_) one other
    refine List.mem_flatMap.mpr ⟨group, inGroups, ?_⟩
    dsimp only
    rw [if_neg (by rw [Bool.or_eq_true, decide_eq_true_eq, decide_eq_true_eq]; omega)]
    exact asked

/-! ### All heuristics -/

/-- A ledger a config can measure: its slots are distinct and no window overflows. -/
structure Measurable (cfg : AdversaryConfig) (records : List TxRecord) : Prop where
  distinct : (records.map (·.slot)).Nodup
  slots : ∀ r ∈ records, r.slot ≤ u64Max
  window : cfg.useTemporalAmount = true → 0 ≤ cfg.temporalWindowSecs
  times : cfg.useTemporalAmount = true →
    ∀ r ∈ records, i64Min ≤ r.ts ∧ r.ts + cfg.temporalWindowSecs ≤ i64Max

section Measurable

variable {cfg : AdversaryConfig} {records : List TxRecord}

theorem Measurable.perm (measurable : Measurable cfg records) {other : List TxRecord}
    (perm : other.Perm records) : Measurable cfg other where
  distinct := (perm.map _).nodup_iff.mpr measurable.distinct
  slots := fun r member => measurable.slots r (perm.mem_iff.mp member)
  window := measurable.window
  times := fun enabled r member => measurable.times enabled r (perm.mem_iff.mp member)

theorem copayUnions_spans (order : HashOrder) (measurable : Measurable cfg records)
    {groups : List (List TxRecord)} (bursts : cfg.useWindowed = false →
      groups = (records.insertionSort slotBefore).splitBy sameBurst) :
    Spans (copayUnions order groups records cfg) (Copays cfg records.toFinset) := by
  refine spans_of_mem (fun first second => ?_)
  unfold copayUnions Copays copayments
  cases windowed : cfg.useWindowed with
  | true =>
    rw [if_pos rfl, if_pos rfl, windowedCopayEdges, mem_heavyPairs,
      count_windowedCopayEdges order cfg records]
  | false =>
    rw [if_neg Bool.false_ne_true, if_neg Bool.false_ne_true, copayEdges, mem_heavyPairs,
      bursts windowed, count_copayEdges order cfg measurable.distinct]

theorem coactUnions_spans (order : HashOrder) (measurable : Measurable cfg records) :
    Spans (coactUnions order ((records.insertionSort slotBefore).splitBy sameBurst) cfg)
      (Coacts cfg records.toFinset) := by
  refine spans_of_mem (fun first second => ?_)
  unfold coactUnions Coacts
  rw [coactEdges, mem_heavyPairs, count_coactEdges cfg measurable.distinct]

/-- What holds of some group of the records holds of some class. -/
theorem exists_group (measurable : Measurable cfg records) {groups : List (List TxRecord)}
    (grouped : groups = if cfg.useWindowed then windowGroups records cfg.windowSecs
      else (records.insertionSort slotBefore).splitBy sameBurst) (holds : Finset TxRecord → Prop) :
    (∃ group ∈ groups, holds group.toFinset) ↔
      ∃ group ∈ groupsOf cfg records.toFinset, holds group := by
  subst grouped
  unfold groupsOf
  cases cfg.useWindowed with
  | true =>
    have perm := List.perm_insertionSort timeBefore records
    have disjoint := windowGroups_disjoint records cfg.windowSecs
    unfold windowGroups at disjoint ⊢
    rw [if_pos rfl, if_pos rfl, exists_splitBy (cuts_window cfg.windowSecs)
      (timeBefore_sorted records) disjoint, List.toFinset_eq_of_perm _ _ perm]
  | false =>
    have perm := List.perm_insertionSort slotBefore records
    have nodup := List.Nodup.of_map _ measurable.distinct
    rw [if_neg Bool.false_ne_true, if_neg Bool.false_ne_true, exists_splitBy cuts_burst
      (sorted_slots_rise measurable.distinct) (splitBy_disjoint _ (perm.nodup_iff.mpr nodup)),
      List.toFinset_eq_of_perm _ _ perm]

/-- The unions the heuristics ask for close to the closure of the evidence. -/
theorem requestedUnions_spans (order : HashOrder) (measurable : Measurable cfg records) :
    ∃ pairs, requestedUnions order records cfg = some pairs ∧
      Spans pairs (Evidence cfg records.toFinset) := by
  obtain ⟨temporal, asked, temporalSpans⟩ : ∃ temporal,
      (if cfg.useTemporalAmount then temporalUnions records cfg else some []) = some temporal ∧
        Spans temporal (fun first second =>
          cfg.useTemporalAmount ∧ Peels cfg records.toFinset first second) := by
    cases flag : cfg.useTemporalAmount with
    | true =>
      obtain ⟨pairs, computed, exact⟩ :=
        temporalUnions_spec (measurable.window flag)
          (fun r member => (measurable.times flag r member).1)
          (fun r member => (measurable.times flag r member).2)
      refine ⟨pairs, computed, spans_of_mem (fun first last => ?_)⟩
      rw [exact, and_iff_right rfl]
    | false => exact ⟨[], rfl, spans_of_mem (fun first last => by simp)⟩
  have bursts := burstGroups_eq measurable.distinct measurable.slots
  obtain ⟨groups, grouped, chosen⟩ : ∃ groups,
      (if cfg.useWindowed then some (windowGroups records cfg.windowSecs)
        else burstGroups records) = some groups ∧
      groups = if cfg.useWindowed then windowGroups records cfg.windowSecs
        else (records.insertionSort slotBefore).splitBy sameBurst := by
    rw [bursts]
    cases cfg.useWindowed <;> exact ⟨_, rfl, rfl⟩
  obtain ⟨exactGroups, grouped', coactivity⟩ : ∃ exactGroups,
      (if cfg.useBurstCoactivity && cfg.useWindowed then burstGroups records else some groups) =
        some exactGroups ∧
      Spans (enabled cfg.useBurstCoactivity (coactUnions order exactGroups cfg))
        (fun first second =>
          cfg.useBurstCoactivity ∧ Coacts cfg records.toFinset first second) := by
    have spans := coactUnions_spans order measurable
    cases active : cfg.useBurstCoactivity with
    | false => exact ⟨groups, rfl, spans_of_mem (fun first second => by simp [enabled])⟩
    | true =>
      cases windowed : cfg.useWindowed with
      | true => exact ⟨_, bursts, spans.enabled true⟩
      | false =>
        rw [windowed, if_neg Bool.false_ne_true] at chosen
        subst chosen
        exact ⟨_, rfl, spans.enabled true⟩
  have copayment : Spans (copayUnions order groups records cfg) (Copays cfg records.toFinset) := by
    refine copayUnions_spans order measurable (fun windowed => ?_)
    rw [chosen, windowed, if_neg Bool.false_ne_true]
  have ceiling := ceilingUnions_spans (exists_group measurable chosen)
  have all := ((((((((feePayerUnions_spans records).enabled cfg.useFeePayer).append
    ((spans_of_mem (mem_cospendUnions order records cfg)).enabled cfg.useCospend)).append
    temporalSpans).append
    ((spans_of_mem (mem_activationUnions records cfg)).enabled cfg.useActivationLineage)).append
    (copayment.enabled cfg.useBurstCopay)).append coactivity).append
    ((spans_of_mem (mem_funderUnions order records cfg)).enabled cfg.useFunderGraph)).append
    (ceiling.enabled cfg.useBurstUnionCeiling)
  refine ⟨_, ?_, all.congr (fun first second => ?_)⟩
  · unfold requestedUnions
    rw [asked, grouped]
    show Option.bind (if cfg.useBurstCoactivity && cfg.useWindowed then burstGroups records
      else some groups) _ = _
    rw [grouped']
    rfl
  · unfold Evidence
    simp only [or_assoc]

end Measurable

/-! ### The clustering of a ledger -/

theorem Ledger.accounts_perm {ledger other : Ledger} (perm : other.records.Perm ledger.records) :
    other.accounts.keys = ledger.accounts.keys := by
  refine BTreeMap.keys_ext (fun account => ?_)
  rw [Ledger.mem_accounts, Ledger.mem_accounts]
  exact exists_congr (fun record => and_congr_left' perm.mem_iff)

/-- The clusters of a ledger, whatever the order of its records and of the iterations. -/
theorem cluster_evidence {cfg : AdversaryConfig} {ledger other : Ledger} (order : HashOrder)
    (measurable : Measurable cfg ledger.records) (perm : other.records.Perm ledger.records) :
    cluster order other cfg =
      some (clusteringOf (Relation.EqvGen (Evidence cfg ledger.records.toFinset)) ledger) := by
  obtain ⟨pairs, requested, spans⟩ := requestedUnions_spans order (measurable.perm perm)
  rw [cluster_eq requested, spans, List.toFinset_eq_of_perm _ _ perm]
  unfold clusteringOf
  rw [Ledger.accounts_perm perm]

/-- Clustering is the equivalence closure of the evidence: every account is mapped, two accounts
to one index exactly when evidence connects them; the indices are dense and `sizes` counts the
accounts of each. No iteration order and no order of the records matters. -/
theorem cluster_closure {cfg : AdversaryConfig} {ledger : Ledger}
    (measurable : Measurable cfg ledger.records) :
    ∃ clustering : Clustering,
      (∀ (order : HashOrder) (other : Ledger), other.records.Perm ledger.records →
        cluster order other cfg = some clustering) ∧
      (∀ first ∈ ledger.accounts.keys, ∀ second ∈ ledger.accounts.keys,
        clustering.clusterOf.lookup first = clustering.clusterOf.lookup second ↔
          Relation.EqvGen (Evidence cfg ledger.records.toFinset) first second) ∧
      (∀ account, (clustering.clusterOf.lookup account).isSome ↔
        account ∈ ledger.accounts.keys) ∧
      (∀ index, index < clustering.sizes.length ↔
        ∃ account ∈ ledger.accounts.keys, clustering.clusterOf.lookup account = some index) ∧
      ∀ index size, clustering.sizes[index]? = some size →
        size = ledger.accounts.keys.countP
          (fun account => clustering.clusterOf.lookup account = some index) := by
  classical
  have equivalence := Relation.EqvGen.is_equivalence (Evidence cfg ledger.records.toFinset)
  have nodup := ledger.accounts.keys_nodup
  refine ⟨clusteringOf (Relation.EqvGen (Evidence cfg ledger.records.toFinset)) ledger,
    fun order other perm => cluster_evidence order measurable perm,
    fun first one second other => clusteringOf_eq_iff equivalence one other,
    fun account => number_isSome equivalence nodup account,
    fun index => number_dense equivalence nodup index,
    fun index size found => number_size equivalence nodup found⟩

/-- Two accounts pay each other under one fee payer, and a stranger pays another. -/
def pairLedger : Ledger where
  records :=
    [⟨1, 1, 100, ⟨9⟩, ⟨1⟩, ⟨2⟩, 50, .transfer, none⟩,
      ⟨2, 2, 160, ⟨9⟩, ⟨2⟩, ⟨1⟩, 50, .transfer, none⟩,
      ⟨3, 3, 180, ⟨3⟩, ⟨3⟩, ⟨4⟩, 70, .transfer, none⟩]

theorem cluster_closure_pairLedger :
    Measurable .exactTs pairLedger.records ∧
      ∃ clustering : Clustering, clustering.sizes = [3, 1, 1] ∧
        ∀ first ∈ pairLedger.accounts.keys, ∀ second ∈ pairLedger.accounts.keys,
          clustering.clusterOf.lookup first = clustering.clusterOf.lookup second ↔
            Relation.EqvGen (Evidence .exactTs pairLedger.records.toFinset) first second := by
  have measurable : Measurable .exactTs pairLedger.records :=
    ⟨by decide, by decide, by decide, by decide⟩
  obtain ⟨clustering, computed, exact, _⟩ := cluster_closure measurable
  refine ⟨measurable, clustering, ?_, exact⟩
  have sizes : (cluster .asWritten pairLedger .exactTs).map (·.sizes) = some [3, 1, 1] := by
    decide +kernel
  rw [computed .asWritten pairLedger (List.Perm.refl _)] at sizes
  exact Option.some.inj sizes

end AccountCooker
