/-
This file proves that scoring through contingency tables is scoring all pairs.
A table of tallies counts the pairs that agree on its key; the pairs that agree
on operator and cluster are among those that agree on one of them, so that the
counts of false pairs are differences that cannot underflow. The scores are
formulas over the counts: the code evaluates them in floating point, and the
same formulas over the rationals are the pairwise F1 and the pooled purity.
-/

import Mathlib
import AccountCooker.Truth
import AccountCooker.Metric
import AccountCooker.Partition

namespace AccountCooker

open Collections

/-! ### Unordered pairs -/

section Pairs

variable {Item : Type} [LinearOrder Item]

/-- The number of unordered pairs of distinct items that a symmetric relation holds of. -/
def pairsWhere (items : Finset Item) (holds : Item → Item → Prop) [DecidableRel holds] : Nat :=
  ((items ×ˢ items).filter (fun pair => pair.1 < pair.2 ∧ holds pair.1 pair.2)).card

variable {items : Finset Item} {holds : Item → Item → Prop} [DecidableRel holds]

theorem pairsWhere_eq_sum : pairsWhere items holds =
    ∑ first ∈ items, (items.filter (fun second => first < second ∧ holds first second)).card := by
  unfold pairsWhere
  rw [Finset.card_filter, Finset.sum_product]
  exact Finset.sum_congr rfl (fun first _ => (Finset.card_filter _ _).symm)

/-- A new item makes a pair with every item it is related to. -/
theorem pairsWhere_insert (symmetric : ∀ first second, holds first second → holds second first)
    {item : Item} (new : item ∉ items) :
    pairsWhere (insert item items) holds =
      (items.filter (holds item)).card + pairsWhere items holds := by
  have below (first : Item) :
      ((insert item items).filter (fun second => first < second ∧ holds first second)).card =
      (items.filter (fun second => first < second ∧ holds first second)).card +
        if first < item ∧ holds first item then 1 else 0 := by
    rw [Finset.filter_insert]
    split
    · rw [Finset.card_insert_of_notMem (fun member => new (Finset.mem_filter.mp member).1)]
    · rfl
  have sides : (items.filter (holds item)).card =
      (items.filter (fun second => item < second ∧ holds item second)).card +
        (items.filter (fun first => first < item ∧ holds first item)).card := by
    rw [← Finset.card_union_of_disjoint]
    · congr 1
      ext other
      simp only [Finset.mem_filter, Finset.mem_union]
      constructor
      · rintro ⟨member, related⟩
        rcases lt_trichotomy item other with above | same | under
        · exact Or.inl ⟨member, above, related⟩
        · exact absurd (same ▸ member) new
        · exact Or.inr ⟨member, under, symmetric _ _ related⟩
      · rintro (⟨member, _, related⟩ | ⟨member, _, related⟩)
        · exact ⟨member, related⟩
        · exact ⟨member, symmetric _ _ related⟩
    · refine Finset.disjoint_filter.mpr (fun other _ above under => ?_)
      exact lt_asymm above.1 under.1
  have itself : ¬ (item < item ∧ holds item item) := fun both => lt_irrefl _ both.1
  rw [pairsWhere_eq_sum, pairsWhere_eq_sum, Finset.sum_insert new,
    Finset.sum_congr rfl (fun first _ => below first), Finset.sum_add_distrib,
    ← Finset.card_filter, below item, if_neg itself, sides]
  omega

/-- The pairs of positions that agree are the pairs of items with the same key. -/
theorem agreeingPairs_eq {Key : Type} [DecidableEq Key] (key : Item → Key) {list : List Item}
    (nodup : list.Nodup) :
    agreeingPairs (list.map key) =
      pairsWhere list.toFinset (fun first second => key first = key second) := by
  induction list with
  | nil => rfl
  | cons item rest inductionHypothesis =>
    obtain ⟨new, distinct⟩ := List.nodup_cons.mp nodup
    have partners : (rest.map key).count (key item) =
        (rest.toFinset.filter (fun other => key item = key other)).card := by
      have kept : rest.toFinset.filter (fun other => key item = key other) =
          (rest.filter (fun other => key other == key item)).toFinset := by
        ext other
        rw [Finset.mem_filter, List.mem_toFinset, List.mem_toFinset, List.mem_filter, beq_iff_eq,
          eq_comm]
      rw [kept, List.toFinset_card_of_nodup (distinct.filter _), List.count_eq_countP,
        List.countP_map, List.countP_eq_length_filter]
      rfl
    rw [List.toFinset_cons, pairsWhere_insert (fun _ _ => Eq.symm)
      (fun member => new (List.mem_toFinset.mp member)), ← inductionHypothesis distinct, ← partners]
    rfl

/-- The pairs one relation holds of are those another one holds of as well, and the others. -/
theorem pairsWhere_split (holds also : Item → Item → Prop) [DecidableRel holds]
    [DecidableRel also] : pairsWhere items holds =
      pairsWhere items (fun first second => also first second ∧ holds first second) +
        pairsWhere items (fun first second => ¬ also first second ∧ holds first second) := by
  unfold pairsWhere
  rw [← Finset.card_filter_add_card_filter_not (fun pair => also pair.1 pair.2),
    Finset.filter_filter, Finset.filter_filter]
  congr 2 <;>
  · refine Finset.filter_congr (fun pair _ => ?_)
    tauto

theorem pairsWhere_congr {also : Item → Item → Prop} [DecidableRel also]
    (same : ∀ first ∈ items, ∀ second ∈ items, holds first second ↔ also first second) :
    pairsWhere items holds = pairsWhere items also := by
  unfold pairsWhere
  refine congrArg Finset.card (Finset.filter_congr (fun pair member => ?_))
  obtain ⟨one, two⟩ := Finset.mem_product.mp member
  rw [same pair.1 one pair.2 two]

/-- There are no pairs exactly when the relation holds of no two distinct items. -/
theorem pairsWhere_eq_zero (symmetric : ∀ first second, holds first second → holds second first) :
    pairsWhere items holds = 0 ↔
      ∀ first ∈ items, ∀ second ∈ items, first ≠ second → ¬ holds first second := by
  unfold pairsWhere
  rw [Finset.card_eq_zero, Finset.filter_eq_empty_iff]
  constructor
  · intro none first one second two different related
    rcases lt_or_gt_of_ne different with below | above
    · exact none (Finset.mk_mem_product one two) ⟨below, related⟩
    · exact none (Finset.mk_mem_product two one) ⟨above, symmetric _ _ related⟩
  · intro none pair member related
    obtain ⟨one, two⟩ := Finset.mem_product.mp member
    exact none pair.1 one pair.2 two related.1.ne related.2

theorem pairsWhere_le {also : Item → Item → Prop} [DecidableRel also]
    (fewer : ∀ first second, holds first second → also first second) :
    pairsWhere items holds ≤ pairsWhere items also := by
  refine Finset.card_le_card (fun pair member => ?_)
  obtain ⟨inside, below, related⟩ := Finset.mem_filter.mp member
  exact Finset.mem_filter.mpr ⟨inside, below, fewer _ _ related⟩

/-- All pairs of a list without repetitions. -/
theorem choose_two_eq {list : List Item} (nodup : list.Nodup) :
    list.length.choose 2 = pairsWhere list.toFinset (fun _ _ => True) := by
  have constant (list : List Item) :
      agreeingPairs (list.map (fun _ => ())) = list.length.choose 2 := by
    induction list with
    | nil => rfl
    | cons item rest inductionHypothesis =>
      show (rest.map (fun _ => ())).count () + agreeingPairs (rest.map (fun _ => ())) = _
      rw [inductionHypothesis, List.map_const', List.count_replicate_self, List.length_cons,
        Nat.choose_succ_succ, Nat.choose_one_right]
  rw [← constant, agreeingPairs_eq (fun _ => ()) nodup]
  exact pairsWhere_congr (fun _ _ _ _ => iff_of_true rfl trivial)

end Pairs

/-! ### Owned accounts -/

/-- The accounts with ground truth. -/
def attributedAccounts (ledger : Ledger) : Finset AccountId := ledger.ownership.keys.toFinset

/-- Two accounts have one operator. -/
def SameOperator (ledger : Ledger) (first second : AccountId) : Prop :=
  ledger.ownership.lookup first = ledger.ownership.lookup second

/-- Two accounts are in one cluster. -/
def SameCluster (clustering : Clustering) (first second : AccountId) : Prop :=
  ∃ cluster, clustering.clusterOf.lookup first = some cluster ∧
    clustering.clusterOf.lookup second = some cluster

instance (ledger : Ledger) : DecidableRel (SameOperator ledger) :=
  fun _ _ => inferInstanceAs (Decidable (_ = _))

instance (clustering : Clustering) : DecidableRel (SameCluster clustering) := fun first second =>
  decidable_of_iff ((clustering.clusterOf.lookup first).isSome ∧
    clustering.clusterOf.lookup first = clustering.clusterOf.lookup second) (by
    constructor
    · rintro ⟨some, equal⟩
      obtain ⟨cluster, found⟩ := Option.isSome_iff_exists.mp some
      exact ⟨cluster, found, equal ▸ found⟩
    · rintro ⟨cluster, one, two⟩
      exact ⟨Option.isSome_iff_exists.mpr ⟨cluster, one⟩, one.trans two.symm⟩)

section Scores

variable {ledger : Ledger} {clustering : Clustering}

/-- Pairs of one operator and one cluster. -/
def truePositives (ledger : Ledger) (clustering : Clustering) : Nat :=
  pairsWhere (attributedAccounts ledger) (fun first second =>
    SameOperator ledger first second ∧ SameCluster clustering first second)

/-- Pairs of different operators in one cluster. -/
def falsePositives (ledger : Ledger) (clustering : Clustering) : Nat :=
  pairsWhere (attributedAccounts ledger) (fun first second =>
    ¬ SameOperator ledger first second ∧ SameCluster clustering first second)

/-- Pairs of one operator in different clusters. -/
def falseNegatives (ledger : Ledger) (clustering : Clustering) : Nat :=
  pairsWhere (attributedAccounts ledger) (fun first second =>
    SameOperator ledger first second ∧ ¬ SameCluster clustering first second)

theorem mem_attributedAccounts {account : AccountId} :
    account ∈ attributedAccounts ledger ↔ (ledger.ownership.lookup account).isSome := by
  unfold attributedAccounts
  rw [List.mem_toFinset, AList.lookup_isSome]
  rfl

/-- A table over the owned accounts counts the pairs of owned accounts whose keys agree. -/
theorem pairTotal_owners {Key : Type} [DecidableEq Key] {order : HashOrder} {label : List Nat}
    {key : AccountId × AgentId → Key} {agree : AccountId → AccountId → Prop} [DecidableRel agree]
    {total : Nat} (same : ∀ first operator second operator',
      ledger.ownership.lookup first = some operator →
        ledger.ownership.lookup second = some operator' →
          (key (first, operator) = key (second, operator') ↔ agree first second))
    (totalled : pairTotal order label
      (tally ((order.iterate [8, 0] ledger.ownership).map key)) = some total) :
    total = pairsWhere (attributedAccounts ledger) agree := by
  have owned (owner : AccountId × AgentId)
      (member : owner ∈ order.iterate [8, 0] ledger.ownership) :
      ledger.ownership.lookup owner.1 = some owner.2 := (order.mem_iterate _ _ _ _).mp member
  have perm : ((order.iterate [8, 0] ledger.ownership).map Prod.fst).Perm
      ledger.ownership.keys := by
    refine ((order.arrange_perm [8, 0] _).map Prod.fst).trans ?_
    rw [List.map_map]
    exact List.Perm.refl _
  -- The key of an account is that of its entry.
  let keyOf : AccountId → Option Key := fun account =>
    (ledger.ownership.lookup account).map (fun operator => key (account, operator))
  have keys : agreeingPairs ((order.iterate [8, 0] ledger.ownership).map key) =
      agreeingPairs (((order.iterate [8, 0] ledger.ownership).map Prod.fst).map keyOf) := by
    rw [List.map_map]
    refine agreeingPairs_congr (fun owner one partner two => ?_)
    simp only [Function.comp_apply, keyOf, owned owner one, owned partner two, Option.map_some,
      Option.some_inj]
  rw [pairTotal_tally totalled, keys,
    agreeingPairs_eq keyOf (perm.nodup_iff.mpr ledger.ownership.keys_nodup),
    List.toFinset_eq_of_perm _ _ perm]
  refine pairsWhere_congr (fun first one second two => ?_)
  obtain ⟨operator, found⟩ := Option.isSome_iff_exists.mp (mem_attributedAccounts.mp one)
  obtain ⟨operator', found'⟩ := Option.isSome_iff_exists.mp (mem_attributedAccounts.mp two)
  simp only [keyOf, found, found', Option.map_some, Option.some_inj]
  exact same first operator second operator' found found'

/-- The tables count the true positives, and with them the false ones. -/
theorem confusion_pairwise {order : HashOrder} {counts : Confusion}
    (covers : ∀ account ∈ attributedAccounts ledger, (clustering.clusterOf.lookup account).isSome)
    (counted : confusion order (order.iterate [8, 0] ledger.ownership) clustering.clusterOf =
      some counts) :
    counts.tp = truePositives ledger clustering ∧
      counts.predPos = truePositives ledger clustering + falsePositives ledger clustering ∧
      counts.sameOpPairs = truePositives ledger clustering + falseNegatives ledger clustering := by
  simp only [confusion, Option.bind_eq_bind, Option.bind_eq_some_iff, Option.pure_def,
    Option.some_inj] at counted
  obtain ⟨tp, cells, predPos, clusters, sameOpPairs, operators, rfl⟩ := counted
  have together {first second : AccountId} {operator : AgentId}
      (owned : ledger.ownership.lookup first = some operator) :
      clustering.clusterOf.lookup first = clustering.clusterOf.lookup second ↔
        SameCluster clustering first second := by
    obtain ⟨cluster, found⟩ := Option.isSome_iff_exists.mp
      (covers first (mem_attributedAccounts.mpr (owned ▸ rfl)))
    constructor
    · exact fun equal => ⟨cluster, found, equal ▸ found⟩
    · rintro ⟨other, one, two⟩
      exact one.trans two.symm
  have operated {first second : AccountId} {operator operator' : AgentId}
      (one : ledger.ownership.lookup first = some operator)
      (two : ledger.ownership.lookup second = some operator') :
      operator = operator' ↔ SameOperator ledger first second := by
    unfold SameOperator
    rw [one, two, Option.some_inj]
  refine ⟨?_, ?_, ?_⟩
  · refine pairTotal_owners (fun first operator second operator' one two => ?_) cells
    rw [Prod.mk.injEq, operated one two, together one]
  · refine (pairTotal_owners (fun first operator second operator' one _ => together one)
      clusters).trans ?_
    exact pairsWhere_split (SameCluster clustering) (SameOperator ledger)
  · refine (pairTotal_owners (fun first operator second operator' one two => operated one two)
      operators).trans ?_
    rw [pairsWhere_split (SameOperator ledger) (SameCluster clustering)]
    exact congrArg₂ (· + ·) (pairsWhere_congr (fun _ _ _ _ => And.comm))
      (pairsWhere_congr (fun _ _ _ _ => And.comm))

end Scores

/-! ### Owned sources of a group -/

section Purity

variable {label : AccountId → Option AgentId} {ledger : Ledger}

/-- The owned accounts that sign a record of a group. -/
def ownedSources (ledger : Ledger) (group : List TxRecord) : Finset AccountId :=
  (attributedAccounts ledger).filter (fun account => ∃ r ∈ group, r.source = account)

/-- Pairs of owned sources that share a group and an operator. -/
def purePairs (ledger : Ledger) (groups : List (List TxRecord)) : Nat :=
  (groups.map (fun group => pairsWhere (ownedSources ledger group) (SameOperator ledger))).sum

/-- Pairs of owned sources that share a group. -/
def sharedPairs (ledger : Ledger) (groups : List (List TxRecord)) : Nat :=
  (groups.map (fun group => pairsWhere (ownedSources ledger group) (fun _ _ => True))).sum

theorem purePairs_le (ledger : Ledger) (groups : List (List TxRecord)) :
    purePairs ledger groups ≤ sharedPairs ledger groups :=
  List.sum_le_sum (fun _ _ => pairsWhere_le (fun _ _ _ => trivial))

theorem lookup_ownership_label (labelled : LabelledBy label ledger.records) {r : TxRecord}
    (member : r ∈ ledger.records) : ledger.ownership.lookup r.source = r.operator := by
  rw [labelled r member]
  cases owner : label r.source with
  | none =>
    refine Option.eq_none_iff_forall_ne_some.mpr (fun operator found => ?_)
    rw [lookup_ownership_eq_some labelled, owner] at found
    exact Option.some_ne_none operator found.2.symm
  | some operator => exact (lookup_ownership_eq_some labelled _ _).mpr ⟨⟨r, member, rfl⟩, owner⟩

/-- A group meets its owned sources once each, with their operators. -/
theorem foldl_signersStep (labelled : LabelledBy label ledger.records) {group : List TxRecord}
    (inside : ∀ r ∈ group, r ∈ ledger.records) :
    ∃ met : List AccountId, met.Nodup ∧ met.toFinset = ownedSources ledger group ∧
      (group.foldl signersStep ⟨∅, []⟩).seen = ownedSources ledger group ∧
      (group.foldl signersStep ⟨∅, []⟩).operators.map some =
        met.map (fun account => ledger.ownership.lookup account) := by
  induction group using List.reverseRecOn with
  | nil =>
    have none : ownedSources ledger [] = ∅ := by
      unfold ownedSources
      rw [Finset.filter_eq_empty_iff]
      rintro account _ ⟨r, member, _⟩
      exact absurd member List.not_mem_nil
    exact ⟨[], List.nodup_nil, none.symm, none.symm, rfl⟩
  | append_singleton group r inductionHypothesis =>
    obtain ⟨met, nodup, sources, seen, operators⟩ :=
      inductionHypothesis (fun s member => inside s (List.mem_append_left _ member))
    have inLedger : r ∈ ledger.records := inside r (List.mem_append_right _ List.mem_cons_self)
    have owner := lookup_ownership_label labelled inLedger
    have grown : ownedSources ledger (group ++ [r]) =
        if r.operator.isSome then insert r.source (ownedSources ledger group)
        else ownedSources ledger group := by
      ext account
      have split : (∃ s ∈ group ++ [r], s.source = account) ↔
          account = r.source ∨ ∃ s ∈ group, s.source = account := by
        simp only [List.mem_append, List.mem_singleton, or_and_right, exists_or, exists_eq_left]
        rw [or_comm, eq_comm]
      split
      · rename_i some
        rw [Finset.mem_insert, ownedSources, Finset.mem_filter, split, ownedSources,
          Finset.mem_filter]
        constructor
        · rintro ⟨owned, rfl | earlier⟩
          · exact Or.inl rfl
          · exact Or.inr ⟨owned, earlier⟩
        · rintro (rfl | ⟨owned, earlier⟩)
          · exact ⟨mem_attributedAccounts.mpr (owner ▸ some), Or.inl rfl⟩
          · exact ⟨owned, Or.inr earlier⟩
      · rename_i none
        rw [ownedSources, Finset.mem_filter, split, ownedSources, Finset.mem_filter]
        refine and_congr_right (fun owned => or_iff_right (fun same => none ?_))
        rw [← owner, ← same]
        exact mem_attributedAccounts.mp owned
    rw [List.foldl_append, List.foldl_cons, List.foldl_nil, grown]
    generalize group.foldl signersStep ⟨∅, []⟩ = state at seen operators ⊢
    unfold signersStep
    cases operator : r.operator with
    | none => exact ⟨met, nodup, sources, seen, operators⟩
    | some op =>
      rw [operator] at owner
      simp only [seen, Option.isSome_some, if_true]
      by_cases again : r.source ∈ ownedSources ledger group
      · rw [if_pos again, Finset.insert_eq_of_mem again]
        exact ⟨met, nodup, sources, seen, operators⟩
      · rw [if_neg again]
        have new : r.source ∉ met := fun member => again (sources ▸ List.mem_toFinset.mpr member)
        refine ⟨met ++ [r.source], ?_, ?_, rfl, ?_⟩
        · exact List.nodup_append.mpr ⟨nodup, List.nodup_singleton _,
            fun account earlier other last same => new (by
              rw [List.mem_singleton.mp last] at same
              exact same ▸ earlier)⟩
        · rw [List.toFinset_append, sources, List.toFinset_cons, List.toFinset_nil,
            insert_empty_eq, Finset.union_comm, ← Finset.insert_eq]
        · rw [List.map_append, List.map_append, operators]
          simp only [List.map_cons, List.map_nil, owner]

theorem agreeingPairs_map_some {Key : Type} [DecidableEq Key] (keys : List Key) :
    agreeingPairs (keys.map some) = agreeingPairs keys := by
  have same : agreeingPairs (keys.map some) = agreeingPairs (keys.map id) :=
    agreeingPairs_congr (fun first _ second _ => Option.some_inj)
  rwa [List.map_id] at same

/-- One group adds its pairs of owned sources. -/
theorem purityStep_eq (labelled : LabelledBy label ledger.records) {order : HashOrder}
    {path : List Nat} {counted next : Nat × Nat} {group : List TxRecord × Nat}
    (inside : ∀ r ∈ group.1, r ∈ ledger.records)
    (step : purityStep order path counted group = some next) :
    next = (counted.1 + pairsWhere (ownedSources ledger group.1) (SameOperator ledger),
      counted.2 + pairsWhere (ownedSources ledger group.1) (fun _ _ => True)) := by
  obtain ⟨met, nodup, sources, _, operators⟩ := foldl_signersStep labelled inside
  simp only [purityStep, Option.bind_eq_bind, Option.bind_eq_some_iff, Option.pure_def,
    Option.some_inj] at step
  obtain ⟨pairs, paired, total, totalled, same, agreeing, pure, added, rfl⟩ := step
  have length : (group.1.foldl signersStep ⟨∅, []⟩).operators.length = met.length := by
    rw [← List.length_map (f := some), operators, List.length_map]
  rw [← (checkedU64_eq_some.mp added).2, ← (checkedU64_eq_some.mp totalled).2,
    c2_eq_some paired, pairTotal_tally agreeing, length, choose_two_eq nodup, sources,
    ← agreeingPairs_map_some, operators, agreeingPairs_eq _ nodup, sources]
  rfl

/-- All groups together add their pairs of owned sources. -/
theorem foldlM_purityStep (labelled : LabelledBy label ledger.records) {order : HashOrder}
    {path : List Nat} {groups : List (List TxRecord × Nat)} {counted last : Nat × Nat}
    (inside : ∀ group ∈ groups, ∀ r ∈ group.1, r ∈ ledger.records)
    (ran : groups.foldlM (purityStep order path) counted = some last) :
    last = (counted.1 + purePairs ledger (groups.map Prod.fst),
      counted.2 + sharedPairs ledger (groups.map Prod.fst)) := by
  induction groups generalizing counted with
  | nil => exact (Option.some.inj ran).symm
  | cons group rest inductionHypothesis =>
    rw [List.foldlM_cons, Option.bind_eq_bind, Option.bind_eq_some_iff] at ran
    obtain ⟨next, step, later⟩ := ran
    have rest := inductionHypothesis
      (fun other member => inside other (List.mem_cons_of_mem _ member)) later
    rw [rest, purityStep_eq labelled (inside group List.mem_cons_self) step]
    simp only [purePairs, sharedPairs, List.map_cons, List.sum_cons, Nat.add_assoc]

end Purity

/-! ### The formulas -/

section Formulas

variable {Number : Type} [Add Number] [Mul Number] [Div Number] [LT Number] [DecidableLT Number]
  [OfScientific Number]

/-- A quotient of counts, zero over an empty whole. -/
def quotientOf (count : Nat → Number) (part whole : Nat) : Number :=
  if 0 < whole then count part / count whole else 0.0

/-- The F1 score of a pairwise confusion. -/
def f1Of (count : Nat → Number) (tp fp fn : Nat) : Number :=
  let precision := quotientOf count tp (tp + fp)
  let pairRecall := quotientOf count tp (tp + fn)
  if 0.0 < precision + pairRecall then
    2.0 * precision * pairRecall / (precision + pairRecall) else 0.0

/-- A quotient of counts, one over an empty whole. -/
def pooledOf (count : Nat → Number) (part whole : Nat) : Number :=
  if 0 < whole then count part / count whole else 1.0

end Formulas

/-- A count as a rational number. -/
def exactly (count : Nat) : ℚ := count

theorem quotientOf_exactly (tp rest : Nat) :
    quotientOf exactly tp (tp + rest) = (tp : ℚ) / (tp + rest) := by
  unfold quotientOf exactly
  split
  · push_cast
    rfl
  · rename_i empty
    have zero : tp = 0 ∧ rest = 0 := by omega
    rw [zero.1, zero.2]
    norm_num

/-- Without rounding, the F1 score is twice the true positives over twice the true positives and
the false ones. -/
theorem f1Of_exactly (tp fp fn : Nat) :
    f1Of exactly tp fp fn = if 0 < tp then 2 * (tp : ℚ) / (2 * tp + fp + fn) else 0 := by
  unfold f1Of
  simp only [quotientOf_exactly]
  by_cases some : 0 < tp
  · have positive : (0 : ℚ) < tp := by exact_mod_cast some
    have precision : (0 : ℚ) < tp / (tp + fp) := by positivity
    have pairRecall : (0 : ℚ) < tp / (tp + fn) := by positivity
    have above : (0.0 : ℚ) < tp / (tp + fp) + tp / (tp + fn) := by
      norm_num
      exact add_pos precision pairRecall
    rw [if_pos some, if_pos above]
    have two : (2.0 : ℚ) = 2 := by norm_num
    rw [two]
    field_simp
    ring
  · have zero : tp = 0 := Nat.eq_zero_of_not_pos some
    rw [if_neg some, zero]
    norm_num

/-- The F1 score is one exactly when something is found and nothing is wrong. -/
theorem f1Of_exactly_eq_one (tp fp fn : Nat) :
    f1Of exactly tp fp fn = 1 ↔ 0 < tp ∧ fp = 0 ∧ fn = 0 := by
  rw [f1Of_exactly]
  split
  · rename_i some
    have positive : (0 : ℚ) < 2 * tp + fp + fn := by positivity
    rw [div_eq_one_iff_eq positive.ne', and_iff_right some]
    constructor
    · intro equal
      have whole : 2 * tp = 2 * tp + fp + fn := by exact_mod_cast equal
      omega
    · rintro ⟨rfl, rfl⟩
      norm_num
  · rename_i none
    exact iff_of_false (by norm_num) (fun both => none both.1)

theorem pooledOf_exactly_le {part whole : Nat} (within : part ≤ whole) :
    pooledOf exactly part whole ≤ 1 := by
  unfold pooledOf exactly
  split
  · rename_i positive
    rw [div_le_one (by exact_mod_cast positive)]
    exact_mod_cast within
  · norm_num

/-! ### The report -/

section Reports

variable {label : AccountId → Option AgentId} {ledger : Ledger} {clustering : Clustering}

theorem mem_of_burstGroups {records : List TxRecord} {bursts : List (List TxRecord)}
    (grouped : burstGroups records = some bursts) {group : List TxRecord}
    (member : group ∈ bursts) {r : TxRecord} (inside : r ∈ group) : r ∈ records :=
  (burstGroups_perm grouped).mem_iff.mp (List.mem_flatten.mpr ⟨group, member, inside⟩)

theorem mem_of_windowGroups {records : List TxRecord} {windowSecs : Int} {group : List TxRecord}
    (member : group ∈ windowGroups records windowSecs) {r : TxRecord} (inside : r ∈ group) :
    r ∈ records :=
  (windowGroups_perm records windowSecs).mem_iff.mp (List.mem_flatten.mpr ⟨group, member, inside⟩)

theorem purity_eq (labelled : LabelledBy label ledger.records) {order : HashOrder}
    {path : List Nat} {groups : List (List TxRecord)} {share : Float}
    (inside : ∀ group ∈ groups, ∀ r ∈ group, r ∈ ledger.records)
    (computed : purity order path groups = some share) :
    share = pooledOf F64.ofU64 (purePairs ledger groups) (sharedPairs ledger groups) := by
  obtain ⟨last, ran, rest⟩ := Option.bind_eq_some_iff.mp computed
  have counted := foldlM_purityStep labelled (fun group member =>
    inside group.1 (List.fst_mem_of_mem_zipIdx member)) ran
  rw [List.zipIdx_map_fst, Nat.zero_add, Nat.zero_add] at counted
  subst counted
  exact (Option.some.inj rest).symm

/-- The operator partition restricted to the owned accounts, and a pair to find. -/
theorem exact_partition_iff :
    (0 < truePositives ledger clustering ∧ falsePositives ledger clustering = 0 ∧
      falseNegatives ledger clustering = 0) ↔
    (∃ first ∈ attributedAccounts ledger, ∃ second ∈ attributedAccounts ledger,
      first ≠ second ∧ SameOperator ledger first second) ∧
    ∀ first ∈ attributedAccounts ledger, ∀ second ∈ attributedAccounts ledger, first ≠ second →
      (SameCluster clustering first second ↔ SameOperator ledger first second) := by
  have clusterSymm (first second : AccountId) (same : SameCluster clustering first second) :
      SameCluster clustering second first := by
    obtain ⟨cluster, one, two⟩ := same
    exact ⟨cluster, two, one⟩
  have operatorSymm (first second : AccountId) (same : SameOperator ledger first second) :
      SameOperator ledger second first := Eq.symm same
  unfold truePositives falsePositives falseNegatives
  rw [Nat.pos_iff_ne_zero, Ne, pairsWhere_eq_zero (fun first second both =>
      ⟨operatorSymm _ _ both.1, clusterSymm _ _ both.2⟩),
    pairsWhere_eq_zero (fun first second both =>
      ⟨fun same => both.1 (operatorSymm _ _ same), clusterSymm _ _ both.2⟩),
    pairsWhere_eq_zero (fun first second both =>
      ⟨operatorSymm _ _ both.1, fun same => both.2 (clusterSymm _ _ same)⟩)]
  simp only [not_forall, not_not, exists_prop]
  constructor
  · rintro ⟨⟨first, one, second, two, different, operator, _⟩, noFalse, noMissed⟩
    refine ⟨⟨first, one, second, two, different, operator⟩, fun x inX y inY apart => ?_⟩
    have neither := noFalse x inX y inY apart
    have linked := noMissed x inX y inY apart
    tauto
  · rintro ⟨⟨first, one, second, two, different, operator⟩, exact⟩
    refine ⟨⟨first, one, second, two, different, operator,
      (exact first one second two different).mpr operator⟩, ?_, ?_⟩
    · exact fun x inX y inY apart both => both.1 ((exact x inX y inY apart).mp both.2)
    · exact fun x inX y inY apart both => both.2 ((exact x inX y inY apart).mpr both.1)

/-- Scoring through the tables is scoring all pairs. Over a ledger whose sources have one label
each, and a clustering that covers the owned accounts: the tables count the true positives, and
the two subtractions leave the false positives and the false negatives without underflow; the
report is the formulas over these counts; and evaluated exactly, the F1 score is twice the true
positives over twice the true positives and the false ones, is one exactly for the operator
partition with a pair to find, and the purities are pooled fractions of at most one. -/
theorem evaluate_pairwise (labelled : LabelledBy label ledger.records)
    (covers : ∀ account ∈ attributedAccounts ledger, (clustering.clusterOf.lookup account).isSome)
    (order : HashOrder) (windowSecs : Int) :
    (∀ counts, confusion order (order.iterate [8, 0] ledger.ownership) clustering.clusterOf =
        some counts →
      counts.tp = truePositives ledger clustering ∧
        checkedSub counts.predPos counts.tp = some (falsePositives ledger clustering) ∧
        checkedSub counts.sameOpPairs counts.tp = some (falseNegatives ledger clustering)) ∧
    (∀ report, evaluate order ledger clustering windowSecs = some report →
      report.attributionF1 = f1Of F64.ofU64 (truePositives ledger clustering)
        (falsePositives ledger clustering) (falseNegatives ledger clustering) ∧
      (∃ bursts, burstGroups ledger.records = some bursts ∧
        report.burstPurity =
          pooledOf F64.ofU64 (purePairs ledger bursts) (sharedPairs ledger bursts)) ∧
      report.windowPurity =
        pooledOf F64.ofU64 (purePairs ledger (windowGroups ledger.records windowSecs))
          (sharedPairs ledger (windowGroups ledger.records windowSecs))) ∧
    f1Of exactly (truePositives ledger clustering) (falsePositives ledger clustering)
        (falseNegatives ledger clustering) =
      (if 0 < truePositives ledger clustering then
        2 * (truePositives ledger clustering : ℚ) / (2 * truePositives ledger clustering +
          falsePositives ledger clustering + falseNegatives ledger clustering)
      else 0) ∧
    (f1Of exactly (truePositives ledger clustering) (falsePositives ledger clustering)
        (falseNegatives ledger clustering) = 1 ↔
      (∃ first ∈ attributedAccounts ledger, ∃ second ∈ attributedAccounts ledger,
        first ≠ second ∧ SameOperator ledger first second) ∧
      ∀ first ∈ attributedAccounts ledger, ∀ second ∈ attributedAccounts ledger, first ≠ second →
        (SameCluster clustering first second ↔ SameOperator ledger first second)) ∧
    (∀ groups : List (List TxRecord),
      pooledOf exactly (purePairs ledger groups) (sharedPairs ledger groups) =
        (if sharedPairs ledger groups = 0 then 1
        else (purePairs ledger groups : ℚ) / sharedPairs ledger groups) ∧
      pooledOf exactly (purePairs ledger groups) (sharedPairs ledger groups) ≤ 1) := by
  have subtractions (counts : Confusion) (counted : confusion order
      (order.iterate [8, 0] ledger.ownership) clustering.clusterOf = some counts) :
      counts.tp = truePositives ledger clustering ∧
        checkedSub counts.predPos counts.tp = some (falsePositives ledger clustering) ∧
        checkedSub counts.sameOpPairs counts.tp = some (falseNegatives ledger clustering) := by
    obtain ⟨tp, predPos, sameOpPairs⟩ := confusion_pairwise covers counted
    unfold checkedSub
    rw [tp, predPos, sameOpPairs, if_pos (Nat.le_add_right _ _), if_pos (Nat.le_add_right _ _),
      Nat.add_sub_cancel_left, Nat.add_sub_cancel_left]
    exact ⟨rfl, rfl, rfl⟩
  refine ⟨subtractions, fun report scored => ?_, f1Of_exactly _ _ _,
    (f1Of_exactly_eq_one _ _ _).trans exact_partition_iff,
    fun groups => ⟨?_, pooledOf_exactly_le (purePairs_le ledger groups)⟩⟩
  · simp only [evaluate, Option.bind_eq_bind, Option.bind_eq_some_iff, Option.pure_def,
      Option.some_inj] at scored
    obtain ⟨counts, counted, fp, falsePositive, fn, falseNegative, predicted, predictedSum, actual,
      actualSum, bursts, grouped, burstPurity, burst, windowPurity, window, rfl⟩ := scored
    obtain ⟨tp, first, second⟩ := subtractions counts counted
    rw [first, Option.some_inj] at falsePositive
    rw [second, Option.some_inj] at falseNegative
    obtain ⟨_, rfl⟩ := checkedU64_eq_some.mp predictedSum
    obtain ⟨_, rfl⟩ := checkedU64_eq_some.mp actualSum
    refine ⟨?_, ⟨bursts, grouped,
      purity_eq labelled (fun _ member _ => mem_of_burstGroups grouped member) burst⟩,
      purity_eq labelled (fun _ member _ => mem_of_windowGroups member) window⟩
    rw [tp, ← falsePositive, ← falseNegative]
    rfl
  · unfold pooledOf exactly
    by_cases none : sharedPairs ledger groups = 0
    · rw [if_neg (by omega), if_pos none]
      norm_num
    · rw [if_pos (Nat.pos_of_ne_zero none), if_neg none]

end Reports

/-- Accounts 1 and 2 of one operator and account 3 of another. -/
def twoOperators : Ledger where
  records :=
    [⟨1, 1, 0, ⟨200⟩, ⟨1⟩, ⟨240⟩, 1, .transfer, some 0⟩,
      ⟨2, 2, 0, ⟨200⟩, ⟨2⟩, ⟨240⟩, 1, .transfer, some 0⟩,
      ⟨3, 3, 0, ⟨200⟩, ⟨3⟩, ⟨240⟩, 1, .transfer, some 1⟩]

/-- All three accounts in one cluster. -/
def lumped : Clustering where
  clusterOf := insertAll [(⟨1⟩, 0), (⟨2⟩, 0), (⟨3⟩, 0)]
  sizes := [3]

/-- One pair is found and two are wrong, which scores one half. -/
theorem evaluate_pairwise_lumped :
    f1Of exactly (truePositives twoOperators lumped) (falsePositives twoOperators lumped)
      (falseNegatives twoOperators lumped) = 1 / 2 := by
  have counts : truePositives twoOperators lumped = 1 ∧ falsePositives twoOperators lumped = 2 ∧
      falseNegatives twoOperators lumped = 0 := by decide
  rw [(@evaluate_pairwise (fun account => if account = ⟨3⟩ then some 1 else some 0) twoOperators
    lumped (by unfold LabelledBy; decide) (by decide) .asWritten 0).2.2.1, counts.1, counts.2.1,
    counts.2.2]
  norm_num

end AccountCooker
