/-
This file says on which ledgers the analysis runs to completion. Four places
compute with the numbers of a ledger without a guard: the slot after the last
record of a burst, the end of a peel window, the indexed range of that window,
which ends before it starts when the window is negative, and the spans of two
accounts taken together. Each is in range exactly under a condition on the
records, and nothing else can fail before the counts of pairs do.

Those counts fit into their integers for every ledger of fewer than 2 ^ 32
records: the pairs of a table are pairs of owned accounts, those of the groups
are pairs of records, and an edge weighs at most the number of records.
-/

import Mathlib
import AccountCooker.Evidence
import AccountCooker.Attribution
import AccountCooker.Partition

namespace AccountCooker

open Collections

/-! ### Peel windows -/

theorem isSome_mapM {Item Result : Type} {items : List Item} {compute : Item → Option Result} :
    (∃ results, items.mapM compute = some results) ↔
      ∀ item ∈ items, ∃ result, compute item = some result := by
  constructor
  · rintro ⟨results, computed⟩ item member
    obtain ⟨result, _, found⟩ := forall₂_exists_right (forall₂_mapM computed) item member
    exact ⟨result, found⟩
  · intro each
    induction items with
    | nil => exact ⟨[], rfl⟩
    | cons item rest inductionHypothesis =>
      obtain ⟨result, computed⟩ := each item List.mem_cons_self
      obtain ⟨results, mapped⟩ :=
        inductionHypothesis (fun other member => each other (List.mem_cons_of_mem _ member))
      exact ⟨result :: results, by rw [List.mapM_cons, computed, mapped]; rfl⟩

/-- The records before a time, in a bucket in order of time. -/
theorem takeWhile_lt_eq_filter {bucket : List Outgoing} (low : Int)
    (sorted : bucket.Pairwise (fun first second => first.ts ≤ second.ts)) :
    bucket.takeWhile (fun b => b.ts < low) = bucket.filter (fun b => b.ts < low) := by
  have same : (fun b : Outgoing => decide (b.ts < low)) = fun b => decide (b.ts ≤ low - 1) := by
    funext b
    exact decide_eq_decide.mpr Int.le_sub_one_iff.symm
  rw [same]
  exact takeWhile_le_eq_filter (low - 1) sorted

/-- The indexed range of a bucket is a range exactly when nothing lies between its ends the wrong
way round. -/
theorem slice_isSome {bucket : List Outgoing} {low high : Int}
    (sorted : bucket.Pairwise (fun first second => first.ts ≤ second.ts)) :
    (∃ range, slice bucket (partitionPoint (fun b => b.ts < low) bucket)
        (partitionPoint (fun b => b.ts ≤ high) bucket) = some range) ↔
      ∀ b ∈ bucket, b.ts ≤ high ∨ low ≤ b.ts := by
  have ranged : (∃ range, slice bucket (partitionPoint (fun b => b.ts < low) bucket)
        (partitionPoint (fun b => b.ts ≤ high) bucket) = some range) ↔
      (bucket.takeWhile (fun b => b.ts < low)).length ≤
        (bucket.takeWhile (fun b => b.ts ≤ high)).length := by
    unfold slice partitionPoint
    split
    · rename_i ordered
      exact ⟨fun _ => ordered, fun _ => ⟨_, rfl⟩⟩
    · rename_i crossed
      exact ⟨fun ⟨_, impossible⟩ => absurd impossible (by simp),
        fun ordered => absurd ordered crossed⟩
  rw [ranged]
  constructor
  · intro shorter b member
    by_contra between
    rw [not_or, not_le, not_le] at between
    have early : b ∈ bucket.takeWhile (fun b => b.ts < low) := by
      rw [takeWhile_lt_eq_filter low sorted]
      exact List.mem_filter.mpr ⟨member, decide_eq_true between.2⟩
    have within := (List.prefix_of_prefix_length_le (List.takeWhile_prefix _)
      (List.takeWhile_prefix _) shorter).subset early
    have bounded : decide (b.ts ≤ high) = true :=
      List.mem_takeWhile_imp (p := fun b : Outgoing => decide (b.ts ≤ high)) within
    exact absurd (of_decide_eq_true bounded) (not_le.mpr between.1)
  · intro inRange
    rw [takeWhile_lt_eq_filter low sorted, takeWhile_le_eq_filter high sorted,
      ← List.countP_eq_length_filter, ← List.countP_eq_length_filter]
    refine List.countP_mono_left (fun b member early => ?_)
    exact decide_eq_true ((inRange b member).resolve_right (not_le.mpr (of_decide_eq_true early)))

/-- The window after every transfer whose destination sends value is in range, and no transfer of
the destination lies inside a negative window. -/
def PeelsInRange (records : List TxRecord) (windowSecs : Int) : Prop :=
  ∀ a ∈ records, ∀ b ∈ records, MovesValue a → MovesValue b → b.source = a.dest →
    (i64Min ≤ a.ts + windowSecs ∧ a.ts + windowSecs ≤ i64Max) ∧
      (b.ts ≤ a.ts + windowSecs ∨ a.ts ≤ b.ts)

theorem outgoingBySource_occurs {txs : List TxRecord} {source : AccountId}
    {bucket : List Outgoing} (found : outgoingBySource txs source = some bucket) :
    ∃ r ∈ txs, r.source = source := by
  unfold outgoingBySource at found
  by_contra absent
  refine absurd found ?_
  rw [(lookup_collectLists_none _ source).mpr (fun occurs => absent ?_)]
  · simp
  · rw [List.map_map, List.mem_map] at occurs
    exact occurs

/-- One transfer is peeled on without a panic exactly when its window is in range. -/
theorem peels_isSome {records : List TxRecord} {windowSecs : Int} {toleranceBps : Nat}
    {a : TxRecord} :
    (∃ found, peels (valueTransfers records) windowSecs toleranceBps a = some found) ↔
      ∀ b ∈ records, MovesValue b → b.source = a.dest →
        (i64Min ≤ a.ts + windowSecs ∧ a.ts + windowSecs ≤ i64Max) ∧
          (b.ts ≤ a.ts + windowSecs ∨ a.ts ≤ b.ts) := by
  unfold peels
  rcases outgoingBySource_perm (valueTransfers records) a.dest with
    ⟨missing, none⟩ | ⟨_, bucket, found, sorted, perm⟩
  · rw [missing]
    refine ⟨fun _ b member moves source => ?_, fun _ => ⟨[], rfl⟩⟩
    exact absurd (decide_eq_true source)
      (List.filter_eq_nil_iff.mp none b (mem_valueTransfers.mpr ⟨member, moves⟩))
  · rw [found]
    have members (b : Outgoing) : b ∈ bucket ↔
        ∃ r ∈ valueTransfers records, r.source = a.dest ∧ r.outgoing = b := by
      rw [perm.mem_iff, List.mem_map]
      simp only [List.mem_filter, decide_eq_true_eq, and_assoc]
    have inBucket (b : TxRecord) (member : b ∈ records) (moves : MovesValue b)
        (source : b.source = a.dest) : b.outgoing ∈ bucket :=
      (members _).mpr ⟨b, mem_valueTransfers.mpr ⟨member, moves⟩, source, rfl⟩
    simp only [Option.bind_eq_bind, Option.bind_eq_some_iff, checkedI64_eq_some]
    constructor
    · rintro ⟨_, last, ⟨fits, rfl⟩, range, ranged, _⟩ b member moves source
      exact ⟨fits, (slice_isSome sorted).mp ⟨range, ranged⟩ _ (inBucket b member moves source)⟩
    · intro inRange
      obtain ⟨r, inTransfers, source⟩ := outgoingBySource_occurs found
      obtain ⟨member, moves⟩ := mem_valueTransfers.mp inTransfers
      have apart (b : Outgoing) (inBucket : b ∈ bucket) :
          b.ts ≤ a.ts + windowSecs ∨ a.ts ≤ b.ts := by
        obtain ⟨s, inTransfers, source, rfl⟩ := (members b).mp inBucket
        obtain ⟨member, moves⟩ := mem_valueTransfers.mp inTransfers
        exact (inRange s member moves source).2
      obtain ⟨range, ranged⟩ := (slice_isSome sorted).mpr apart
      exact ⟨_, _, ⟨(inRange r member moves source).1, rfl⟩, range, ranged, rfl⟩

/-- A traversal of the transfers by their peels succeeds exactly when their windows are in
range. -/
theorem mapM_peels_isSome {Result : Type} {records : List TxRecord} {windowSecs : Int}
    (toleranceBps : Nat) (link : TxRecord → List Outgoing → Result) :
    (∃ linked, (valueTransfers records).mapM (fun a => do
        let found ← peels (valueTransfers records) windowSecs toleranceBps a
        pure (link a found)) = some linked) ↔ PeelsInRange records windowSecs := by
  rw [isSome_mapM]
  have each (a : TxRecord) : (∃ result, (do
        let found ← peels (valueTransfers records) windowSecs toleranceBps a
        pure (link a found)) = some result) ↔
      ∃ found, peels (valueTransfers records) windowSecs toleranceBps a = some found := by
    simp only [Option.bind_eq_bind, Option.bind_eq_some_iff]
    exact ⟨fun ⟨_, found, peeled, _⟩ => ⟨found, peeled⟩,
      fun ⟨found, peeled⟩ => ⟨_, found, peeled, rfl⟩⟩
  constructor
  · intro succeeds a inA b inB movesA movesB source
    have peeled := (each a).mp (succeeds a (mem_valueTransfers.mpr ⟨inA, movesA⟩))
    exact peels_isSome.mp peeled b inB movesB source
  · intro inRange a inTransfers
    obtain ⟨inA, movesA⟩ := mem_valueTransfers.mp inTransfers
    exact (each a).mpr (peels_isSome.mpr
      (fun b inB movesB source => inRange a inA b inB movesA movesB source))

theorem temporalUnions_isSome {records : List TxRecord} {cfg : AdversaryConfig} :
    (∃ pairs, temporalUnions records cfg = some pairs) ↔
      PeelsInRange records cfg.temporalWindowSecs := by
  rw [← mapM_peels_isSome cfg.amountToleranceBps
    (fun a found => found.map (fun b => (a.source, b.dest)))]
  unfold temporalUnions
  simp only [Option.bind_eq_bind, Option.bind_eq_some_iff]
  exact ⟨fun ⟨_, linked, mapped, _⟩ => ⟨linked, mapped⟩,
    fun ⟨linked, mapped⟩ => ⟨_, linked, mapped, rfl⟩⟩

theorem peelPairs_isSome {records : List TxRecord} {cfg : MlConfig} :
    (∃ pairs, Features.peelPairs records cfg = some pairs) ↔
      PeelsInRange records cfg.temporalWindowSecs := by
  rw [← mapM_peels_isSome cfg.amountToleranceBps
    (fun r found => (found.filter (fun b => r.source ≠ b.dest)).map
      (fun b => pairKey r.source b.dest))]
  unfold Features.peelPairs
  simp only [Option.bind_eq_bind, Option.bind_eq_some_iff]
  exact ⟨fun ⟨_, linked, mapped, _⟩ => ⟨linked, mapped⟩,
    fun ⟨linked, mapped⟩ => ⟨_, linked, mapped, rfl⟩⟩

/-! ### Bursts -/

/-- No record at the last slot is followed, in slot order, by one of its timestamp. -/
def BurstsInRange (records : List TxRecord) : Prop :=
  ∀ pair ∈ (records.insertionSort slotBefore).zip (records.insertionSort slotBefore).tail,
    pair.2.ts = pair.1.ts → pair.1.slot ≠ u64Max

theorem burstGroups_isSome {records : List TxRecord} :
    (∃ groups, burstGroups records = some groups) ↔ BurstsInRange records := by
  have overflow : burstOverflow (records.insertionSort slotBefore) = true ↔
      ¬ BurstsInRange records := by
    unfold burstOverflow BurstsInRange
    rw [List.any_eq_true]
    simp only [Bool.and_eq_true, decide_eq_true_eq, not_forall, ne_eq, not_not, exists_prop]
  unfold burstGroups
  split
  · rename_i overflows
    exact ⟨fun ⟨_, impossible⟩ => absurd impossible (by simp),
      fun inRange => absurd inRange (overflow.mp overflows)⟩
  · rename_i fits
    exact ⟨fun _ => not_not.mp (mt overflow.mpr fits), fun _ => ⟨_, rfl⟩⟩

/-- The groups hold the records once each. -/
theorem sum_length_burstGroups {records : List TxRecord} {groups : List (List TxRecord)}
    (grouped : burstGroups records = some groups) :
    (groups.map List.length).sum = records.length := by
  rw [← List.length_flatten, (burstGroups_perm grouped).length_eq]

theorem sum_length_windowGroups (records : List TxRecord) (windowSecs : Int) :
    ((windowGroups records windowSecs).map List.length).sum = records.length := by
  rw [← List.length_flatten, (windowGroups_perm records windowSecs).length_eq]

/-! ### Counts of pairs -/

theorem ordered_pairs_le {count : Nat} (small : count < 2 ^ 32) :
    count * (count - 1) ≤ u64Max := by
  have product : count * (count - 1) ≤ (2 ^ 32 - 1) * (2 ^ 32 - 1) :=
    Nat.mul_le_mul (Nat.le_sub_one_of_lt small)
      ((Nat.sub_le _ _).trans (Nat.le_sub_one_of_lt small))
  exact product.trans (by decide)

theorem choose_two_le {count : Nat} (small : count < 2 ^ 32) : count.choose 2 ≤ u64Max := by
  rw [Nat.choose_two_right]
  exact (Nat.div_le_self _ _).trans (ordered_pairs_le small)

theorem c2_of_small {count : Nat} (small : count < 2 ^ 32) : c2 count = some (count.choose 2) := by
  rw [Nat.choose_two_right]
  unfold c2
  rw [checkedU64_eq_some.mpr ⟨ordered_pairs_le small, rfl⟩]
  rfl

/-- The pairs of two disjoint sets of items are pairs of their union. -/
theorem choose_two_add_le (first second : Nat) :
    first.choose 2 + second.choose 2 ≤ (first + second).choose 2 := by
  induction second with
  | zero => exact le_refl _
  | succ second inductionHypothesis =>
    have grown (count : Nat) : (count + 1).choose 2 = count + count.choose 2 := by
      rw [Nat.choose_succ_succ, Nat.choose_one_right]
    rw [grown, ← Nat.add_assoc first second 1, grown]
    omega

theorem agreeingPairs_le {Key : Type} [DecidableEq Key] (keys : List Key) :
    agreeingPairs keys ≤ keys.length.choose 2 := by
  induction keys with
  | nil => exact le_refl _
  | cons key rest inductionHypothesis =>
    rw [List.length_cons, Nat.choose_succ_succ, Nat.choose_one_right]
    exact Nat.add_le_add List.count_le_length inductionHypothesis

/-- Coarser keys agree on more pairs. -/
theorem agreeingPairs_mono {Item Key Other : Type} [DecidableEq Key] [DecidableEq Other]
    {items : List Item} {key : Item → Key} {other : Item → Other}
    (coarser : ∀ first second, key first = key second → other first = other second) :
    agreeingPairs (items.map key) ≤ agreeingPairs (items.map other) := by
  induction items with
  | nil => exact le_refl _
  | cons item rest inductionHypothesis =>
    have here : (rest.map key).count (key item) ≤ (rest.map other).count (other item) := by
      rw [List.count_eq_countP, List.count_eq_countP, List.countP_map, List.countP_map]
      refine List.countP_mono_left (fun second _ agrees => ?_)
      exact beq_iff_eq.mpr (coarser second item (beq_iff_eq.mp agrees))
    exact Nat.add_le_add here inductionHypothesis

/-- The pairs of a tally of fewer than 2 ^ 32 items can be counted. -/
theorem pairTotal_of_small {Key : Type} [DecidableEq Key] (order : HashOrder) (label : List Nat)
    {keys : List Key} (small : keys.length < 2 ^ 32) :
    pairTotal order label (tally keys) = some (agreeingPairs keys) := by
  have counted : (order.iterate label (tally keys)).mapM (fun entry => c2 entry.2) =
      some ((order.iterate label (tally keys)).map (fun entry => entry.2.choose 2)) := by
    refine mapM_some (fun entry member => c2_of_small ?_)
    rw [order.mem_iterate, lookup_tally] at member
    exact (member.1 ▸ List.count_le_length).trans_lt small
  have total : ((order.iterate label (tally keys)).map (fun entry => entry.2.choose 2)).sum =
      agreeingPairs keys := by
    rw [((iterate_tally_perm order label keys).map _).sum_eq, List.map_map,
      ← sum_choose_count keys keys.toFinset (Finset.Subset.refl _)]
    rfl
  unfold pairTotal
  rw [counted, ← total]
  refine sumU64_eq_some.mpr ⟨?_, rfl⟩
  rw [total]
  exact (agreeingPairs_le keys).trans (choose_two_le small)

/-! ### Purity -/

theorem signers_length (group : List TxRecord) (state : Signers) :
    (group.foldl signersStep state).operators.length ≤ state.operators.length + group.length := by
  induction group generalizing state with
  | nil => exact le_refl _
  | cons r rest inductionHypothesis =>
    have here : (signersStep state r).operators.length ≤ state.operators.length + 1 := by
      unfold signersStep
      split
      · split
        · exact Nat.le_succ _
        · rw [List.length_append, List.length_singleton]
      · exact Nat.le_succ _
    rw [List.foldl_cons, List.length_cons]
    exact (inductionHypothesis _).trans (by omega)

/-- One group: the pairs counted stay pairs of the records met. -/
theorem purityStep_of_small (order : HashOrder) (label : List Nat) {counted : Nat × Nat}
    {group : List TxRecord × Nat} {met : Nat} (pure : counted.1 ≤ counted.2)
    (within : counted.2 ≤ met.choose 2) (small : met + group.1.length < 2 ^ 32) :
    ∃ next, purityStep order label counted group = some next ∧ next.1 ≤ next.2 ∧
      next.2 ≤ (met + group.1.length).choose 2 := by
  have length : (group.1.foldl signersStep ⟨∅, []⟩).operators.length ≤ group.1.length := by
    have bound := signers_length group.1 ⟨∅, []⟩
    rwa [List.length_nil, Nat.zero_add] at bound
  have few : (group.1.foldl signersStep ⟨∅, []⟩).operators.length < 2 ^ 32 := by omega
  have agree := agreeingPairs_le (group.1.foldl signersStep ⟨∅, []⟩).operators
  have grown : counted.2 + (group.1.foldl signersStep ⟨∅, []⟩).operators.length.choose 2 ≤
      (met + group.1.length).choose 2 :=
    (Nat.add_le_add within (Nat.choose_le_choose 2 length)).trans (choose_two_add_le _ _)
  have bounded := grown.trans (choose_two_le small)
  refine ⟨(counted.1 + agreeingPairs (group.1.foldl signersStep ⟨∅, []⟩).operators,
    counted.2 + (group.1.foldl signersStep ⟨∅, []⟩).operators.length.choose 2), ?_,
    Nat.add_le_add pure agree, grown⟩
  unfold purityStep
  simp only [c2_of_small few, pairTotal_of_small order _ few, Option.bind_eq_bind, Option.bind_some]
  rw [checkedU64_eq_some.mpr ⟨bounded, rfl⟩,
    checkedU64_eq_some.mpr ⟨(Nat.add_le_add pure agree).trans bounded, rfl⟩]
  rfl

theorem purity_of_small (order : HashOrder) (label : List Nat) {groups : List (List TxRecord)}
    (small : (groups.map List.length).sum < 2 ^ 32) :
    ∃ share, purity order label groups = some share := by
  have run (rest : List (List TxRecord × Nat)) (counted : Nat × Nat) (met : Nat)
      (pure : counted.1 ≤ counted.2) (within : counted.2 ≤ met.choose 2)
      (fits : met + (rest.map (fun group => group.1.length)).sum < 2 ^ 32) :
      ∃ last, rest.foldlM (purityStep order label) counted = some last := by
    induction rest generalizing counted met with
    | nil => exact ⟨counted, rfl⟩
    | cons group rest inductionHypothesis =>
      rw [List.map_cons, List.sum_cons, ← Nat.add_assoc] at fits
      obtain ⟨next, stepped, pureNext, withinNext⟩ := purityStep_of_small order label pure within
        ((Nat.le_add_right _ _).trans_lt fits)
      obtain ⟨last, ran⟩ := inductionHypothesis next _ pureNext withinNext fits
      refine ⟨last, ?_⟩
      rw [List.foldlM_cons, stepped]
      exact ran
  have lengths : (groups.zipIdx.map (fun group => group.1.length)).sum =
      (groups.map List.length).sum := by
    have composed : (fun group : List TxRecord × Nat => group.1.length) =
        List.length ∘ Prod.fst := rfl
    rw [composed, ← List.map_map, List.zipIdx_map_fst]
  obtain ⟨last, ran⟩ := run groups.zipIdx (0, 0) 0 (le_refl _) (Nat.zero_le _)
    (by rwa [Nat.zero_add, lengths])
  unfold purity
  rw [ran]
  exact ⟨_, rfl⟩

/-! ### Scoring -/

theorem ownership_length_le (ledger : Ledger) :
    ledger.ownership.entries.length ≤ ledger.records.length := by
  have inside : ledger.ownership.keys ⊆ ledger.records.map (·.source) := by
    intro account member
    obtain ⟨operator, owned⟩ := Option.isSome_iff_exists.mp (AList.lookup_isSome.mpr member)
    obtain ⟨record, inRecords, rfl, _⟩ := Ledger.ownership_signed owned
    exact List.mem_map_of_mem inRecords
  have fewer := (List.subperm_of_subset ledger.ownership.keys_nodup inside).length_le
  rw [List.length_map] at fewer
  unfold AList.keys List.keys at fewer
  rwa [List.length_map] at fewer

/-- Scoring a ledger of fewer than 2 ^ 32 records fails on its bursts only. -/
theorem evaluate_of_small (order : HashOrder) {ledger : Ledger} (clustering : Clustering)
    (windowSecs : Int) (small : ledger.records.length < 2 ^ 32)
    (bursts : BurstsInRange ledger.records) :
    ∃ report, evaluate order ledger clustering windowSecs = some report := by
  obtain ⟨groups, grouped⟩ := burstGroups_isSome.mpr bursts
  obtain ⟨burstPurity, burstShare⟩ := purity_of_small order [8, 7]
    (by rwa [sum_length_burstGroups grouped])
  have windows : ((windowGroups ledger.records windowSecs).map List.length).sum < 2 ^ 32 := by
    rwa [sum_length_windowGroups]
  obtain ⟨windowPurity, windowShare⟩ := purity_of_small order [8, 8] windows
  have owners : (order.iterate [8, 0] ledger.ownership).length < 2 ^ 32 := by
    rw [(order.iterate_perm [8, 0] ledger.ownership).length_eq, List.length_map]
    exact (ownership_length_le ledger).trans_lt small
  have countable {Key : Type} [DecidableEq Key] (label : List Nat)
      (key : AccountId × AgentId → Key) :
      pairTotal order label (tally ((order.iterate [8, 0] ledger.ownership).map key)) =
        some (agreeingPairs ((order.iterate [8, 0] ledger.ownership).map key)) :=
    pairTotal_of_small order label (by rwa [List.length_map])
  have fits {Key : Type} [DecidableEq Key] (key : AccountId × AgentId → Key) :
      agreeingPairs ((order.iterate [8, 0] ledger.ownership).map key) ≤ u64Max := by
    refine (agreeingPairs_le _).trans (choose_two_le ?_)
    rwa [List.length_map]
  -- The pairs of a cell are pairs of its cluster and of its operator.
  have cellInCluster :
      agreeingPairs ((order.iterate [8, 0] ledger.ownership).map
          (fun owner => (owner.2, clustering.clusterOf.lookup owner.1))) ≤
        agreeingPairs ((order.iterate [8, 0] ledger.ownership).map
          (fun owner => clustering.clusterOf.lookup owner.1)) :=
    agreeingPairs_mono (fun _ _ agree => (Prod.mk.inj agree).2)
  have cellInOperator :
      agreeingPairs ((order.iterate [8, 0] ledger.ownership).map
          (fun owner => (owner.2, clustering.clusterOf.lookup owner.1))) ≤
        agreeingPairs ((order.iterate [8, 0] ledger.ownership).map (fun owner => owner.2)) :=
    agreeingPairs_mono (fun _ _ agree => (Prod.mk.inj agree).1)
  have clusterPairs := fits (fun owner => clustering.clusterOf.lookup owner.1)
  have operatorPairs := fits (fun owner => owner.2)
  unfold evaluate confusion
  simp only [countable, grouped, burstShare, windowShare, Option.bind_eq_bind, Option.bind_some,
    Option.pure_def]
  unfold checkedSub
  rw [if_pos cellInCluster, if_pos cellInOperator]
  simp only [Option.bind_some]
  rw [Nat.add_sub_cancel' cellInCluster, Nat.add_sub_cancel' cellInOperator,
    checkedU64_eq_some.mpr ⟨clusterPairs, rfl⟩, checkedU64_eq_some.mpr ⟨operatorPairs, rfl⟩]
  exact ⟨_, rfl⟩

/-! ### Edge weights -/

/-- `u32::MAX`. -/
def u32Max : Nat := 2 ^ 32 - 1

/-- What every item contributes at most bounds the count over all of them. -/
theorem count_flatMap_le {Item Entry : Type} [BEq Entry] {items : List Item}
    {entries : Item → List Entry} {entry : Entry} {bound : Item → Nat}
    (each : ∀ item ∈ items, (entries item).count entry ≤ bound item) :
    (items.flatMap entries).count entry ≤ (items.map bound).sum := by
  rw [List.count_flatMap]
  exact List.sum_le_sum each

/-- A bucket asks for a pair at most once, and not at all without sources. -/
theorem count_boundedPairs_le {low high : Nat} {sources : List AccountId}
    (sorted : sources.Pairwise (· < ·)) (pair : AccountId × AccountId) :
    (boundedPairs low high sources).count pair ≤ min 1 sources.length := by
  unfold boundedPairs
  split
  · exact Nat.zero_le _
  · refine Nat.le_min.mpr ⟨List.nodup_iff_count_le_one.mp (orderedPairs_nodup sorted) pair, ?_⟩
    cases sources with
    | nil => exact le_refl _
    | cons source rest =>
      exact (List.nodup_iff_count_le_one.mp (orderedPairs_nodup sorted) pair).trans
        (Nat.le_add_left _ _)

theorem sourcesOf_length_le (group : List TxRecord) :
    (sourcesOf group).length = 0 ∨ 1 ≤ group.length := by
  cases group with
  | nil => exact Or.inl rfl
  | cons r rest => exact Or.inr (Nat.le_add_left _ _)

theorem count_sourcesOf_le (low high : Nat) (group : List TxRecord)
    (pair : AccountId × AccountId) :
    (boundedPairs low high (sourcesOf group)).count pair ≤ group.length := by
  have once : (boundedPairs low high (sourcesOf group)).count pair ≤
      min 1 (sourcesOf group).length :=
    count_boundedPairs_le (BTreeMap.keys_sorted _) pair
  rcases sourcesOf_length_le group with none | some
  · exact (once.trans (min_le_right _ _)).trans (none.le.trans (Nat.zero_le _))
  · exact (once.trans (min_le_left _ _)).trans some

/-- The keys of collected sets are keys of the pairs. -/
theorem collectSets_length_le {Key Item : Type} [DecidableEq Key] [LinearOrder Item]
    (pairs : List (Key × Item)) : (collectSets pairs).entries.length ≤ pairs.length := by
  have inside : (collectSets pairs).keys ⊆ pairs.map Prod.fst := fun key member =>
    (collectSets_isSome pairs key).mp (AList.lookup_isSome.mpr member)
  have fewer := (List.subperm_of_subset (collectSets pairs).keys_nodup inside).length_le
  unfold AList.keys List.keys at fewer
  rwa [List.length_map, List.length_map] at fewer

/-- The collected lists hold the items once each. -/
theorem sum_length_collectLists {Key Item : Type} [DecidableEq Key] (order : HashOrder)
    (label : List Nat) (pairs : List (Key × Item)) :
    ((order.iterate label (collectLists pairs)).map (fun entry => entry.2.length)).sum =
      pairs.length := by
  have counted : ((order.iterate label (collectLists pairs)).map
      (fun entry => entry.2.length)).sum =
        ∑ key ∈ (pairs.map Prod.fst).toFinset, (pairs.map Prod.fst).count key := by
    refine HashOrder.sum_iterate order label _ (fun key items found => ?_)
      (fun key member missing => ?_)
    · obtain ⟨equal, some⟩ := (lookup_collectLists pairs key items).mp found
      refine ⟨List.mem_toFinset.mpr ?_, ?_⟩
      · by_contra absent
        rw [(lookup_collectLists_none pairs key).mpr absent] at found
        exact absurd found (by simp)
      · rw [← equal, List.length_map, List.count_eq_countP, List.countP_map,
          List.countP_eq_length_filter]
        exact congrArg List.length (List.filter_congr (fun pair _ => (beq_eq_decide _ _).symm))
    · exact absurd (List.mem_toFinset.mp member)
        ((lookup_collectLists_none pairs key).mp missing)
  rw [counted, List.sum_toFinset_count_eq_length, List.length_map]

/-- The edge counters stay within their integers: no pair weighs more than there are records. -/
theorem copayEdges_le (order : HashOrder) (groups : List (List TxRecord)) (cfg : AdversaryConfig)
    {pair : AccountId × AccountId} {weight : Nat}
    (found : (copayEdges order groups cfg).lookup pair = some weight) :
    weight ≤ (groups.map List.length).sum := by
  obtain ⟨rfl, _⟩ := (lookup_tally _ _ _).mp found
  have lengths : (groups.zipIdx.map (fun group => group.1.length)).sum =
      (groups.map List.length).sum := by
    have composed : (fun group : List TxRecord × Nat => group.1.length) =
        List.length ∘ Prod.fst := rfl
    rw [composed, ← List.map_map, List.zipIdx_map_fst]
  rw [← lengths]
  refine count_flatMap_le (fun group _ => ?_)
  have once : ((order.iterate [4, 0, group.2] (payersByDest cfg.copayMinAmount group.1)).flatMap
      (fun bucket => boundedPairs cfg.copayMinSources cfg.burstMaxSources bucket.2.keys)).count
        pair ≤ ((order.iterate [4, 0, group.2]
          (payersByDest cfg.copayMinAmount group.1)).map (fun _ => 1)).sum :=
    count_flatMap_le (fun bucket _ =>
      (count_boundedPairs_le bucket.2.keys_sorted pair).trans (min_le_left _ _))
  refine once.trans ?_
  rw [List.map_const', List.sum_replicate, smul_eq_mul, Nat.mul_one,
    (order.iterate_perm _ _).length_eq, List.length_map]
  refine (collectSets_length_le _).trans ?_
  rw [List.length_map]
  exact List.length_filter_le _ _

theorem windowedCopayEdges_le (order : HashOrder) (records : List TxRecord)
    (cfg : AdversaryConfig) {pair : AccountId × AccountId} {weight : Nat}
    (found : (windowedCopayEdges order records cfg).lookup pair = some weight) :
    weight ≤ records.length := by
  obtain ⟨rfl, _⟩ := (lookup_tally _ _ _).mp found
  have within : ((order.iterate [4, 1] (recordsByDest records cfg)).map
      (fun bucket => bucket.2.length)).sum ≤ records.length := by
    unfold recordsByDest
    rw [sum_length_collectLists, List.length_map]
    exact List.length_filter_le _ _
  refine (count_flatMap_le (fun bucket _ => ?_)).trans within
  rw [← sum_length_windowGroups bucket.2 cfg.windowSecs]
  exact count_flatMap_le (fun episode _ => count_sourcesOf_le _ _ episode pair)

theorem coactEdges_le (groups : List (List TxRecord)) (cfg : AdversaryConfig)
    {pair : AccountId × AccountId} {weight : Nat}
    (found : (coactEdges groups cfg).lookup pair = some weight) :
    weight ≤ (groups.map List.length).sum := by
  obtain ⟨rfl, _⟩ := (lookup_tally _ _ _).mp found
  refine count_flatMap_le (fun group _ => ?_)
  exact (count_sourcesOf_le _ _ _ pair).trans (List.length_filter_le _ _)

/-! ### Spans -/

/-- The span of an account that signs runs from its first record to its last. -/
theorem spanOf_spec (records : List TxRecord) (account : AccountId) :
    ((Features.spanOf records).lookup account = none ∧
      signingTimes records.toFinset account = ∅) ∨
    ∃ span, (Features.spanOf records).lookup account = some span ∧
      IsLeast (signingTimes records.toFinset account) span.1 ∧
      IsGreatest (signingTimes records.toFinset account) span.2 := by
  induction records using List.reverseRecOn with
  | nil =>
    refine Or.inl ⟨rfl, Set.eq_empty_iff_forall_notMem.mpr ?_⟩
    rintro ts ⟨r, member, _⟩
    exact absurd member (by simp)
  | append_singleton records last inductionHypothesis =>
    have unfolded : Features.spanOf (records ++ [last]) =
        update (Features.spanOf records) last.source (last.ts, last.ts)
          (fun e => (min e.1 last.ts, max e.2 last.ts)) := by
      unfold Features.spanOf
      rw [List.foldl_append]
      rfl
    rw [unfolded, update, signingTimes_concat]
    by_cases here : account = last.source
    · subst here
      rw [AList.lookup_insert, if_pos rfl]
      refine Or.inr ⟨_, rfl, ?_⟩
      rcases inductionHypothesis with ⟨missing, nothing⟩ | ⟨known, found, least, greatest⟩
      · rw [missing, nothing, Option.getD_none, min_self, max_self, insert_empty_eq]
        exact ⟨isLeast_singleton, isGreatest_singleton⟩
      · rw [found, Option.getD_some, min_comm, max_comm]
        exact ⟨least.insert last.ts, greatest.insert last.ts⟩
    · rw [AList.lookup_insert_ne here, if_neg here]
      exact inductionHypothesis

/-- The records of two owned accounts are nowhere further apart than an `i64` can tell. -/
def SpansInRange (ledger : Ledger) : Prop :=
  ∀ pair ∈ orderedPairs (ownedAccounts ledger), ∀ r ∈ ledger.records, ∀ s ∈ ledger.records,
    (r.source = pair.1 ∨ r.source = pair.2) → (s.source = pair.1 ∨ s.source = pair.2) →
      r.ts - s.ts ≤ i64Max

/-- The features of two accounts that sign can be computed exactly when their records are within
range of each other. -/
theorem vector_isSome [Libm] {features : Features} {records : List TxRecord} {a b : AccountId}
    (spans : features.span = Features.spanOf records)
    (signsA : (signingTimes records.toFinset a).Nonempty)
    (signsB : (signingTimes records.toFinset b).Nonempty) :
    (∃ x, features.vector a b = some x) ↔ ∀ r ∈ records, ∀ s ∈ records,
      (r.source = a ∨ r.source = b) → (s.source = a ∨ s.source = b) → r.ts - s.ts ≤ i64Max := by
  rcases spanOf_spec records a with ⟨_, nothing⟩ | ⟨spanA, foundA, leastA, greatestA⟩
  · exact absurd nothing signsA.ne_empty
  rcases spanOf_spec records b with ⟨_, nothing⟩ | ⟨spanB, foundB, leastB, greatestB⟩
  · exact absurd nothing signsB.ne_empty
  have orderedA : spanA.1 ≤ spanA.2 := leastA.2 greatestA.1
  have orderedB : spanB.1 ≤ spanB.2 := leastB.2 greatestB.1
  -- The difference that is taken last is the largest, and bounds the other from below.
  have whole : (∃ x, features.vector a b = some x) ↔
      max spanA.2 spanB.2 - min spanA.1 spanB.1 ≤ i64Max := by
    unfold Features.vector
    rw [spans, foundA, foundB]
    simp only [Option.getD_some, Option.bind_eq_bind, Option.bind_eq_some_iff, checkedI64_eq_some]
    constructor
    · rintro ⟨_, _, _, _, ⟨⟨_, fits⟩, rfl⟩, _⟩
      exact fits
    · intro fits
      refine ⟨_, _, ⟨⟨?_, ?_⟩, rfl⟩, _, ⟨⟨?_, fits⟩, rfl⟩, rfl⟩
      · unfold i64Min i64Max at *
        omega
      · unfold i64Min i64Max at *
        omega
      · unfold i64Min i64Max at *
        omega
  rw [whole]
  have between {r : TxRecord} (member : r ∈ records) (one : r.source = a ∨ r.source = b) :
      min spanA.1 spanB.1 ≤ r.ts ∧ r.ts ≤ max spanA.2 spanB.2 := by
    rcases one with source | source
    · have time : r.ts ∈ signingTimes records.toFinset a :=
        ⟨r, List.mem_toFinset.mpr member, source, rfl⟩
      exact ⟨(min_le_left _ _).trans (leastA.2 time), (greatestA.2 time).trans (le_max_left _ _)⟩
    · have time : r.ts ∈ signingTimes records.toFinset b :=
        ⟨r, List.mem_toFinset.mpr member, source, rfl⟩
      exact ⟨(min_le_right _ _).trans (leastB.2 time), (greatestB.2 time).trans (le_max_right _ _)⟩
  constructor
  · intro fits r inRecords s alsoIn signerR signerS
    have above := (between inRecords signerR).2
    have below := (between alsoIn signerS).1
    omega
  · intro inRange
    obtain ⟨lastA, inLastA, lastSourceA, lastTsA⟩ := greatestA.1
    obtain ⟨lastB, inLastB, lastSourceB, lastTsB⟩ := greatestB.1
    obtain ⟨firstA, inFirstA, firstSourceA, firstTsA⟩ := leastA.1
    obtain ⟨firstB, inFirstB, firstSourceB, firstTsB⟩ := leastB.1
    rw [List.mem_toFinset] at inLastA inLastB inFirstA inFirstB
    have aa := inRange lastA inLastA firstA inFirstA (Or.inl lastSourceA) (Or.inl firstSourceA)
    have ab := inRange lastA inLastA firstB inFirstB (Or.inl lastSourceA) (Or.inr firstSourceB)
    have ba := inRange lastB inLastB firstA inFirstA (Or.inr lastSourceB) (Or.inl firstSourceA)
    have bb := inRange lastB inLastB firstB inFirstB (Or.inr lastSourceB) (Or.inr firstSourceB)
    omega

/-! ### Running to completion -/

/-- What the analysis of a ledger asks of its numbers. -/
structure InRange (ledger : Ledger) (cfg : AdversaryConfig) (ml : MlConfig) : Prop where
  bursts : BurstsInRange ledger.records
  peels : cfg.useTemporalAmount = true → PeelsInRange ledger.records cfg.temporalWindowSecs
  features : PeelsInRange ledger.records ml.temporalWindowSecs
  spans : SpansInRange ledger

/-- The groups a clustering draws its edges from. -/
def Grouped (records : List TxRecord) (cfg : AdversaryConfig) (groups : List (List TxRecord)) :
    Prop :=
  groups = windowGroups records cfg.windowSecs ∨ burstGroups records = some groups

/-- The edge weights are `u32`. -/
def CountersFit (order : HashOrder) (records : List TxRecord) (cfg : AdversaryConfig) : Prop :=
  ∀ pair weight, ((∃ groups, Grouped records cfg groups ∧
      ((copayEdges order groups cfg).lookup pair = some weight ∨
        (coactEdges groups cfg).lookup pair = some weight)) ∨
    (windowedCopayEdges order records cfg).lookup pair = some weight) → weight ≤ u32Max

/-- The ledger is clustered and scored, its features are built, and the vector of every owned pair
is computed, all without a panic. -/
structure Completes [Libm] (order : HashOrder) (ledger : Ledger) (cfg : AdversaryConfig)
    (ml : MlConfig) : Prop where
  analyzed : ∃ result, analyze order ledger cfg = some result
  built : ∃ features, Features.build order ledger ml = some features ∧
    ∀ pair ∈ orderedPairs (ownedAccounts ledger), ∃ x, features.vector pair.1 pair.2 = some x
  counters : CountersFit order ledger.records cfg

theorem countersFit_of_small (order : HashOrder) {records : List TxRecord} (cfg : AdversaryConfig)
    (small : records.length < 2 ^ 32) : CountersFit order records cfg := by
  have within {weight : Nat} (bounded : weight ≤ records.length) : weight ≤ u32Max :=
    bounded.trans (Nat.le_sub_one_of_lt small)
  rintro pair weight (⟨groups, grouped, found⟩ | found)
  · have lengths : (groups.map List.length).sum = records.length := by
      rcases grouped with rfl | bursts
      · exact sum_length_windowGroups records cfg.windowSecs
      · exact sum_length_burstGroups bursts
    rw [← lengths] at within
    exact found.elim (fun copay => within (copayEdges_le order groups cfg copay))
      (fun coact => within (coactEdges_le groups cfg coact))
  · exact within (windowedCopayEdges_le order records cfg found)

/-- The unions are requested exactly when the bursts and the peel windows they use are in
range. -/
theorem requestedUnions_of_inRange (order : HashOrder) {records : List TxRecord}
    {cfg : AdversaryConfig} (bursts : BurstsInRange records)
    (peels : cfg.useTemporalAmount = true → PeelsInRange records cfg.temporalWindowSecs) :
    ∃ pairs, requestedUnions order records cfg = some pairs := by
  obtain ⟨groups, grouped⟩ := burstGroups_isSome.mpr bursts
  have temporal : ∃ pairs, (if cfg.useTemporalAmount then temporalUnions records cfg
      else some []) = some pairs := by
    split
    · rename_i enabled
      exact temporalUnions_isSome.mpr (peels enabled)
    · exact ⟨[], rfl⟩
  obtain ⟨pairs, linked⟩ := temporal
  unfold requestedUnions
  rw [linked, grouped]
  cases cfg.useWindowed <;> cases cfg.useBurstCoactivity <;> exact ⟨_, rfl⟩

theorem peels_of_requestedUnions {order : HashOrder} {records : List TxRecord}
    {cfg : AdversaryConfig} {pairs : List (AccountId × AccountId)}
    (requested : requestedUnions order records cfg = some pairs)
    (enabled : cfg.useTemporalAmount = true) :
    PeelsInRange records cfg.temporalWindowSecs := by
  unfold requestedUnions at requested
  rw [if_pos enabled, Option.bind_eq_bind, Option.bind_eq_some_iff] at requested
  obtain ⟨linked, temporal, _⟩ := requested
  exact temporalUnions_isSome.mp ⟨linked, temporal⟩

/-- The vectors of the owned pairs are computed exactly when their spans are in range. -/
theorem vectors_isSome [Libm] {ledger : Ledger} {features : Features}
    (spans : features.span = Features.spanOf ledger.records) :
    (∀ pair ∈ orderedPairs (ownedAccounts ledger), ∃ x, features.vector pair.1 pair.2 = some x) ↔
      SpansInRange ledger := by
  have signs {account : AccountId} (member : account ∈ ownedAccounts ledger) :
      (signingTimes ledger.records.toFinset account).Nonempty := by
    obtain ⟨operator, owned⟩ := mem_ownedAccounts.mp member
    obtain ⟨record, inRecords, source, _⟩ := Ledger.ownership_signed owned
    exact ⟨record.ts, record, List.mem_toFinset.mpr inRecords, source, rfl⟩
  refine forall₂_congr (fun pair inPairs => ?_)
  obtain ⟨inA, inB, _⟩ := (mem_orderedPairs (ownedAccounts_sorted ledger) pair.1 pair.2).mp inPairs
  exact vector_isSome spans (signs inA) (signs inB)

theorem build_span {order : HashOrder} {ledger : Ledger} {ml : MlConfig} {features : Features}
    (built : Features.build order ledger ml = some features) :
    BurstsInRange ledger.records ∧ PeelsInRange ledger.records ml.temporalWindowSecs ∧
      features.span = Features.spanOf ledger.records := by
  simp only [Features.build, Option.bind_eq_bind, Option.bind_eq_some_iff] at built
  obtain ⟨bursts, grouped, peeled, linked, equal⟩ := built
  refine ⟨burstGroups_isSome.mp ⟨bursts, grouped⟩, peelPairs_isSome.mp ⟨peeled, linked⟩, ?_⟩
  rw [← Option.some.inj equal]

/-- If the analysis runs to completion, the numbers of the ledger are in range; and if they are,
the analysis of fewer than 2 ^ 32 records runs to completion, whatever its configuration. -/
theorem analysis_completes [Libm] (order : HashOrder) (ledger : Ledger) (cfg : AdversaryConfig)
    (ml : MlConfig) :
    (Completes order ledger cfg ml → InRange ledger cfg ml) ∧
    (InRange ledger cfg ml ∧ ledger.records.length < 2 ^ 32 → Completes order ledger cfg ml) := by
  constructor
  · rintro ⟨⟨result, analyzed⟩, ⟨features, built, vectors⟩, _⟩
    obtain ⟨bursts, peels, spans⟩ := build_span built
    refine ⟨bursts, fun enabled => ?_, peels, (vectors_isSome spans).mp vectors⟩
    simp only [analyze, cluster, Option.bind_eq_bind, Option.bind_eq_some_iff] at analyzed
    obtain ⟨_, ⟨pairs, requested, _⟩, _⟩ := analyzed
    exact peels_of_requestedUnions requested enabled
  · rintro ⟨inRange, small⟩
    refine ⟨?_, ?_, countersFit_of_small order cfg small⟩
    · obtain ⟨pairs, requested⟩ := requestedUnions_of_inRange order inRange.bursts inRange.peels
      obtain ⟨report, scored⟩ := evaluate_of_small order (clusteringOf (Linked pairs) ledger)
        (if cfg.useWindowed then cfg.windowSecs else 0) small inRange.bursts
      refine ⟨(clusteringOf (Linked pairs) ledger, report), ?_⟩
      simp only [analyze, cluster_eq requested, scored, Option.bind_eq_bind, Option.bind_some]
      rfl
    · obtain ⟨bursts, grouped⟩ := burstGroups_isSome.mpr inRange.bursts
      obtain ⟨peeled, linked⟩ := peelPairs_isSome.mpr inRange.features
      obtain ⟨features, built⟩ : ∃ features, Features.build order ledger ml = some features := by
        simp only [Features.build, grouped, linked, Option.bind_eq_bind, Option.bind_some]
        exact ⟨_, rfl⟩
      exact ⟨features, built, (vectors_isSome (build_span built).2.2).mpr inRange.spans⟩

/-! ### Extreme ledgers -/

/-- A transfer of a labelled account. -/
def transferAt (source dest : Fin 256) (ts : Int) (slot : Nat) : TxRecord where
  sig := slot
  slot := slot
  ts := ts
  feePayer := ⟨⟨source.val, Counter.position_lt source⟩⟩
  source := ⟨⟨source.val, Counter.position_lt source⟩⟩
  dest := ⟨⟨dest.val, Counter.position_lt dest⟩⟩
  amount := 1
  kind := .transfer
  operator := some source.val

/-- Two records of one time at the last slot. -/
def lastSlots : Ledger := ⟨[transferAt 1 2 0 u64Max, transferAt 1 2 0 u64Max]⟩

/-- The last time of all, and a transfer out of its destination. -/
def lastTime : Ledger := ⟨[transferAt 1 2 i64Max 1, transferAt 2 3 0 2]⟩

/-- A transfer a little before one into its source. -/
def earlierTransfer : Ledger := ⟨[transferAt 1 2 100 1, transferAt 2 3 95 2]⟩

/-- Two accounts at the two ends of time. -/
def farApart : Ledger := ⟨[transferAt 1 3 i64Min 1, transferAt 2 3 i64Max 2]⟩

/-- The four ways out of range: the slot after the last, the end of a window after the last time, a
negative window around a transfer, and the span of all times. -/
theorem extreme_ledgers_panic :
    analyze HashOrder.asWritten lastSlots (AdversaryConfig.windowed 120) = none ∧
    analyze HashOrder.asWritten lastTime (AdversaryConfig.windowed 120) = none ∧
    analyze HashOrder.asWritten earlierTransfer
      { AdversaryConfig.windowed 120 with temporalWindowSecs := -10 } = none ∧
    (∃ features, Features.build HashOrder.asWritten farApart MlConfig.standard = some features ∧
      @Features.vector unevenLibm features ⟨1⟩ ⟨2⟩ = none) ∧
    ¬ ∀ (order : HashOrder) (ledger : Ledger) (cfg : AdversaryConfig) (ml : MlConfig),
      @Completes unevenLibm order ledger cfg ml := by
  have slots : analyze HashOrder.asWritten lastSlots (AdversaryConfig.windowed 120) = none :=
    Option.isNone_iff_eq_none.mp (by decide +kernel)
  have time : analyze HashOrder.asWritten lastTime (AdversaryConfig.windowed 120) = none :=
    Option.isNone_iff_eq_none.mp (by decide +kernel)
  have window : analyze HashOrder.asWritten earlierTransfer
      { AdversaryConfig.windowed 120 with temporalWindowSecs := -10 } = none :=
    Option.isNone_iff_eq_none.mp (by decide +kernel)
  have spans : ((Features.build HashOrder.asWritten farApart MlConfig.standard).any
      (fun features => (@Features.vector unevenLibm features ⟨1⟩ ⟨2⟩).isNone)) = true := by
    decide +kernel
  obtain ⟨features, built, panics⟩ := (Option.any_eq_true _ _).mp spans
  refine ⟨slots, time, window, ⟨features, built, Option.isNone_iff_eq_none.mp panics⟩, ?_⟩
  intro always
  obtain ⟨⟨result, analyzed⟩, _, _⟩ := always HashOrder.asWritten lastSlots
    (AdversaryConfig.windowed 120) MlConfig.standard
  rw [slots] at analyzed
  exact absurd analyzed (by simp)

/-- The uneven fleet is in range. -/
theorem analysis_completes_unevenFleet : @Completes unevenLibm HashOrder.asWritten
    (unevenFleet 7) (AdversaryConfig.windowed 120) MlConfig.standard := by
  have bursts : BurstsInRange (unevenFleet 7).records := by
    unfold BurstsInRange
    decide +kernel
  have peels : PeelsInRange (unevenFleet 7).records 120 := by
    unfold PeelsInRange MovesValue
    decide +kernel
  have spans : SpansInRange (unevenFleet 7) := by
    unfold SpansInRange
    decide +kernel
  exact (@analysis_completes unevenLibm HashOrder.asWritten (unevenFleet 7)
    (AdversaryConfig.windowed 120) MlConfig.standard).2
      ⟨⟨bursts, fun _ => peels, peels, spans⟩, by decide⟩

end AccountCooker
