/-
This file models the two groupings of a ledger as the adversary computes them,
groups of indices found by nested loops over a sorted list of indices, and
proves their laws: they are partitions, a window is a class of chained records
whatever the order of the ledger, a wider window only joins windows, and a burst
lies in one window and ends only where no record continues it.
-/

import Mathlib
import AccountCooker.Weights

namespace AccountCooker

open Collections

/-! ### Groups of indices -/

section Indices

variable (records : List TxRecord)

/-- `order.sort_by_key(|&i| records[i].slot)`. -/
def slotOrder : List (Fin records.length) :=
  (List.finRange records.length).insertionSort
    (fun i j => slotBefore (records.get i) (records.get j))

/-- `order.sort_by_key(|&i| (records[i].ts, records[i].slot, records[i].sig))`. -/
def timeOrder : List (Fin records.length) :=
  (List.finRange records.length).insertionSort
    (fun i j => timeBefore (records.get i) (records.get j))

/-- `records[order[i]].ts == ts0 && records[order[i]].slot == prev + 1`. -/
def burstContinues (first previous index : Fin records.length) : Bool :=
  (records.get index).ts = (records.get first).ts &&
    (records.get index).slot = (records.get previous).slot + 1

/-- Maximal runs of one timestamp with contiguous slots, as indices; `none` is an overflow
panic. -/
def burstIndices : Option (List (List (Fin records.length))) :=
  if burstOverflow ((slotOrder records).map records.get) then none
  else some (runsBy (burstContinues records) (slotOrder records))

/-- Chains of records, in order of time, whose gaps are at most the window, as indices. -/
def windowIndices (windowSecs : Int) : List (List (Fin records.length)) :=
  runsBy (fun _ previous index =>
    withinWindow windowSecs (records.get previous) (records.get index)) (timeOrder records)

/-- Every index is in exactly one group, and no group is empty. -/
structure Partitions (groups : List (List (Fin records.length))) : Prop where
  inhabited : [] ∉ groups
  once : groups.flatten.Perm (List.finRange records.length)

variable {records}

/-- Two indices are in one group. -/
def Together (groups : List (List (Fin records.length))) (i j : Fin records.length) : Prop :=
  ∃ group ∈ groups, i ∈ group ∧ j ∈ group

variable (records)

/-- Two records are linked by a chain of records, in order of time, with gaps within the
window. -/
def LinkedByChain (windowSecs : Int) (i j : Fin records.length) : Prop :=
  ∃ chain : List (Fin records.length), i ∈ chain ∧ j ∈ chain ∧ chain.IsChain (fun x y =>
    (records.get x).ts ≤ (records.get y).ts ∧
      saturatingI64 ((records.get y).ts - (records.get x).ts) ≤ max windowSecs 0)

/-- A run of one timestamp and contiguous slots that no record outside continues on either
side. -/
structure MaximalRun (group : List (Fin records.length)) : Prop where
  run : group.IsChain (fun i j => Continues (records.get i) (records.get j))
  maximal : ∀ i ∈ group, ∀ j, j ∉ group → ¬ Continues (records.get i) (records.get j) ∧
    ¬ Continues (records.get j) (records.get i)

/-- The groups as sets of records. -/
def recordSets (groups : List (List (Fin records.length))) : Finset (Finset TxRecord) :=
  (groups.map (fun group => (group.map records.get).toFinset)).toFinset

end Indices

/-! ### Splitting the order -/

section Orders

variable (records : List TxRecord)

theorem slotOrder_perm : (slotOrder records).Perm (List.finRange records.length) :=
  List.perm_insertionSort _ _

theorem timeOrder_perm : (timeOrder records).Perm (List.finRange records.length) :=
  List.perm_insertionSort _ _

theorem slotOrder_records :
    (slotOrder records).map records.get = records.insertionSort slotBefore := by
  unfold slotOrder
  rw [List.map_insertionSort _ slotBefore records.get _ (fun _ _ _ _ => Iff.rfl),
    List.map_get_finRange]

theorem timeOrder_records :
    (timeOrder records).map records.get = records.insertionSort timeBefore := by
  unfold timeOrder
  rw [List.map_insertionSort _ timeBefore records.get _ (fun _ _ _ _ => Iff.rfl),
    List.map_get_finRange]

/-- All records of a run have the timestamp of its first. -/
theorem burstRuns_eq : runsBy (burstContinues records) (slotOrder records) =
    (slotOrder records).splitBy (fun i j => sameBurst (records.get i) (records.get j)) := by
  refine runsBy_eq_splitBy (fun i j => (records.get i).ts = (records.get j).ts) (fun _ => rfl)
    (fun first previous index same => ?_) (fun first previous index same linked => ?_) _
  · unfold burstContinues sameBurst
    rw [same]
  · unfold sameBurst at linked
    rw [Bool.and_eq_true, decide_eq_true_eq] at linked
    exact same.trans linked.1.symm

theorem windowIndices_eq (windowSecs : Int) : windowIndices records windowSecs =
    (timeOrder records).splitBy
      (fun i j => withinWindow windowSecs (records.get i) (records.get j)) := by
  unfold windowIndices
  refine runsBy_eq_splitBy (fun _ _ => True) (fun _ => trivial) ?_ (fun _ _ _ _ _ => trivial) _
  exact fun _ _ _ _ => rfl

/-- The groups of indices are those of the records. -/
theorem burstIndices_records :
    (burstIndices records).map (List.map (List.map records.get)) = burstGroups records := by
  unfold burstIndices burstGroups
  rw [slotOrder_records, burstRuns_eq, ← slotOrder_records, splitBy_map]
  split <;> rfl

theorem windowIndices_records (windowSecs : Int) :
    (windowIndices records windowSecs).map (List.map records.get) =
      windowGroups records windowSecs := by
  unfold windowGroups
  rw [windowIndices_eq, ← timeOrder_records, splitBy_map]

theorem timeOrder_sorted : (timeOrder records).Pairwise
    (fun i j => (records.get i).ts ≤ (records.get j).ts) := by
  have sorted := timeBefore_sorted records
  rwa [← timeOrder_records, List.pairwise_map] at sorted

theorem slotOrder_rises (distinct : (records.map (·.slot)).Nodup) :
    (slotOrder records).Pairwise (fun i j => (records.get i).slot < (records.get j).slot) := by
  have rises := sorted_slots_rise distinct
  rwa [← slotOrder_records, List.pairwise_map] at rises

/-- Splitting an order of the indices partitions them. -/
theorem partitions_splitBy {order : List (Fin records.length)}
    (perm : order.Perm (List.finRange records.length))
    (linked : Fin records.length → Fin records.length → Bool) :
    Partitions records (order.splitBy linked) where
  inhabited := List.nil_notMem_splitBy linked order
  once := by rwa [List.flatten_splitBy]

theorem partitions_burstIndices {groups : List (List (Fin records.length))}
    (grouped : burstIndices records = some groups) : Partitions records groups := by
  unfold burstIndices at grouped
  split at grouped
  · exact nomatch grouped
  · rw [← Option.some.inj grouped, burstRuns_eq]
    exact partitions_splitBy records (slotOrder_perm records) _

theorem partitions_windowIndices (windowSecs : Int) :
    Partitions records (windowIndices records windowSecs) := by
  rw [windowIndices_eq]
  exact partitions_splitBy records (timeOrder_perm records) _

end Orders

/-! ### Laws of a partition -/

section Laws

variable {records : List TxRecord} {groups : List (List (Fin records.length))}

theorem Partitions.exists_group (partition : Partitions records groups)
    (i : Fin records.length) : ∃ group ∈ groups, i ∈ group :=
  List.mem_flatten.mp (partition.once.mem_iff.mpr (List.mem_finRange i))

/-- The groups hold every record once. -/
theorem Partitions.perm (partition : Partitions records groups) :
    (groups.map (List.map records.get)).flatten.Perm records := by
  have once := partition.once.map records.get
  rwa [List.map_flatten, List.map_get_finRange] at once

theorem burstGroups_perm {bursts : List (List TxRecord)}
    (grouped : burstGroups records = some bursts) : bursts.flatten.Perm records := by
  rw [← burstIndices_records] at grouped
  obtain ⟨indices, computed, rfl⟩ := Option.map_eq_some_iff.mp grouped
  exact (partitions_burstIndices records computed).perm

theorem windowGroups_perm (records : List TxRecord) (windowSecs : Int) :
    (windowGroups records windowSecs).flatten.Perm records := by
  rw [← windowIndices_records]
  exact (partitions_windowIndices records windowSecs).perm

/-- Two groups that share an index are one. -/
theorem Partitions.unique (partition : Partitions records groups)
    {group other : List (Fin records.length)} (member : group ∈ groups) (inGroups : other ∈ groups)
    {i : Fin records.length} (one : i ∈ group) (two : i ∈ other) : group = other := by
  by_contra different
  have nodup := partition.once.nodup_iff.mpr (List.nodup_finRange records.length)
  have symmetric : Std.Symm (@List.Disjoint (Fin records.length)) :=
    ⟨fun _ _ => List.Disjoint.symm⟩
  exact (List.nodup_flatten.mp nodup).2.forall member inGroups different one two

/-- A partition whose groups are joined more coarsely contains the groups of a finer one. -/
theorem Partitions.coarser {larger : List (List (Fin records.length))}
    (fine : Partitions records groups) (coarse : Partitions records larger)
    (joined : ∀ i j, Together groups i j → Together larger i j)
    {group : List (Fin records.length)} (member : group ∈ groups) :
    ∃ other ∈ larger, group ⊆ other := by
  obtain ⟨i, inside⟩ := List.exists_mem_of_ne_nil group
    (fun empty => fine.inhabited (empty ▸ member))
  obtain ⟨other, inLarger, one⟩ := coarse.exists_group i
  refine ⟨other, inLarger, fun j inGroup => ?_⟩
  obtain ⟨shared, inShared, first, second⟩ := joined i j ⟨group, member, inside, inGroup⟩
  rwa [coarse.unique inLarger inShared one first]

variable (records)

/-- Two records are in one window exactly when a chain links them. -/
theorem together_windowIndices (windowSecs : Int) (i j : Fin records.length) :
    Together (windowIndices records windowSecs) i j ↔ LinkedByChain records windowSecs i j := by
  have cuts := (cuts_window windowSecs).comap records.get
  have sorted := timeOrder_sorted records
  have disjoint := splitBy_disjoint
    (fun i j => withinWindow windowSecs (records.get i) (records.get j))
    ((timeOrder_perm records).nodup_iff.mpr (List.nodup_finRange records.length))
  have inOrder (k : Fin records.length) : k ∈ timeOrder records :=
    (timeOrder_perm records).mem_iff.mpr (List.mem_finRange k)
  unfold Together
  rw [windowIndices_eq]
  constructor
  · rintro ⟨group, member, one, other⟩
    have within : group.Sublist (timeOrder records) := by
      rw [← List.flatten_splitBy (fun i j =>
        withinWindow windowSecs (records.get i) (records.get j)) (timeOrder records)]
      exact List.sublist_flatten_of_mem member
    have rises := (sorted.sublist within).isChain
    have near := List.isChain_of_mem_splitBy member
    exact ⟨group, one, other, List.isChain_iff_getElem.mpr (fun index bound =>
      ⟨rises.getElem index bound, of_decide_eq_true (near.getElem index bound)⟩)⟩
  · rintro ⟨chain, one, other, near⟩
    refine (together_iff cuts sorted disjoint (inOrder i)).mpr ⟨inOrder j, ?_⟩
    have transitive : IsTrans (Fin records.length)
        (fun x y => (records.get x).ts ≤ (records.get y).ts) :=
      ⟨fun _ _ _ => le_trans⟩
    have rises : chain.Pairwise (fun x y => (records.get x).ts ≤ (records.get y).ts) :=
      (near.imp fun x y gap => gap.1).pairwise
    exact cuts.chained rises (near.imp fun x y gap => decide_eq_true gap.2)
      (fun k _ => List.mem_toFinset.mpr (inOrder k)) one other

/-- What never moves in time is at one time. -/
theorem ts_of_still {group : List (Fin records.length)}
    (still : group.IsChain (fun x y => (records.get x).ts = (records.get y).ts))
    {i j : Fin records.length} (one : i ∈ group) (other : j ∈ group) :
    (records.get i).ts = (records.get j).ts := by
  have transitive : IsTrans (Fin records.length)
      (fun x y => (records.get x).ts = (records.get y).ts) := ⟨fun _ _ _ => Eq.trans⟩
  have symmetric : Std.Symm (fun x y : Fin records.length =>
      (records.get x).ts = (records.get y).ts) := ⟨fun _ _ => Eq.symm⟩
  exact List.Pairwise.forall_of_forall
    (R := fun x y => (records.get x).ts = (records.get y).ts) (fun _ _ => rfl) still.pairwise
    one other

/-- A chain without gaps stays at one time. -/
theorem linkedByChain_zero (i j : Fin records.length) :
    LinkedByChain records 0 i j ↔ (records.get i).ts = (records.get j).ts := by
  constructor
  · rintro ⟨chain, one, other, near⟩
    have still : chain.IsChain (fun x y => (records.get x).ts = (records.get y).ts) := by
      refine near.imp (fun x y gap => le_antisymm gap.1 ?_)
      rcases (saturatingI64_le (le_max_right 0 0)).mp gap.2 with small | impossible
      · exact sub_nonpos.mp small
      · exact absurd impossible (by decide)
    exact ts_of_still records still one other
  · intro same
    refine ⟨[i, j], by simp, by simp, List.isChain_pair.mpr ⟨same.le, ?_⟩⟩
    rw [same, sub_self]
    exact le_max_right _ _

/-- A wider window keeps every chain. -/
theorem LinkedByChain.widen {narrow wide : Int} (wider : narrow ≤ wide)
    {i j : Fin records.length} (linked : LinkedByChain records narrow i j) :
    LinkedByChain records wide i j := by
  obtain ⟨chain, one, other, near⟩ := linked
  exact ⟨chain, one, other,
    near.imp (fun _ _ gap => ⟨gap.1, gap.2.trans (max_le_max_right 0 wider)⟩)⟩

open Classical in
/-- As sets of records the windows are the classes of the records that chains join. -/
theorem recordSets_windowIndices (windowSecs : Int) :
    recordSets records (windowIndices records windowSecs) =
      chainClasses (WithinWindow windowSecs) records.toFinset := by
  have classes := splitBy_classes (cuts_window windowSecs) (timeBefore_sorted records)
    (windowGroups_disjoint records windowSecs)
  rw [List.toFinset_eq_of_perm _ _ (List.perm_insertionSort timeBefore records)] at classes
  rw [← classes]
  unfold recordSets
  show _ = ((windowGroups records windowSecs).map List.toFinset).toFinset
  rw [← windowIndices_records, List.map_map]
  congr

/-- All records of a burst have one timestamp. -/
theorem ts_of_run {group : List (Fin records.length)}
    (member : group ∈ runsBy (burstContinues records) (slotOrder records))
    {i j : Fin records.length} (one : i ∈ group) (other : j ∈ group) :
    (records.get i).ts = (records.get j).ts := by
  rw [burstRuns_eq] at member
  have still : group.IsChain (fun x y => (records.get x).ts = (records.get y).ts) := by
    refine (List.isChain_of_mem_splitBy member).imp (fun x y linked => ?_)
    unfold sameBurst at linked
    rw [Bool.and_eq_true, decide_eq_true_eq] at linked
    exact linked.1.symm
  exact ts_of_still records still one other

/-- With distinct slots, a burst is a maximal run. -/
theorem maximalRun_of_distinct (distinct : (records.map (·.slot)).Nodup)
    {group : List (Fin records.length)}
    (member : group ∈ runsBy (burstContinues records) (slotOrder records)) :
    MaximalRun records group := by
  rw [burstRuns_eq] at member
  have partition := partitions_splitBy records (slotOrder_perm records)
    (fun i j => sameBurst (records.get i) (records.get j))
  have apart := (cuts_burst.comap records.get).apart partition.inhabited
    (by rw [List.flatten_splitBy]; exact slotOrder_rises records distinct)
    (List.isChain_getLast_head_splitBy
      (fun i j => sameBurst (records.get i) (records.get j)) _)
  refine ⟨(List.isChain_of_mem_splitBy member).imp (fun i j linked => ?_),
    fun i inside j outside => ?_⟩
  · unfold sameBurst at linked
    rw [Bool.and_eq_true, decide_eq_true_eq, decide_eq_true_eq] at linked
    exact linked
  · obtain ⟨other, inGroups, within⟩ := partition.exists_group j
    have symmetric : Std.Symm (fun group other : List (Fin records.length) =>
        ∀ u ∈ group, ∀ v ∈ other, ¬ Continues (records.get u) (records.get v) ∧
          ¬ Continues (records.get v) (records.get u)) :=
      ⟨fun _ _ far u inOther v inGroup => (far v inGroup u inOther).symm⟩
    exact apart.forall member inGroups (fun same => outside (same ▸ within)) i inside j within

/-- Slots below the largest leave room for the next. -/
theorem burstIndices_eq (bounded : ∀ r ∈ records, r.slot < u64Max) :
    burstIndices records = some (runsBy (burstContinues records) (slotOrder records)) := by
  have safe : burstOverflow ((slotOrder records).map records.get) = false := by
    unfold burstOverflow
    rw [List.any_eq_false]
    rintro ⟨previous, next⟩ member
    obtain ⟨i, _, rfl⟩ := List.mem_map.mp (List.of_mem_zip member).1
    have below := bounded _ (List.get_mem records i)
    rw [Bool.and_eq_true, decide_eq_true_eq, decide_eq_true_eq]
    exact fun both => below.ne both.2
  unfold burstIndices
  rw [safe]
  rfl

/-- The laws of the groupings: both partition the indices of the ledger; a window is what chains
within it link, whatever the order of the ledger, a wider window only joins groups, and the
window of nothing groups by timestamp; a burst lies in a group of that window, and with distinct
slots it is a maximal run. -/
theorem grouping_laws (records : List TxRecord) (bounded : ∀ r ∈ records, r.slot < u64Max) :
    ∃ bursts, burstIndices records = some bursts ∧ Partitions records bursts ∧
      (∀ windowSecs, Partitions records (windowIndices records windowSecs)) ∧
      (∀ windowSecs i j, Together (windowIndices records windowSecs) i j ↔
        LinkedByChain records windowSecs i j) ∧
      (∀ windowSecs others, others.Perm records →
        recordSets others (windowIndices others windowSecs) =
          recordSets records (windowIndices records windowSecs)) ∧
      (∀ narrow wide, narrow ≤ wide → ∀ group ∈ windowIndices records narrow,
        ∃ larger ∈ windowIndices records wide, group ⊆ larger) ∧
      (∀ i j, Together (windowIndices records 0) i j ↔
        (records.get i).ts = (records.get j).ts) ∧
      (∀ group ∈ bursts, ∃ larger ∈ windowIndices records 0, group ⊆ larger) ∧
      ((records.map (·.slot)).Nodup → ∀ group ∈ bursts, MaximalRun records group) := by
  have windows := partitions_windowIndices records
  have bursts := partitions_burstIndices records (burstIndices_eq records bounded)
  have still (i j : Fin records.length) : Together (windowIndices records 0) i j ↔
      (records.get i).ts = (records.get j).ts :=
    (together_windowIndices records 0 i j).trans (linkedByChain_zero records i j)
  refine ⟨_, burstIndices_eq records bounded, bursts, windows, together_windowIndices records,
    fun windowSecs others perm => ?_, fun narrow wide wider group member => ?_, still,
    fun group member => ?_, fun distinct group member =>
      maximalRun_of_distinct records distinct member⟩
  · rw [recordSets_windowIndices, recordSets_windowIndices, List.toFinset_eq_of_perm _ _ perm]
  · refine (windows narrow).coarser (windows wide) (fun i j together => ?_) member
    rw [together_windowIndices] at together ⊢
    exact together.widen records wider
  · refine bursts.coarser (windows 0) (fun i j together => (still i j).mpr ?_) member
    obtain ⟨burst, inBursts, one, other⟩ := together
    exact ts_of_run records inBursts one other

/-- Three records, the later two of which are within a minute of each other. -/
def boundaryRecords : List TxRecord :=
  [⟨1, 1, 0, ⟨0⟩, ⟨0⟩, ⟨0⟩, 0, .transfer, none⟩, ⟨2, 2, 70, ⟨0⟩, ⟨0⟩, ⟨0⟩, 0, .transfer, none⟩,
    ⟨3, 3, 130, ⟨0⟩, ⟨0⟩, ⟨0⟩, 0, .transfer, none⟩]

theorem grouping_laws_boundaryRecords :
    ∃ bursts, burstIndices boundaryRecords = some bursts ∧
      (∀ group ∈ bursts, MaximalRun boundaryRecords group) ∧
      Together (windowIndices boundaryRecords 60) ⟨1, by decide⟩ ⟨2, by decide⟩ ∧
      ¬ Together (windowIndices boundaryRecords 0) ⟨1, by decide⟩ ⟨2, by decide⟩ := by
  obtain ⟨bursts, computed, _, _, linked, _, _, still, _, maximal⟩ :=
    grouping_laws boundaryRecords (by decide)
  refine ⟨bursts, computed, maximal (by decide), (linked 60 _ _).mpr ?_, fun together =>
    absurd ((still _ _).mp together) (by decide)⟩
  exact ⟨[⟨1, by decide⟩, ⟨2, by decide⟩], by simp, by simp, by decide⟩

end Laws

end AccountCooker
