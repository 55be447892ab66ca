/-
This file proves the laws of the two groupings of a ledger by time. Both sort
the records and cut the sorted list between neighbours.
-/

import Mathlib
import AccountCooker.Heuristics

namespace AccountCooker

/-! ### Bursts of rising timestamps -/

/-- Records none of which extends the one before it are bursts of their own. -/
theorem splitBy_singletons {Item : Type} (linked : Item → Item → Bool) {items : List Item}
    (apart : items.Pairwise (fun first second => linked first second = false)) :
    items.splitBy linked = items.map (fun item => [item]) := by
  induction items with
  | nil => rfl
  | cons item rest inductionHypothesis =>
    obtain ⟨here, later⟩ := List.pairwise_cons.mp apart
    have split := List.splitBy_append (r := linked) (l := [item]) (m := rest)
        (fun _ last y head => by
      rw [List.getLast?_singleton, Option.mem_some_iff] at last
      rw [← last]
      exact here y (List.mem_of_mem_head? head))
    rw [List.singleton_append] at split
    rw [split, inductionHypothesis later]
    rfl

theorem pairwise_of_mem_zip_tail {Item : Type} {related : Item → Item → Prop}
    {items : List Item} (pairwise : items.Pairwise related) (pair : Item × Item)
    (member : pair ∈ items.zip items.tail) : related pair.1 pair.2 := by
  induction items with
  | nil => exact absurd member (by simp)
  | cons item rest inductionHypothesis =>
    obtain ⟨here, later⟩ := List.pairwise_cons.mp pairwise
    cases rest with
    | nil => exact absurd member (by simp)
    | cons next more =>
      rw [List.tail_cons, List.zip_cons_cons, List.mem_cons] at member
      rcases member with rfl | inRest
      · exact here next List.mem_cons_self
      · exact inductionHypothesis later inRest

/-- Under rising slots and timestamps, every record is a burst of its own. -/
theorem burstGroups_singletons {records : List TxRecord}
    (slots : records.Pairwise (fun first second => first.slot ≤ second.slot))
    (strict : records.Pairwise (fun first second => first.ts < second.ts)) :
    burstGroups records = some (records.map (fun record => [record])) := by
  have sorted : records.insertionSort slotBefore = records := slots.insertionSort_eq
  have apart : records.Pairwise (fun first second => sameBurst first second = false) := by
    refine strict.imp (fun {first second} rises => ?_)
    unfold sameBurst
    rw [decide_eq_false (ne_of_gt rises), Bool.false_and]
  have safe : burstOverflow records = false := by
    unfold burstOverflow
    rw [List.any_eq_false]
    intro pair member
    have rises := pairwise_of_mem_zip_tail strict pair member
    rw [decide_eq_false (ne_of_gt rises), Bool.false_and]
    exact Bool.false_ne_true
  unfold burstGroups
  rw [sorted, safe, splitBy_singletons _ apart]
  rfl

/-! ### No overflow -/

/-- Neighbours of a sorted list without repeated keys have rising keys. -/
theorem sorted_slots_rise {records : List TxRecord} (distinct : (records.map (·.slot)).Nodup) :
    (records.insertionSort slotBefore).Pairwise (fun first second => first.slot < second.slot) := by
  have total : Std.Total slotBefore := ⟨fun first second => le_total first.slot second.slot⟩
  have transitive : IsTrans TxRecord slotBefore :=
    ⟨fun _ _ _ before after => Nat.le_trans before after⟩
  have sorted := List.pairwise_insertionSort slotBefore records
  have apart : ((records.insertionSort slotBefore).map (·.slot)).Nodup :=
    ((List.perm_insertionSort slotBefore records).map _).nodup_iff.mpr distinct
  exact (sorted.and (List.pairwise_map.mp apart)).imp
    (fun {_ _} both => lt_of_le_of_ne both.1 both.2)

/-- Bursts are computed without overflow on distinct slots. -/
theorem burstGroups_eq {records : List TxRecord} (distinct : (records.map (·.slot)).Nodup)
    (bounded : ∀ record ∈ records, record.slot ≤ u64Max) :
    burstGroups records = some ((records.insertionSort slotBefore).splitBy sameBurst) := by
  have safe : burstOverflow (records.insertionSort slotBefore) = false := by
    unfold burstOverflow
    rw [List.any_eq_false]
    intro pair member
    have rises := pairwise_of_mem_zip_tail (sorted_slots_rise distinct) pair member
    have inside := bounded pair.2 ((List.perm_insertionSort slotBefore records).mem_iff.mp
      (List.mem_of_mem_tail (List.of_mem_zip member).2))
    have below : pair.1.slot ≠ u64Max := by omega
    simp [below]
  unfold burstGroups
  rw [safe]
  rfl

end AccountCooker
