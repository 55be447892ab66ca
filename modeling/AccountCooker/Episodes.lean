/-
This file states what the destination-local co-payment weights are. Whatever
the order of the records and of the hash maps, the weight of a pair is the
number of episodes it shares, and the episodes of a destination depend on the
payments into it and on whether it signs at all, so that traffic elsewhere
leaves what it contributes alone.
-/

import Mathlib
import AccountCooker.Weights

namespace AccountCooker

open Collections

section Episodes

variable {cfg : AdversaryConfig} {records other : List TxRecord}

/-- A destination that does not sign contributes nothing. -/
theorem contributed_silent {dest : AccountId} (silent : dest ∉ signers records.toFinset) :
    contributed cfg records dest = [] := by
  have empty : paymentsInto cfg records dest = [] := by
    rw [List.eq_nil_iff_forall_not_mem]
    exact fun r member => silent (mem_paymentsInto.mp member).1
  unfold contributed
  rw [empty]
  rfl

/-- What a destination contributes depends on whether it signs and on the payments into it. -/
theorem count_contributed_congr {dest : AccountId}
    (active : dest ∈ signers other.toFinset ↔ dest ∈ signers records.toFinset)
    (payments : paymentsTo cfg other.toFinset dest = paymentsTo cfg records.toFinset dest)
    (first second : AccountId) :
    (contributed cfg other dest).count (first, second) =
      (contributed cfg records dest).count (first, second) := by
  by_cases signs : dest ∈ signers records.toFinset
  · rw [count_contributed cfg (active.mpr signs), count_contributed cfg signs, payments]
  · rw [contributed_silent signs, contributed_silent (fun also => signs (active.mp also))]

/-- A record into another destination leaves a destination that signed already, or still does
not, as it was. -/
theorem count_contributed_insert {dest : AccountId} {r : TxRecord} (elsewhere : r.dest ≠ dest)
    (notFirst : r.source = dest → dest ∈ signers records.toFinset)
    (perm : other.Perm (r :: records)) (first second : AccountId) :
    (contributed cfg other dest).count (first, second) =
      (contributed cfg records dest).count (first, second) := by
  have all : other.toFinset = insert r records.toFinset := by
    rw [List.toFinset_eq_of_perm _ _ perm, List.toFinset_cons]
  refine count_contributed_congr ?_ ?_ first second
  · rw [all, signers, Finset.image_insert, Finset.mem_insert]
    exact or_iff_right_of_imp (fun signs => notFirst signs.symm)
  · rw [all, paymentsTo, Finset.filter_insert, if_neg (fun paid => elsewhere paid.2)]
    rfl

/-- The weights of destination-local co-payment: a pair in order has the number of the episodes
of the destinations that sign which both its accounts pay in and which have no fewer and no more
distinct sources than the bounds, and no other pair has a weight; the order of the records does
not matter; and what a destination contributes to a weight is not changed by a record into
another one, unless it is the first the destination signs. -/
theorem windowedCopayEdges_exact (cfg : AdversaryConfig) (records : List TxRecord) :
    (∀ (order : HashOrder) (first second : AccountId),
      (windowedCopayEdges order records cfg).lookup (first, second) =
        if episodeCopayments cfg records.toFinset first second = 0 then none
        else some (episodeCopayments cfg records.toFinset first second)) ∧
    (∀ first second, episodeCopayments cfg records.toFinset first second =
      ∑ dest ∈ signers records.toFinset,
        ((chainClasses (WithinWindow cfg.windowSecs)
          (paymentsTo cfg records.toFinset dest)).filter (fun episode =>
            (first ∈ signers episode ∧ second ∈ signers episode ∧ first < second) ∧
              cfg.copayMinSources ≤ (signers episode).card ∧
                (signers episode).card ≤ cfg.burstMaxSources)).card) ∧
    (∀ (order reorder : HashOrder) (other : List TxRecord) (pair : AccountId × AccountId),
      other.Perm records → (windowedCopayEdges reorder other cfg).lookup pair =
        (windowedCopayEdges order records cfg).lookup pair) ∧
    (∀ (order : HashOrder) (pair : AccountId × AccountId),
      ((windowedCopayEdges order records cfg).lookup pair).getD 0 =
        ∑ dest ∈ signers records.toFinset, (contributed cfg records dest).count pair) ∧
    (∀ (dest : AccountId) (r : TxRecord) (other : List TxRecord) (pair : AccountId × AccountId),
      r.dest ≠ dest → (r.source = dest → ∃ s ∈ records, s.source = dest) →
        other.Perm (r :: records) →
          (contributed cfg other dest).count pair = (contributed cfg records dest).count pair) := by
  have weights (order : HashOrder) (records : List TxRecord) (first second : AccountId) :
      (windowedCopayEdges order records cfg).lookup (first, second) =
        if episodeCopayments cfg records.toFinset first second = 0 then none
        else some (episodeCopayments cfg records.toFinset first second) := by
    rw [windowedCopayEdges, lookup_tally_eq, count_windowedCopayEdges]
  refine ⟨fun order => weights order records, fun first second => ?_, ?_, ?_, ?_⟩
  · unfold episodeCopayments PairOf
    refine Finset.sum_congr rfl (fun dest _ => congrArg Finset.card
      (Finset.filter_congr (fun episode _ => ?_)))
    simp only [and_assoc]
  · intro order reorder other pair perm
    rw [weights, weights, List.toFinset_eq_of_perm _ _ perm]
  · intro order pair
    rw [← count_windowed_contributed order cfg records pair, windowedCopayEdges, lookup_tally_eq]
    split
    · rename_i never
      exact never.symm
    · rfl
  · intro dest r other pair elsewhere notFirst perm
    exact count_contributed_insert elsewhere (fun signs => mem_signers.mpr (by
      obtain ⟨s, member, source⟩ := notFirst signs
      exact ⟨s, List.mem_toFinset.mpr member, source⟩)) perm pair.1 pair.2

end Episodes

/-- Two sweeps of accounts 1 and 2 into account 9, which signs at the end. -/
def sweeps : List TxRecord :=
  [⟨2, 2, 119, ⟨202⟩, ⟨1⟩, ⟨9⟩, 1000000, .transfer, none⟩,
    ⟨3, 3, 121, ⟨203⟩, ⟨2⟩, ⟨9⟩, 1000000, .transfer, none⟩,
    ⟨4, 4, 1000, ⟨204⟩, ⟨1⟩, ⟨9⟩, 1000000, .transfer, none⟩,
    ⟨5, 5, 1002, ⟨205⟩, ⟨2⟩, ⟨9⟩, 1000000, .transfer, none⟩,
    ⟨6, 6, 2000, ⟨206⟩, ⟨9⟩, ⟨32⟩, 10000, .transfer, none⟩]

/-- Both sweeps are one episode each, with an unrelated payment in the ledger as without. -/
theorem windowedCopayEdges_exact_sweeps :
    (contributed (.windowed 120)
      (⟨1, 1, 0, ⟨201⟩, ⟨30⟩, ⟨31⟩, 1000000, .transfer, none⟩ :: sweeps) ⟨9⟩).count
        (⟨1⟩, ⟨2⟩) = 2 := by
  rw [(windowedCopayEdges_exact (.windowed 120) sweeps).2.2.2.2 ⟨9⟩
    ⟨1, 1, 0, ⟨201⟩, ⟨30⟩, ⟨31⟩, 1000000, .transfer, none⟩ _ (⟨1⟩, ⟨2⟩) (by decide) (by decide)
    (List.Perm.refl _)]
  decide

end AccountCooker
