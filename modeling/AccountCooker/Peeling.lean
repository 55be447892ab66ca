/-
This file proves that the indexed pass over the peel chains is the scan of all
pairs of records. The index holds the transfers of a source in order of time,
so that the two binary searches cut out those between two times; what is left
of the range is every record that sends on nearly what was sent. The heuristic
asks for the union of each such pair, and the features of the learned adversary
count each such pair once.
-/

import Mathlib
import AccountCooker.Evidence
import AccountCooker.Features

namespace AccountCooker

open Collections

/-! ### The weights of the features -/

/-- What a counter in floating point holds after adding one so many times. -/
def countUp : Nat → Float
  | 0 => 0.0
  | count + 1 => countUp count + 1.0

theorem foldl_countUp {Item : Type} (items : List Item) (start : Nat) :
    items.foldl (fun weight _ => weight + 1.0) (countUp start) =
      countUp (start + items.length) := by
  induction items generalizing start with
  | nil => rfl
  | cons item rest inductionHypothesis =>
    rw [List.foldl_cons, List.length_cons, Nat.add_comm rest.length, ← Nat.add_assoc]
    exact inductionHypothesis (start + 1)

/-- The weight of a key counts how often it comes; a key that never comes has none. -/
theorem lookup_weigh (keys : List (AccountId × AccountId)) (key : AccountId × AccountId) :
    (weigh keys).lookup key =
      if keys.count key = 0 then none else some (countUp (keys.count key)) := by
  unfold weigh
  rw [lookup_gather, ← length_filter_units keys key]
  by_cases never : keys.count key = 0
  · rw [if_neg (fun member => (mem_units keys key).mp member never),
      if_pos ((length_filter_units keys key).trans never)]
  · rw [if_pos ((mem_units keys key).mpr never),
      if_neg (fun zero => never ((length_filter_units keys key).symm.trans zero))]
    refine congrArg some ((foldl_countUp _ 0).trans ?_)
    rw [Nat.zero_add]

/-! ### Pairs of records -/

section Pairs

variable {records : List TxRecord} {windowSecs : Int}

/-- The pairs of records that the features count under a key. -/
def peelCount (records : List TxRecord) (cfg : MlConfig) (key : AccountId × AccountId) : Nat :=
  (records ×ˢ records).countP (fun pair =>
    PeeledBy cfg.temporalWindowSecs cfg.amountToleranceBps pair.1 pair.2 ∧
      pair.1.source ≠ pair.2.dest ∧ pairKey pair.1.source pair.2.dest = key)

/-- Adding up over the transfers of value is adding up over all records, where nothing else
counts. -/
theorem sum_valueTransfers (records : List TxRecord) {weight : TxRecord → Nat}
    (nothing : ∀ r, ¬ MovesValue r → weight r = 0) :
    ((valueTransfers records).map weight).sum = (records.map weight).sum := by
  induction records with
  | nil => rfl
  | cons r rest inductionHypothesis =>
    rw [List.map_cons, List.sum_cons, ← inductionHypothesis]
    by_cases moves : MovesValue r
    · have kept : valueTransfers (r :: rest) = r :: valueTransfers rest :=
        List.filter_cons_of_pos (by simpa [MovesValue] using moves)
      rw [kept, List.map_cons, List.sum_cons]
    · have dropped : valueTransfers (r :: rest) = valueTransfers rest :=
        List.filter_cons_of_neg (by simpa [MovesValue] using moves)
      rw [dropped, nothing r moves, Nat.zero_add]

/-- The features hand each such pair to the counter once. -/
theorem count_peelPairs {cfg : MlConfig} (window : 0 ≤ cfg.temporalWindowSecs)
    (fits : WindowFits cfg.temporalWindowSecs records) :
    ∃ pairs, Features.peelPairs records cfg = some pairs ∧
      ∀ key, pairs.count key = peelCount records cfg key := by
  obtain ⟨found, mapped, exact⟩ := peels_flatten cfg.amountToleranceBps window fits
    (fun a peeled => (peeled.filter (fun b => a.source ≠ b.dest)).map
      (fun b => pairKey a.source b.dest))
  refine ⟨_, (congrArg (Option.bind · _) mapped).trans rfl, fun key => ?_⟩
  have each (a : TxRecord) (transfer : a ∈ valueTransfers records) :
      (((found a).filter (fun b => a.source ≠ b.dest)).map
        (fun b => pairKey a.source b.dest)).count key =
      records.countP (fun b => PeeledBy cfg.temporalWindowSecs cfg.amountToleranceBps a b ∧
        a.source ≠ b.dest ∧ pairKey a.source b.dest = key) := by
    rw [List.count, List.countP_map, List.countP_filter, (exact a transfer).countP_eq,
      List.countP_map, List.countP_filter]
    refine List.countP_congr (fun b _ => ?_)
    simp only [TxRecord.outgoing, Function.comp_apply, Bool.and_eq_true, beq_iff_eq,
      decide_eq_true_eq]
    exact ⟨fun ⟨⟨equal, apart⟩, peeled⟩ => ⟨peeled, of_decide_eq_true apart, equal⟩,
      fun ⟨peeled, apart, equal⟩ => ⟨⟨equal, decide_eq_true apart⟩, peeled⟩⟩
  unfold peelCount
  rw [List.count_flatten, List.map_map, countP_product, ← sum_valueTransfers records
    (fun a still => ?_)]
  · exact congrArg List.sum (List.map_congr_left each)
  · rw [List.countP_eq_zero]
    exact fun b _ counted => still (of_decide_eq_true counted).1.1

end Pairs

/-! ### Both passes -/

/-- The indexed passes are the scans of all pairs: the heuristic requests the union of exactly
the pairs of records of which the second sends on nearly what the first one sent, and the peel
weight of two accounts counts exactly the pairs of records between them. -/
theorem peel_passes_exact (ledger : Ledger) :
    (∀ cfg : AdversaryConfig, 0 ≤ cfg.temporalWindowSecs →
      WindowFits cfg.temporalWindowSecs ledger.records →
      ∃ pairs, temporalUnions ledger.records cfg = some pairs ∧
        ∀ first last, (first, last) ∈ pairs ↔ ∃ a ∈ ledger.records, ∃ b ∈ ledger.records,
          (0 < a.amount ∧ a.source ≠ a.dest) ∧ (0 < b.amount ∧ b.source ≠ b.dest) ∧
          b.source = a.dest ∧ a.ts ≤ b.ts ∧ b.ts ≤ a.ts + cfg.temporalWindowSecs ∧
          a.sig ≠ b.sig ∧
          absDiff a.amount b.amount ≤ tolerance a.amount cfg.amountToleranceBps ∧
          a.source = first ∧ b.dest = last) ∧
    (∀ cfg : MlConfig, 0 ≤ cfg.temporalWindowSecs →
      WindowFits cfg.temporalWindowSecs ledger.records →
      ∀ (order : HashOrder) (bursts : List (List TxRecord)),
        burstGroups ledger.records = some bursts →
        ∃ features, Features.build order ledger cfg = some features ∧
          ∀ key, features.peel.lookup key =
            if peelCount ledger.records cfg key = 0 then none
            else some (countUp (peelCount ledger.records cfg key))) := by
  constructor
  · intro cfg window fits
    obtain ⟨pairs, computed, exact⟩ := temporalUnions_exact window fits
    refine ⟨pairs, computed, fun first last => (exact first last).trans ?_⟩
    simp only [PeeledBy, MovesValue, and_assoc]
  · intro cfg window fits order bursts grouped
    obtain ⟨pairs, computed, counts⟩ := count_peelPairs window fits
    refine ⟨_, (congrArg (Option.bind · _) grouped).trans
      ((congrArg (Option.bind · _) computed).trans rfl), fun key => ?_⟩
    show (weigh pairs).lookup key = _
    rw [lookup_weigh, counts]

/-- Account 1 pays account 2, which sends value on twice at the edge of the window: once at the
edge of the tolerance and once beyond it. -/
def edgeLedger : Ledger where
  records :=
    [⟨1, 1, 1000, ⟨9⟩, ⟨1⟩, ⟨2⟩, 10000, .transfer, none⟩,
      ⟨2, 2, 1120, ⟨8⟩, ⟨2⟩, ⟨3⟩, 9950, .transfer, none⟩,
      ⟨3, 3, 1120, ⟨7⟩, ⟨2⟩, ⟨4⟩, 9949, .transfer, none⟩]

theorem peel_passes_exact_edge :
    (∃ pairs, temporalUnions edgeLedger.records .exactTs = some pairs ∧
      (⟨1⟩, ⟨3⟩) ∈ pairs ∧ (⟨1⟩, ⟨4⟩) ∉ pairs) ∧
    ∃ features, Features.build .asWritten edgeLedger .standard = some features ∧
      features.peel.lookup (⟨1⟩, ⟨3⟩) = some (countUp 1) ∧
        features.peel.lookup (⟨1⟩, ⟨4⟩) = none := by
  have fits : WindowFits 120 edgeLedger.records := by
    unfold WindowFits
    decide
  obtain ⟨pairs, computed, exact⟩ :=
    (peel_passes_exact edgeLedger).1 .exactTs (by decide) fits
  obtain ⟨features, built, weights⟩ :=
    (peel_passes_exact edgeLedger).2 .standard (by decide) fits .asWritten _ rfl
  refine ⟨⟨pairs, computed, (exact _ _).mpr (by decide), fun asked => ?_⟩,
    features, built, ?_, ?_⟩
  · exact absurd ((exact _ _).mp asked) (by decide)
  · rw [weights, if_neg (by decide)]
    rfl
  · rw [weights, if_pos (by decide)]

end AccountCooker
