/-
This file proves that the area under the curve is the statistic of Mann and
Whitney. The scores are doubles, compared as doubles are; what is computed from
their ranks is computed in exact arithmetic, where the program rounds.
-/

import Mathlib
import AccountCooker.Chains
import AccountCooker.DoubleOrder
import AccountCooker.Learning
import AccountCooker.Ranks

namespace AccountCooker

open Collections Doubles

/-! ### The area in exact arithmetic -/

/-- The runs of equal scores in the order of the scores: the inner loop compares with the first
score of its run. -/
def tieGroups (scores : List (Float × Bool)) : List (List (Float × Bool)) :=
  runsBy (fun first _ score => score.1 == first.1) (scores.insertionSort scoreBefore)

/-- The ranks met so far, and the sum of those of the positives. -/
def exactRankGroup (state : Nat × ℚ) (group : List (Float × Bool)) : Nat × ℚ :=
  let next := state.1 + group.length
  let avg : ℚ := (state.1 + 1 + next : Nat) / 2
  (next, group.foldl (fun sum score => if score.2 then sum + avg else sum) state.2)

/-- `roc_auc` in exact arithmetic. -/
def exactRocAuc (scores : List (Float × Bool)) : Option ℚ :=
  let nPos := (scores.filter Prod.snd).length
  let nNeg := scores.length - nPos
  if nPos = 0 || nNeg = 0 then none
  else
    let rankSumPos := ((tieGroups scores).foldl exactRankGroup (0, 0)).2
    some ((rankSumPos - (nPos * (nPos + 1) : Nat) / 2) / (nPos * nNeg))

/-- The scores of one class. -/
def ofClass (label : Bool) (scores : List (Float × Bool)) : List Float :=
  (scores.filter (fun score => score.2 == label)).map Prod.fst

/-- In how many positive-negative pairs the positive is scored higher. -/
def higherPairs (scores : List (Float × Bool)) : Nat :=
  (ofClass true scores ×ˢ ofClass false scores).countP (fun pair => pair.2 < pair.1)

/-- In how many positive-negative pairs the two scores are tied. -/
def tiedPairs (scores : List (Float × Bool)) : Nat :=
  (ofClass true scores ×ˢ ofClass false scores).countP (fun pair => pair.1 == pair.2)

/-! ### Numbers -/

/-- No score is a NaN. -/
def Numbers (scores : List (Float × Bool)) : Prop := ∀ score ∈ scores, score.1.isNaN = false

/-- The value of a score. -/
def scoreValue (score : Float × Bool) : ℚ := value score.1

def sameScore (first second : Float × Bool) : Bool := scoreValue first = scoreValue second

/-- The order of the bits is the order of the values. -/
theorem value_le_of_scoreBefore {first second : Float × Bool} (one : first.1.isNaN = false)
    (other : second.1.isNaN = false) (before : scoreBefore first second) :
    scoreValue first ≤ scoreValue second := by
  unfold scoreBefore totalKey at before
  dsimp only at before
  unfold scoreValue
  have bounded : first.1.toBits.toNat < 2 ^ 64 := first.1.toBits.toNat_lt
  have bounded' : second.1.toBits.toNat < 2 ^ 64 := second.1.toBits.toNat_lt
  have nonnegative (bits : Nat) : 0 ≤ magnitudeOf bits := by
    unfold magnitudeOf
    split <;> positivity
  rw [value_eq_magnitudeOf one, value_eq_magnitudeOf other]
  by_cases positive : first.1.toBits.toNat < 2 ^ 63 <;>
    by_cases positive' : second.1.toBits.toNat < 2 ^ 63
  · rw [if_pos positive, if_pos positive']
    refine magnitudeOf_mono ?_
    omega
  · omega
  · rw [if_neg positive, if_pos positive']
    exact (neg_nonpos_of_nonneg (nonnegative _)).trans (nonnegative _)
  · rw [if_neg positive, if_neg positive']
    refine neg_le_neg (magnitudeOf_mono ?_)
    omega

/-- The runs of the loops are those of neighbours with equal scores. -/
theorem tieGroups_eq (scores : List (Float × Bool)) : tieGroups scores =
    (scores.insertionSort scoreBefore).splitBy (fun first next => next.1 == first.1) := by
  refine runsBy_eq_splitBy (fun first previous => first = previous ∨ (previous.1 == first.1) = true)
    (fun _ => Or.inl rfl) (fun first previous score joined => ?_)
    (fun first previous score joined linked => ?_) _
  · rcases joined with rfl | equal
    · rfl
    · obtain ⟨one, other, same⟩ := beq_iff.mp equal
      rw [Bool.eq_iff_iff, beq_iff, beq_iff, same]
      simp only [one, other]
  · rcases joined with rfl | equal
    · exact Or.inr linked
    · obtain ⟨_, other, same⟩ := beq_iff.mp equal
      obtain ⟨number, _, same'⟩ := beq_iff.mp linked
      exact Or.inr (beq_iff.mpr ⟨number, other, same'.trans same⟩)

/-- The runs are the groups of tied scores, in the order of their values. -/
theorem tieGroups_tied {scores : List (Float × Bool)} (numbers : Numbers scores) :
    Ranks.TieGroups scoreValue (tieGroups scores) := by
  have perm := List.perm_insertionSort scoreBefore scores
  have number {score : Float × Bool} (member : score ∈ scores.insertionSort scoreBefore) :
      score.1.isNaN = false := numbers score (perm.mem_iff.mp member)
  have total : Std.Total scoreBefore := ⟨fun first second => le_total (totalKey first.1) _⟩
  have transitive : IsTrans (Float × Bool) scoreBefore := ⟨fun _ _ _ => le_trans⟩
  have sorted : (scores.insertionSort scoreBefore).Pairwise
      (fun first second => scoreValue first ≤ scoreValue second) :=
    (List.pairwise_insertionSort scoreBefore scores).imp_of_mem (fun one other before =>
      value_le_of_scoreBefore (number one) (number other) before)
  have split : tieGroups scores = (scores.insertionSort scoreBefore).splitBy sameScore := by
    rw [tieGroups_eq]
    refine splitBy_congr (fun first one next other => ?_)
    unfold sameScore
    rw [Bool.eq_iff_iff, beq_iff_value (number other) (number one), decide_eq_true_iff]
    exact eq_comm
  have cuts : Cuts (fun first second : Float × Bool => scoreValue first ≤ scoreValue second)
      (fun first second => scoreValue first = scoreValue second) sameScore := by
    refine ⟨fun _ _ _ linked => of_decide_eq_true linked, fun u x y v below split above near =>
      decide_eq_true ?_⟩
    have low : scoreValue u ≤ scoreValue x := below.elim (fun equal => equal ▸ le_rfl) id
    have high : scoreValue y ≤ scoreValue v := above.elim (fun equal => equal ▸ le_rfl) id
    rcases near with near | near <;> linarith
  rw [split]
  constructor
  · intro group member x one y other
    have still : group.IsChain (fun first second => scoreValue first = scoreValue second) :=
      (List.isChain_of_mem_splitBy member).imp (fun _ _ linked => of_decide_eq_true linked)
    have transitive : IsTrans (Float × Bool)
        (fun first second => scoreValue first = scoreValue second) := ⟨fun _ _ _ => Eq.trans⟩
    have symmetric : Std.Symm (fun first second : Float × Bool =>
        scoreValue first = scoreValue second) := ⟨fun _ _ => Eq.symm⟩
    exact List.Pairwise.forall_of_forall
      (R := fun first second => scoreValue first = scoreValue second) (fun _ _ => rfl)
      still.pairwise one other
  · rw [← List.flatten_splitBy sameScore (scores.insertionSort scoreBefore)] at sorted
    have apart := cuts.apart (List.nil_notMem_splitBy _ _) sorted
      (List.isChain_getLast_head_splitBy sameScore _)
    have ordered := (List.pairwise_flatten.mp sorted).2
    exact (ordered.and apart).imp (fun both x one y other =>
      lt_of_le_of_ne (both.1 x one y other) (both.2 x one y other).1)

theorem flatten_tieGroups (scores : List (Float × Bool)) :
    (tieGroups scores).flatten.Perm scores := by
  rw [tieGroups_eq, List.flatten_splitBy]
  exact List.perm_insertionSort scoreBefore scores

/-! ### The statistic -/

/-- A group adds its average rank once for each positive. -/
theorem exactRankGroup_eq : exactRankGroup = Ranks.rankStep Prod.snd := by
  funext state group
  unfold exactRankGroup Ranks.rankStep
  refine Prod.ext rfl ?_
  dsimp only
  generalize ((state.1 + 1 + (state.1 + group.length) : Nat) / 2 : ℚ) = avg
  generalize state.2 = sum
  induction group generalizing sum with
  | nil => simp
  | cons score rest inductionHypothesis =>
    rw [List.foldl_cons, inductionHypothesis, List.countP_cons]
    split
    · push_cast
      ring
    · simp

theorem countP_negative (scores : List (Float × Bool)) :
    scores.countP (fun score => !score.2) = scores.length - (scores.filter Prod.snd).length := by
  have sizes := Ranks.countP_add_countP_not Prod.snd scores
  rw [← List.countP_eq_length_filter]
  omega

/-- The area is the statistic, where both classes are inhabited. -/
theorem exactRocAuc_eq {scores : List (Float × Bool)} (numbers : Numbers scores) :
    exactRocAuc scores =
      if scores.countP Prod.snd = 0 ∨ scores.countP (fun score => !score.2) = 0 then none
      else some (Ranks.statistic scoreValue Prod.snd scores) := by
  have perm := flatten_tieGroups scores
  have sum := Ranks.rankSum_eq Prod.snd (tieGroups_tied numbers)
  rw [perm.countP_eq, Ranks.above_perm perm, Ranks.level_perm perm] at sum
  unfold exactRocAuc
  dsimp only
  rw [exactRankGroup_eq, sum, ← countP_negative, ← List.countP_eq_length_filter]
  simp only [Bool.or_eq_true, decide_eq_true_eq]
  refine if_congr Iff.rfl rfl (congrArg some ?_)
  unfold Ranks.statistic
  rw [add_sub_cancel_left]

section Counts

variable {scores : List (Float × Bool)}

theorem countP_ofClass (test : Float × Float → Bool) :
    (ofClass true scores ×ˢ ofClass false scores).countP test =
      (Ranks.mixedPairs Prod.snd scores).countP (fun pair => test (pair.1.1, pair.2.1)) := by
  unfold ofClass Ranks.mixedPairs
  rw [countP_product, countP_product, List.map_map]
  simp only [List.countP_map, Function.comp_def, beq_true, beq_false]

theorem mem_mixedPairs {pair : (Float × Bool) × Float × Bool}
    (member : pair ∈ Ranks.mixedPairs Prod.snd scores) : pair.1 ∈ scores ∧ pair.2 ∈ scores := by
  obtain ⟨one, other⟩ := List.mem_product.mp member
  exact ⟨(List.mem_filter.mp one).1, (List.mem_filter.mp other).1⟩

theorem higherPairs_eq (numbers : Numbers scores) :
    higherPairs scores = Ranks.above scoreValue Prod.snd scores := by
  unfold higherPairs Ranks.above
  rw [countP_ofClass]
  refine List.countP_congr (fun pair member => ?_)
  obtain ⟨one, other⟩ := mem_mixedPairs member
  rw [decide_eq_true_iff, decide_eq_true_iff, lt_iff_value (numbers _ other) (numbers _ one)]
  rfl

theorem tiedPairs_eq (numbers : Numbers scores) :
    tiedPairs scores = Ranks.level scoreValue Prod.snd scores := by
  unfold tiedPairs Ranks.level
  rw [countP_ofClass]
  refine List.countP_congr (fun pair member => ?_)
  obtain ⟨one, other⟩ := mem_mixedPairs member
  rw [decide_eq_true_iff, beq_iff_value (numbers _ one) (numbers _ other)]
  rfl

end Counts

/-- A transformation of scores that keeps their order: larger scores stay larger, equal ones
equal. -/
def StrictlyIncreasing (transform : Float → Float) (scores : List (Float × Bool)) : Prop :=
  ∀ first ∈ scores, ∀ second ∈ scores,
    (first.1 < second.1 → transform first.1 < transform second.1) ∧
      ((first.1 == second.1) = true → (transform first.1 == transform second.1) = true)

theorem StrictlyIncreasing.numbers {transform : Float → Float} {scores : List (Float × Bool)}
    (increasing : StrictlyIncreasing transform scores) (numbers : Numbers scores) :
    Numbers (scores.map (Prod.map transform id)) := by
  intro score member
  obtain ⟨original, inside, rfl⟩ := List.mem_map.mp member
  have same : (original.1 == original.1) = true :=
    beq_iff.mpr ⟨numbers original inside, numbers original inside, rfl⟩
  exact (beq_iff.mp ((increasing original inside original inside).2 same)).1

/-- The values of the transformed scores are in the order of the values. -/
theorem StrictlyIncreasing.lt_iff {transform : Float → Float} {scores : List (Float × Bool)}
    (increasing : StrictlyIncreasing transform scores) (numbers : Numbers scores)
    {first second : Float × Bool} (one : first ∈ scores) (other : second ∈ scores) :
    scoreValue (Prod.map transform id first) < scoreValue (Prod.map transform id second) ↔
      scoreValue first < scoreValue second := by
  have numbers' := increasing.numbers numbers
  have moved {first second : Float × Bool} (one : first ∈ scores) (other : second ∈ scores)
      (below : scoreValue first < scoreValue second) :
      scoreValue (Prod.map transform id first) < scoreValue (Prod.map transform id second) := by
    have less := (increasing first one second other).1
      ((lt_iff_value (numbers _ one) (numbers _ other)).mpr below)
    exact (lt_iff_value (numbers' _ (List.mem_map_of_mem one))
      (numbers' _ (List.mem_map_of_mem other))).mp less
  refine ⟨fun below => ?_, moved one other⟩
  rcases lt_trichotomy (scoreValue first) (scoreValue second) with less | same | more
  · exact less
  · have equal := (increasing first one second other).2
      ((beq_iff_value (numbers _ one) (numbers _ other)).mpr same)
    exact absurd (beq_iff.mp equal).2.2 below.ne
  · exact absurd below (moved other one more).not_gt

/-- The area is undefined without positives or without negatives, and otherwise the share of the
positive-negative pairs in which the positive is scored higher, ties counted for one half. So
neither the order of the scores nor a strictly increasing transformation of them matters, the
area is between zero and one, and flipping the labels leaves the rest of one. -/
theorem exactRocAuc_mannWhitney (scores : List (Float × Bool)) (numbers : Numbers scores) :
    (exactRocAuc scores = none ↔ ofClass true scores = [] ∨ ofClass false scores = []) ∧
    (∀ auc, exactRocAuc scores = some auc →
      auc = (higherPairs scores + tiedPairs scores / 2 : ℚ) /
        ((ofClass true scores).length * (ofClass false scores).length) ∧ 0 ≤ auc ∧ auc ≤ 1) ∧
    (∀ others, others.Perm scores → exactRocAuc others = exactRocAuc scores) ∧
    (∀ transform, StrictlyIncreasing transform scores →
      exactRocAuc (scores.map (Prod.map transform id)) = exactRocAuc scores) ∧
    exactRocAuc (scores.map (Prod.map id not)) = (exactRocAuc scores).map (fun auc => 1 - auc) := by
  have positives : scores.countP Prod.snd = (ofClass true scores).length := by
    unfold ofClass
    rw [List.length_map, ← List.countP_eq_length_filter]
    simp only [beq_true]
  have negatives : scores.countP (fun score => !score.2) = (ofClass false scores).length := by
    unfold ofClass
    rw [List.length_map, ← List.countP_eq_length_filter]
    simp only [beq_false]
  refine ⟨?_, fun auc found => ?_, fun others perm => ?_, fun transform increasing => ?_, ?_⟩
  · rw [exactRocAuc_eq numbers, ← List.length_eq_zero_iff, ← List.length_eq_zero_iff,
      ← positives, ← negatives]
    split
    · rename_i empty
      exact ⟨fun _ => empty, fun _ => rfl⟩
    · rename_i inhabited
      exact ⟨fun undefined => absurd undefined (by simp), fun empty => absurd empty inhabited⟩
  · rw [exactRocAuc_eq numbers] at found
    split at found
    · exact absurd found (by simp)
    · obtain rfl := Option.some.inj found
      refine ⟨?_, Ranks.statistic_bounds⟩
      unfold Ranks.statistic
      rw [higherPairs_eq numbers, tiedPairs_eq numbers, positives, negatives]
  · have numbers' : Numbers others := fun score member => numbers score (perm.mem_iff.mp member)
    rw [exactRocAuc_eq numbers, exactRocAuc_eq numbers']
    unfold Ranks.statistic
    rw [perm.countP_eq, perm.countP_eq, Ranks.above_perm perm, Ranks.level_perm perm]
  · rw [exactRocAuc_eq numbers, exactRocAuc_eq (increasing.numbers numbers), List.countP_map,
      List.countP_map, Ranks.statistic_map (fun first one second other =>
        increasing.lt_iff numbers one other)]
    rfl
  · have numbers' : Numbers (scores.map (Prod.map id not)) := by
      intro score member
      obtain ⟨original, inside, rfl⟩ := List.mem_map.mp member
      exact numbers original inside
    have flipped : Ranks.statistic scoreValue Prod.snd (scores.map (Prod.map id not)) =
        Ranks.statistic scoreValue (fun score => !score.2) scores :=
      Ranks.statistic_map (fun _ _ _ _ => Iff.rfl)
    have positives' : (scores.map (Prod.map id not)).countP Prod.snd =
        scores.countP (fun score => !score.2) := List.countP_map
    have negatives' : (scores.map (Prod.map id not)).countP (fun score => !score.2) =
        scores.countP Prod.snd := by
      rw [List.countP_map]
      exact List.countP_congr (fun score _ => by simp)
    rw [exactRocAuc_eq numbers, exactRocAuc_eq numbers', positives', negatives', flipped]
    by_cases empty : scores.countP Prod.snd = 0 ∨ scores.countP (fun score => !score.2) = 0
    · rw [if_pos empty, if_pos empty.symm]
      rfl
    · rw [if_neg empty, if_neg (fun either => empty either.symm),
        Ranks.statistic_not (Nat.pos_of_ne_zero (fun none => empty (Or.inl none)))
          (Nat.pos_of_ne_zero (fun none => empty (Or.inr none)))]
      rfl

/-- Two positives and two negatives, with a tie across the classes. -/
def tiedScores : List (Float × Bool) := [(0.5, false), (0.9, true), (0.1, false), (0.5, true)]

theorem exactRocAuc_mannWhitney_tiedScores : exactRocAuc tiedScores = some (7 / 8) := by
  obtain ⟨undefined, share, _⟩ :=
    exactRocAuc_mannWhitney tiedScores (by unfold Numbers; decide +kernel)
  have higher : higherPairs tiedScores = 3 := by decide +kernel
  have tied : tiedPairs tiedScores = 1 := by decide +kernel
  have positives : (ofClass true tiedScores).length = 2 := by decide +kernel
  have negatives : (ofClass false tiedScores).length = 2 := by decide +kernel
  cases found : exactRocAuc tiedScores with
  | none =>
    rcases undefined.mp found with empty | empty
    · exact absurd (empty ▸ positives) (by decide)
    · exact absurd (empty ▸ negatives) (by decide)
  | some auc =>
    rw [(share auc found).1, higher, tied, positives, negatives]
    norm_num

end AccountCooker
