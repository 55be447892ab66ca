/-
This file proves that the area under the curve that is printed is the statistic
of Mann and Whitney, rounded once. Ranks and their averages are halves of
integers, and while there are few enough of them a double holds every such
number exactly; so the whole loop over the ranks is computed without an error,
and the only rounding is that of the last quotient.
-/

import Mathlib
import AccountCooker.Area
import AccountCooker.Scores

namespace AccountCooker

open Collections Doubles

/-! ### Halves -/

/-- A double that is so many halves, exactly. -/
def Halves (x : Float) (count : Nat) : Prop :=
  count = 0 ∧ x = 0.0 ∨ 0 < count ∧ Normal x (count / 2)

section Halves

variable {x y : Float} {count more : Nat}

theorem halves_moderate (some : 0 < count) (small : count < 2 ^ 53) : Moderate (count / 2 : ℚ) := by
  have one : (1 : ℚ) ≤ count := Nat.one_le_cast.mpr some
  have most : (count : ℚ) < 2 ^ 53 := by exact_mod_cast small
  refine ⟨le_trans (by norm_num : (2 : ℚ) ^ (-200 : Int) ≤ 1 / 2) (by linarith), ?_⟩
  exact lt_of_lt_of_le (by linarith : (count / 2 : ℚ) < 2 ^ 53) (by norm_num)

theorem short_halves (small : count < 2 ^ 53) : Short (count / 2 : ℚ) := by
  refine ⟨count, -1, small, ?_⟩
  rw [zpow_neg_one]
  rfl

theorem normal_count (some : 0 < count) (small : count < 2 ^ 53) :
    Normal (F64.ofU64 count) count := ofNat_exact some small

/-- The product of two counts. -/
theorem normal_product (some : 0 < count) (other : 0 < more) (small : count ≤ 2 ^ 25)
    (small' : more ≤ 2 ^ 25) :
    Normal (F64.ofU64 count * F64.ofU64 more) (count * more : Nat) := by
  have moderate {whole : Nat} (some : 0 < whole) (small : whole ≤ 2 ^ 25) :
      Moderate (whole : ℚ) := by
    have one : (1 : ℚ) ≤ whole := Nat.one_le_cast.mpr some
    have most : (whole : ℚ) ≤ 2 ^ 25 := by exact_mod_cast small
    exact ⟨le_trans (by norm_num) one, most.trans_lt (by norm_num)⟩
  have both : count * more ≤ 2 ^ 25 * 2 ^ 25 := Nat.mul_le_mul small small'
  have rounded := (mul_rounded (normal_count some (by omega)) (normal_count other (by omega))
    (moderate some small) (moderate other small')).nearest
  rwa [← Nat.cast_mul, (short_natCast (by omega)).nearest_eq
    (Nat.cast_pos.mpr (Nat.mul_pos some other))] at rounded

/-- An integer over two. -/
theorem halves_quotient (some : 0 < count) (small : count < 2 ^ 53) :
    Normal (F64.ofU64 count / 2.0) (count / 2) := by
  have one : (1 : ℚ) ≤ count := Nat.one_le_cast.mpr some
  have most : (count : ℚ) < 2 ^ 53 := by exact_mod_cast small
  have moderate : Moderate (count : ℚ) :=
    ⟨le_trans (by norm_num) one, most.trans (by norm_num)⟩
  have rounded := (div_rounded (normal_count some small) normal_two moderate
    ⟨by norm_num, by norm_num⟩).nearest
  rwa [(short_halves small).nearest_eq (by positivity)] at rounded

/-- Halves are added exactly. -/
theorem Halves.add (sum : Halves x count) (some : 0 < more) (average : Normal y (more / 2))
    (small : count + more < 2 ^ 53) : Halves (x + y) (count + more) := by
  refine Or.inr ⟨by omega, ?_⟩
  have moderate := halves_moderate some (by omega)
  rcases sum with ⟨rfl, rfl⟩ | ⟨positive, normal⟩
  · obtain ⟨mantissa, exponent, nonzero, unpacked, log, same⟩ := average
    have kept := zero_add_unpack (show (0.0 : Float).toModel.unpack = .zero .positive from rfl)
      ⟨mantissa, exponent, nonzero, unpacked, log, same⟩ moderate
    rw [Nat.zero_add]
    exact ⟨mantissa, exponent, nonzero, kept.trans unpacked, log, same⟩
  · have total : (count / 2 + more / 2 : ℚ) = ((count + more : Nat) : ℚ) / 2 := by
      push_cast
      ring
    have rounded := (add_rounded (normal.toPositive (halves_moderate positive (by omega)))
      (average.toPositive moderate) (by
        rw [total]
        exact halves_moderate (by omega) small)).nearest
    rwa [total, (short_halves small).nearest_eq (by positivity)] at rounded

/-- Halves are subtracted exactly. -/
theorem halves_sub (some : 0 < more) (first : Normal x ((count + more : Nat) / 2))
    (second : Normal y (more / 2)) (small : count + more < 2 ^ 53) :
    Halves (x - y) count := by
  have one := first.toPositive (halves_moderate (by omega) small)
  have two := second.toPositive (halves_moderate some (by omega))
  rcases Nat.eq_zero_or_pos count with rfl | positive
  · rw [Nat.zero_add] at one
    exact Or.inl ⟨rfl, sub_eq_zero_of_same one two⟩
  · have rest : ((count + more : Nat) / 2 - more / 2 : ℚ) = count / 2 := by
      push_cast
      ring
    have cast : (0 : ℚ) < count := Nat.cast_pos.mpr positive
    have rounded := (sub_rounded one two (by linarith) (by
      rw [rest]
      exact halves_moderate positive (by omega))).nearest
    rw [rest, (short_halves (by omega)).nearest_eq (by positivity)] at rounded
    exact Or.inr ⟨positive, rounded⟩

end Halves

/-! ### The loop over the ranks -/

/-- A group adds its average rank, exactly, once for each positive. -/
theorem halves_group {average : Float} {more : Nat} (some : 0 < more)
    (halves : Normal average (more / 2)) {group : List (Float × Bool)} {x : Float} {count : Nat}
    (sum : Halves x count) (small : count + group.length * more < 2 ^ 53) :
    Halves (group.foldl (fun sum score => if score.2 then sum + average else sum) x)
      (count + group.countP Prod.snd * more) := by
  induction group generalizing x count with
  | nil =>
    rw [List.countP_nil, Nat.zero_mul, Nat.add_zero]
    exact sum
  | cons score rest inductionHypothesis =>
    rw [List.length_cons, Nat.succ_mul] at small
    rw [List.foldl_cons, List.countP_cons]
    split
    · have later := inductionHypothesis (sum.add some halves (by omega)) (by omega)
      rwa [Nat.add_mul, Nat.one_mul, Nat.add_comm (_ * more) more, ← Nat.add_assoc]
    · rw [Nat.add_zero]
      exact inductionHypothesis sum (by omega)

/-- The loop keeps the ranks met, and the exact sum of those of the positives, which is within the
number of ranks times the highest one. -/
theorem halves_groups {most : Nat} (few : most ≤ 2 ^ 25) {groups : List (List (Float × Bool))}
    {met : Nat} {x : Float} {count : Nat} (sum : Halves x count)
    (within : count ≤ met * (2 * most + 1)) (fits : met + groups.flatten.length ≤ most) :
    ∃ total, Halves (groups.foldl rankGroup (met, x)).2 total ∧ total < 2 ^ 53 ∧
      (groups.foldl exactRankGroup (met, count / 2)).2 = total / 2 := by
  induction groups generalizing met x count with
  | nil =>
    refine ⟨count, sum, ?_, rfl⟩
    have bound : met * (2 * most + 1) ≤ 2 ^ 25 * (2 * 2 ^ 25 + 1) :=
      Nat.mul_le_mul (by omega) (by omega)
    omega
  | cons group rest inductionHypothesis =>
    rw [List.flatten_cons, List.length_append] at fits
    rw [List.foldl_cons, List.foldl_cons]
    generalize rank : met + 1 + (met + group.length) = more
    have highest : more ≤ 2 * most + 1 := by omega
    have positives : group.countP Prod.snd ≤ group.length := List.countP_le_length
    have room : (met + group.length) * (2 * most + 1) ≤ 2 ^ 25 * (2 * 2 ^ 25 + 1) :=
      Nat.mul_le_mul (by omega) (by omega)
    rw [Nat.add_mul] at room
    have added : group.length * more ≤ group.length * (2 * most + 1) :=
      Nat.mul_le_mul_left _ highest
    have grown : group.countP Prod.snd * more ≤ group.length * (2 * most + 1) :=
      Nat.mul_le_mul positives highest
    have average : Normal (F64.ofU64 more / 2.0) (more / 2) :=
      halves_quotient (by omega) (by omega)
    have step : rankGroup (met, x) group = (met + group.length,
        group.foldl (fun sum score => if score.2 then sum + F64.ofU64 more / 2.0 else sum) x) := by
      rw [← rank]
      rfl
    have exactStep : exactRankGroup (met, (count / 2 : ℚ)) group = (met + group.length,
        ((count + group.countP Prod.snd * more : Nat) / 2 : ℚ)) := by
      rw [exactRankGroup_eq, ← rank]
      refine Prod.ext rfl ?_
      unfold Ranks.rankStep
      push_cast
      ring
    rw [step, exactStep]
    refine inductionHypothesis (halves_group (by omega) average sum (by omega)) ?_ (by omega)
    rw [Nat.add_mul]
    omega

/-! ### Classes -/

section Classes

variable {scores : List (Float × Bool)}

theorem countP_positive : scores.countP Prod.snd = (ofClass true scores).length := by
  unfold ofClass
  rw [List.length_map, ← List.countP_eq_length_filter]
  simp only [beq_true]

theorem countP_other : scores.countP (fun score => !score.2) = (ofClass false scores).length := by
  unfold ofClass
  rw [List.length_map, ← List.countP_eq_length_filter]
  simp only [beq_false]

theorem ofClass_number (numbers : Numbers scores) {label : Bool} {score : Float}
    (member : score ∈ ofClass label scores) : score.isNaN = false := by
  obtain ⟨original, inside, rfl⟩ := List.mem_map.mp member
  exact numbers original (List.mem_filter.mp inside).1

theorem higher_tied_le (numbers : Numbers scores) : higherPairs scores + tiedPairs scores ≤
    (ofClass true scores).length * (ofClass false scores).length := by
  have whole := Ranks.above_add_level scoreValue Prod.snd scores
  rw [Ranks.length_mixedPairs, countP_positive, countP_other] at whole
  rw [higherPairs_eq numbers, tiedPairs_eq numbers]
  omega

/-- All pairs are ordered, the positive above the negative. -/
theorem higherPairs_all :
    higherPairs scores = (ofClass true scores).length * (ofClass false scores).length ↔
      ∀ first ∈ ofClass true scores, ∀ second ∈ ofClass false scores, second < first := by
  unfold higherPairs
  rw [← List.length_product, List.countP_eq_length]
  constructor
  · intro all first one second two
    exact of_decide_eq_true (all (first, second) (List.mem_product.mpr ⟨one, two⟩))
  · rintro all ⟨first, second⟩ member
    obtain ⟨one, two⟩ := List.mem_product.mp member
    exact decide_eq_true (all first one second two)

/-- All pairs are ordered, the positive below the negative. -/
theorem higherPairs_none (numbers : Numbers scores) :
    higherPairs scores = 0 ∧ tiedPairs scores = 0 ↔
      ∀ first ∈ ofClass true scores, ∀ second ∈ ofClass false scores, first < second := by
  unfold higherPairs tiedPairs
  rw [List.countP_eq_zero, List.countP_eq_zero]
  have compared {first second : Float} (one : first ∈ ofClass true scores)
      (two : second ∈ ofClass false scores) :
      first < second ↔ ¬ second < first ∧ ¬ (first == second) = true := by
    have number := ofClass_number numbers one
    have number' := ofClass_number numbers two
    rw [lt_iff_value number number', lt_iff_value number' number, beq_iff_value number number',
      not_lt]
    exact lt_iff_le_and_ne
  constructor
  · rintro ⟨higher, tied⟩ first one second two
    have member : (first, second) ∈ ofClass true scores ×ˢ ofClass false scores :=
      List.mem_product.mpr ⟨one, two⟩
    have notAbove := higher (first, second) member
    have notTied := tied (first, second) member
    rw [decide_eq_true_iff] at notAbove
    exact (compared one two).mpr ⟨notAbove, notTied⟩
  · intro all
    constructor
    · rintro ⟨first, second⟩ member
      obtain ⟨one, two⟩ := List.mem_product.mp member
      rw [decide_eq_true_iff]
      exact ((compared one two).mp (all first one second two)).1
    · rintro ⟨first, second⟩ member
      obtain ⟨one, two⟩ := List.mem_product.mp member
      exact ((compared one two).mp (all first one second two)).2

end Classes

/-! ### One rounding -/

/-- So many halves over an integer, rounded once. -/
theorem halves_over {x y : Float} {count whole : Nat} (halves : Halves x count) (some : 0 < whole)
    (normal : Normal y whole) (within : count ≤ 2 * whole) (small : whole ≤ 2 ^ 50) :
    value (x / y) = nearest (count / 2 / whole) ∧ Rate (x / y) ∧
      (x / y = 1.0 ↔ count = 2 * whole) ∧ (x / y = 0.0 ↔ count = 0) := by
  have cast : (0 : ℚ) < whole := Nat.cast_pos.mpr some
  rcases halves with ⟨rfl, rfl⟩ | ⟨positive, numerator⟩
  · have zero : 0.0 / y = 0.0 := zero_div_eq normal
    rw [zero]
    refine ⟨?_, rate_zero, ⟨fun one => absurd one zero_ne_one_score, fun _ => by omega⟩,
      ⟨fun _ => rfl, fun _ => rfl⟩⟩
    rw [zero_number.2, Nat.cast_zero, zero_div, zero_div, nearest_zero]
  · have cast' : (0 : ℚ) < count := Nat.cast_pos.mpr positive
    have most : (whole : ℚ) ≤ 2 ^ 50 := by exact_mod_cast small
    have one : (1 : ℚ) ≤ whole := Nat.one_le_cast.mpr some
    have share : (count : ℚ) ≤ 2 * whole := by exact_mod_cast within
    have moderate : Moderate (whole : ℚ) :=
      ⟨le_trans (by norm_num) one, most.trans_lt (by norm_num)⟩
    have rounded := (div_rounded numerator normal (halves_moderate positive (by omega))
      moderate).nearest
    have above : (0 : ℚ) < count / 2 / whole := by positivity
    refine ⟨rounded.value_eq, rate_of_normal rounded (nearest_le above ?_ short_one),
      ⟨fun perfect => ?_, fun all => ?_⟩, ⟨fun nothing => ?_, fun nothing => by omega⟩⟩
    · rw [div_div, div_le_one (by positivity)]
      exact share
    · by_contra different
      have less : (count : ℚ) + 1 ≤ 2 * whole := by
        exact_mod_cast (show count + 1 ≤ 2 * whole by omega)
      have below : nearest (count / 2 / whole) ≤ 1 - 1 / 2 ^ 51 := by
        refine nearest_le above ?_ (short_below_one (by decide))
        rw [div_div, div_le_iff₀ (by positivity)]
        linarith
      rw [rounded.eq_one perfect] at below
      norm_num at below
    · refine Normal.div_same numerator ?_
      rw [all]
      push_cast
      rwa [mul_div_cancel_left₀ _ two_ne_zero]
    · have same := rounded.value_eq
      rw [nothing, zero_number.2] at same
      exact absurd same.symm rounded.positive.ne'

/-- The rank sum of the loop is exact, and exceeds the least it can be by the pairs. -/
theorem rankSum_halves {scores : List (Float × Bool)} (numbers : Numbers scores)
    (few : scores.length ≤ 2 ^ 25) :
    Halves (((scores.insertionSort scoreBefore).splitBy
        (fun first next => next.1 == first.1)).foldl rankGroup (0, 0.0)).2
      (2 * higherPairs scores + tiedPairs scores +
        (ofClass true scores).length * ((ofClass true scores).length + 1)) := by
  have perm := flatten_tieGroups scores
  obtain ⟨total, halves, _, exact⟩ := @halves_groups _ few (tieGroups scores) 0 0.0 0
    (Or.inl ⟨rfl, rfl⟩) (Nat.zero_le _) (by rw [perm.length_eq, Nat.zero_add])
  have sum := Ranks.rankSum_eq Prod.snd (tieGroups_tied numbers)
  rw [perm.countP_eq, Ranks.above_perm perm, Ranks.level_perm perm, ← higherPairs_eq numbers,
    ← tiedPairs_eq numbers, countP_positive] at sum
  rw [Nat.cast_zero, zero_div, exactRankGroup_eq, sum] at exact
  have whole : 2 * higherPairs scores + tiedPairs scores +
      (ofClass true scores).length * ((ofClass true scores).length + 1) = total := by
    have cast : (2 * higherPairs scores + tiedPairs scores +
        ((ofClass true scores).length * ((ofClass true scores).length + 1) : Nat) : ℚ) =
          total := by linarith
    exact_mod_cast cast
  rw [whole, ← tieGroups_eq]
  exact halves

/-- The area of up to 2 ^ 25 scores, as it is computed in doubles, is the statistic of Mann and
Whitney rounded once. So it is between zero and one; it is one exactly when every positive is
scored above every negative, and zero exactly when every positive is scored below. -/
theorem rocAuc_rounded (scores : List (Float × Bool)) (numbers : Numbers scores)
    (few : scores.length ≤ 2 ^ 25) :
    ∃ area, rocAuc scores = some area ∧
      (area = none ↔ ofClass true scores = [] ∨ ofClass false scores = []) ∧
      ∀ auc, area = some auc →
        value auc = nearest ((higherPairs scores + tiedPairs scores / 2 : ℚ) /
          ((ofClass true scores).length * (ofClass false scores).length)) ∧
        Rate auc ∧
        (auc = 1.0 ↔ ∀ first ∈ ofClass true scores, ∀ second ∈ ofClass false scores,
          second < first) ∧
        (auc = 0.0 ↔ ∀ first ∈ ofClass true scores, ∀ second ∈ ofClass false scores,
          first < second) := by
  have sizes := Ranks.countP_add_countP_not Prod.snd scores
  have positives : scores.countP Prod.snd = _ := countP_positive
  have negatives : scores.countP (fun score => !score.2) = _ := countP_other
  have filtered : (scores.filter Prod.snd).length = (ofClass true scores).length := by
    rw [← positives, List.countP_eq_length_filter]
  unfold rocAuc
  dsimp only
  rw [filtered, show scores.length - (ofClass true scores).length =
    (ofClass false scores).length by omega]
  generalize pos : (ofClass true scores).length = nPos at *
  generalize neg : (ofClass false scores).length = nNeg at *
  have empty : (ofClass true scores = [] ∨ ofClass false scores = []) ↔ nPos = 0 ∨ nNeg = 0 := by
    rw [← List.length_eq_zero_iff, ← List.length_eq_zero_iff, pos, neg]
  rw [empty]
  by_cases undefined : nPos = 0 ∨ nNeg = 0
  · rw [if_pos (by simpa using undefined)]
    exact ⟨none, rfl, iff_of_true rfl undefined, fun _ impossible => absurd impossible (by simp)⟩
  · rw [if_neg (by simpa using undefined)]
    have product : nPos * (nPos + 1) ≤ 2 ^ 25 * (2 ^ 25 + 1) :=
      Nat.mul_le_mul (by omega) (by omega)
    have both : nPos * nNeg ≤ 2 ^ 25 * 2 ^ 25 := Nat.mul_le_mul (by omega) (by omega)
    have least : 0 < nPos * (nPos + 1) := Nat.mul_pos (by omega) (by omega)
    have some : 0 < nPos * nNeg := Nat.mul_pos (by omega) (by omega)
    rw [checkedU64_eq_some.mpr ⟨product.trans (by decide), rfl⟩]
    refine ⟨_, rfl, iff_of_false (by simp) undefined, fun auc same => ?_⟩
    obtain rfl := Option.some.inj same
    have bounded := higher_tied_le numbers
    have ranks := rankSum_halves numbers few
    rw [pos, neg] at bounded
    rw [pos] at ranks
    have statistic : (higherPairs scores + tiedPairs scores / 2 : ℚ) / (nPos * nNeg) =
        (2 * higherPairs scores + tiedPairs scores : Nat) / 2 / (nPos * nNeg : Nat) := by
      push_cast
      ring
    have normal : Normal (F64.ofU64 nPos * F64.ofU64 nNeg) (nPos * nNeg : Nat) :=
      normal_product (by omega) (by omega) (by omega) (by omega)
    rw [statistic, ← higherPairs_all, ← higherPairs_none numbers, pos, neg]
    rcases ranks with ⟨nothing, _⟩ | ⟨_, ranks⟩
    · omega
    · have halves := halves_sub least ranks (halves_quotient least (by omega)) (by omega)
      obtain ⟨rounded, rate, perfect, worst⟩ :=
        halves_over halves some normal (by omega) (both.trans (by decide))
      refine ⟨rounded, rate, perfect.trans ?_, worst.trans ?_⟩
      · omega
      · omega

/-- Seven eighths have three digits, so nothing is rounded away. -/
theorem rocAuc_rounded_tiedScores :
    ∃ auc, rocAuc tiedScores = some (some auc) ∧ value auc = 7 / 8 := by
  obtain ⟨area, found, undefined, rounded⟩ :=
    rocAuc_rounded tiedScores (by unfold Numbers; decide +kernel) (by decide)
  have higher : higherPairs tiedScores = 3 := by decide +kernel
  have tied : tiedPairs tiedScores = 1 := by decide +kernel
  have positives : (ofClass true tiedScores).length = 2 := by decide +kernel
  have negatives : (ofClass false tiedScores).length = 2 := by decide +kernel
  cases area with
  | none =>
    rcases undefined.mp rfl with empty | empty
    · exact absurd (empty ▸ positives) (by decide)
    · exact absurd (empty ▸ negatives) (by decide)
  | some auc =>
    refine ⟨auc, found, ?_⟩
    have short : Short (7 / 8) := ⟨7, -3, by decide, by norm_num⟩
    rw [(rounded auc rfl).1, higher, tied, positives, negatives]
    exact (congrArg nearest (by norm_num)).trans (short.nearest_eq (by norm_num))

end AccountCooker
