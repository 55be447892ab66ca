/-
This file proves that the scores of a report mean what they say, although they
are doubles that are rounded at every step. Every rate lies between zero and
one and every mean is at least one: rounding is monotone, so what holds of the
exact numbers step by step holds of the doubles. And a score of one is never an
artefact of rounding: on a ledger that fits a machine, one is printed exactly
when nothing is wrong.
-/

import Mathlib
import AccountCooker.Anonymity
import AccountCooker.Nearest
import AccountCooker.Pairwise
import AccountCooker.Reproducible
import AccountCooker.Totality

namespace AccountCooker

open Collections Doubles

/-! ### Counts -/

/-- A rate that can be read as one. -/
def Rate (score : Float) : Prop := 0.0 ≤ score ∧ score ≤ 1.0

/-- A mean of counts of at least one. -/
def Mean (score : Float) (most : Nat) : Prop := 1.0 ≤ score ∧ score ≤ F64.ofU64 most

section Counts

variable {part whole : Nat}

theorem ofU64_normal (some : 0 < whole) (word : whole ≤ u64Max) :
    Normal (F64.ofU64 whole) (nearest whole) :=
  (ofNat_rounded some (Nat.lt_of_le_of_lt word (by decide))).nearest

theorem count_bounds (some : 0 < whole) (word : whole ≤ u64Max) :
    1 ≤ nearest whole ∧ nearest (whole : ℚ) ≤ 2 ^ (64 : Int) := by
  have one : (1 : ℚ) ≤ whole := Nat.one_le_cast.mpr some
  have most : (whole : ℚ) ≤ (2 ^ 64 : Nat) := Nat.cast_le.mpr (word.trans (by decide))
  refine ⟨le_nearest one_pos one short_one, nearest_le (one_pos.trans_le one) ?_ (short_zpow 64)⟩
  exact most.trans_eq (by norm_num)

theorem count_moderate (some : 0 < whole) (word : whole ≤ u64Max) : Moderate (nearest whole) := by
  obtain ⟨low, high⟩ := count_bounds some word
  exact ⟨le_trans (by norm_num) low, lt_of_le_of_lt high (by norm_num)⟩

/-- A quotient of counts is rounded three times. -/
theorem quotient_normal (some : 0 < part) (word : part ≤ u64Max) (some' : 0 < whole)
    (word' : whole ≤ u64Max) :
    Normal (F64.ofU64 part / F64.ofU64 whole) (nearest (nearest part / nearest whole)) :=
  (div_rounded (ofU64_normal some word) (ofU64_normal some' word') (count_moderate some word)
    (count_moderate some' word')).nearest

end Counts

/-- A double of a value up to one, and far from the subnormal numbers. -/
structure Share (score : Float) (value : ℚ) : Prop where
  normal : Normal score value
  least : (2 : ℚ) ^ (-64 : Int) ≤ value
  most : value ≤ 1

theorem zero_number : (0.0 : Float).isNaN = false ∧ value 0.0 = 0 := ⟨rfl, rfl⟩

theorem rate_zero : Rate 0.0 :=
  ⟨(le_iff_value zero_number.1 zero_number.1).mpr (le_refl _),
    (le_iff_value zero_number.1 normal_one.isNaN).mpr (by
      rw [zero_number.2, normal_one.value_eq]
      exact zero_le_one)⟩

theorem rate_of_normal {score : Float} {value : ℚ} (normal : Normal score value)
    (most : value ≤ 1) : Rate score :=
  ⟨(le_iff_value zero_number.1 normal.isNaN).mpr (by
      rw [zero_number.2, normal.value_eq]
      exact normal.positive.le),
    (normal.le_iff normal_one).mpr most⟩

theorem rate_one : Rate 1.0 := rate_of_normal normal_one (le_refl 1)

section Quotients

variable {part whole : Nat}

theorem quotient_share (some : 0 < part) (within : part ≤ whole) (word : whole ≤ u64Max) :
    Share (F64.ofU64 part / F64.ofU64 whole) (nearest (nearest part / nearest whole)) := by
  obtain ⟨low, high⟩ := count_bounds some (within.trans word)
  obtain ⟨low', high'⟩ := count_bounds (some.trans_le within) word
  have above : (0 : ℚ) < nearest whole := one_pos.trans_le low'
  have positive : (0 : ℚ) < nearest part / nearest whole :=
    div_pos (one_pos.trans_le low) above
  refine ⟨quotient_normal some (within.trans word) (some.trans_le within) word,
    le_nearest (by positivity) ?_ (short_zpow _), nearest_le positive ?_ short_one⟩
  · rw [le_div_iff₀ above]
    calc (2 : ℚ) ^ (-64 : Int) * nearest whole
        ≤ 2 ^ (-64 : Int) * 2 ^ (64 : Int) := mul_le_mul_of_nonneg_left high' (by positivity)
      _ = 1 := by norm_num
      _ ≤ nearest part := low
  · rw [div_le_one above]
    exact nearest_mono (Nat.cast_pos.mpr some) (Nat.cast_le.mpr within)

/-- Nothing out of something. -/
theorem quotient_zero (some : 0 < whole) (word : whole ≤ u64Max) :
    F64.ofU64 0 / F64.ofU64 whole = 0.0 := zero_div_eq (ofU64_normal some word)

theorem quotientOf_zero (word : whole ≤ u64Max) : quotientOf F64.ofU64 0 whole = 0.0 := by
  unfold quotientOf
  split
  · rename_i some
    exact quotient_zero some word
  · rfl

theorem quotient_rate (within : part ≤ whole) (some : 0 < whole) (word : whole ≤ u64Max) :
    Rate (F64.ofU64 part / F64.ofU64 whole) := by
  rcases Nat.eq_zero_or_pos part with rfl | found
  · rw [quotient_zero some word]
    exact rate_zero
  · have share := quotient_share found within word
    exact rate_of_normal share.normal share.most

theorem quotientOf_rate (within : part ≤ whole) (word : whole ≤ u64Max) :
    Rate (quotientOf F64.ofU64 part whole) := by
  unfold quotientOf
  split
  · rename_i some
    exact quotient_rate within some word
  · exact rate_zero

theorem pooledOf_rate (within : part ≤ whole) (word : whole ≤ u64Max) :
    Rate (pooledOf F64.ofU64 part whole) := by
  unfold pooledOf
  split
  · rename_i some
    exact quotient_rate within some word
  · exact rate_one

/-- A mean of counts of at least one, which are not more than the whole in all. -/
theorem quotient_mean {most : Nat} (some : 0 < part) (each : part ≤ whole) (few : whole ≤ most)
    (word : most ≤ u64Max) : Mean (F64.ofU64 whole / F64.ofU64 part) most := by
  have found := some.trans_le each
  obtain ⟨low, _⟩ := count_bounds some (each.trans (few.trans word))
  have normal := quotient_normal found (few.trans word) some (each.trans (few.trans word))
  have above : (0 : ℚ) < nearest part := one_pos.trans_le low
  have order := nearest_mono (Nat.cast_pos.mpr some) (Nat.cast_le.mpr each)
  have whole_pos : (0 : ℚ) < nearest whole := above.trans_le order
  refine ⟨(normal_one.le_iff normal).mpr (le_nearest one_pos ?_ short_one),
    (normal.le_iff (ofU64_normal (found.trans_le few) word)).mpr ?_⟩
  · rwa [one_le_div above]
  · refine nearest_le (div_pos whole_pos above) ?_
      (ofU64_normal (found.trans_le few) word).short
    calc nearest whole / nearest part
        ≤ nearest whole := div_le_self whole_pos.le low
      _ ≤ nearest most := nearest_mono (Nat.cast_pos.mpr found) (Nat.cast_le.mpr few)

end Quotients

/-! ### The F1 score -/

/-- The harmonic mean is rounded at three places; doubling is exact. -/
theorem f1_normal {precision pairRecall : Float} {a b : ℚ} (first : Share precision a)
    (second : Share pairRecall b) :
    Normal (precision + pairRecall) (nearest (a + b)) ∧
      Normal (2.0 * precision * pairRecall / (precision + pairRecall))
        (nearest (nearest (2 * a * b) / nearest (a + b))) := by
  have one : (0 : ℚ) < a := first.normal.positive
  have two : (0 : ℚ) < b := second.normal.positive
  have power : (2 : ℚ) ^ (-127 : Int) = 2 * 2 ^ (-64 : Int) * 2 ^ (-64 : Int) := by norm_num
  have moderate {value : ℚ} (low : (2 : ℚ) ^ (-127 : Int) ≤ value) (high : value ≤ 2) :
      Moderate value :=
    ⟨le_trans (by norm_num) low, lt_of_le_of_lt high (by norm_num)⟩
  have least {value : ℚ} (low : (2 : ℚ) ^ (-64 : Int) ≤ value) : (2 : ℚ) ^ (-127 : Int) ≤ value :=
    le_trans (by norm_num) low
  have above : (2 : ℚ) ^ (-64 : Int) ≤ a + b := by linarith [first.least]
  have under : a + b ≤ 2 := by linarith [first.most, second.most]
  have small : 2 * a * b ≤ 2 := by nlinarith [first.most, second.most]
  have large : (2 : ℚ) ^ (-127 : Int) ≤ 2 * a * b := by
    rw [power]
    exact mul_le_mul (mul_le_mul_of_nonneg_left first.least two_pos.le) second.least
      (by positivity) (by positivity)
  have one' := moderate (least first.least) (first.most.trans one_le_two)
  have two' := moderate (least second.least) (second.most.trans one_le_two)
  have sum := (add_rounded (first.normal.toPositive one') (second.normal.toPositive two')
    (moderate (least above) under)).nearest
  have double := (mul_rounded normal_two first.normal (moderate (by norm_num) le_rfl) one').nearest
  rw [first.normal.short.double.nearest_eq (by positivity)] at double
  have product := (mul_rounded double second.normal
    (moderate (by linarith [least first.least]) (by linarith [first.most])) two').nearest
  refine ⟨sum, (div_rounded product sum ?_ ?_).nearest⟩
  · exact moderate (le_nearest (by positivity) large (short_zpow _))
      (nearest_le (by positivity) small short_two)
  · exact moderate (least (le_nearest (by positivity) above (short_zpow _)))
      (nearest_le (by positivity) under short_two)

/-- Twice the product of two shares is at most their sum, and rounding keeps that. -/
theorem f1Of_rate {tp fp fn : Nat} (word : tp + fp ≤ u64Max) (word' : tp + fn ≤ u64Max) :
    Rate (f1Of F64.ofU64 tp fp fn) := by
  unfold f1Of
  rcases Nat.eq_zero_or_pos tp with rfl | found
  · rw [quotientOf_zero word, quotientOf_zero word']
    exact rate_zero
  · have first := quotient_share found (Nat.le_add_right tp fp) word
    have second := quotient_share found (Nat.le_add_right tp fn) word'
    unfold quotientOf
    rw [if_pos (Nat.add_pos_left found fp), if_pos (Nat.add_pos_left found fn)]
    generalize F64.ofU64 tp / F64.ofU64 (tp + fp) = precision at first ⊢
    generalize F64.ofU64 tp / F64.ofU64 (tp + fn) = pairRecall at second ⊢
    generalize nearest (nearest tp / nearest (tp + fp : Nat)) = a at first
    generalize nearest (nearest tp / nearest (tp + fn : Nat)) = b at second
    have one : (0 : ℚ) < a := first.normal.positive
    have two : (0 : ℚ) < b := second.normal.positive
    have above : 0 < nearest (a + b) := nearest_pos (by positivity)
    have ordered : nearest (2 * a * b) ≤ nearest (a + b) := by
      refine nearest_mono (by positivity) ?_
      nlinarith [first.most, second.most]
    dsimp only
    split
    · refine rate_of_normal (f1_normal first second).2 (nearest_le ?_ ?_ short_one)
      · exact div_pos (nearest_pos (by positivity)) above
      · rwa [div_le_one above]
    · exact rate_zero

/-! ### Purity -/

/-- One group adds no more pure pairs than pairs. -/
theorem purityStep_le {order : HashOrder} {label : List Nat} {counted next : Nat × Nat}
    {group : List TxRecord × Nat} (pure : counted.1 ≤ counted.2)
    (step : purityStep order label counted group = some next) :
    next.1 ≤ next.2 ∧ next.2 ≤ u64Max := by
  simp only [purityStep, Option.bind_eq_bind, Option.bind_eq_some_iff, Option.pure_def,
    Option.some_inj] at step
  obtain ⟨pairs, paired, total, totalled, same, agreeing, purePairs, added, rfl⟩ := step
  obtain ⟨word, rfl⟩ := checkedU64_eq_some.mp totalled
  obtain ⟨_, rfl⟩ := checkedU64_eq_some.mp added
  refine ⟨Nat.add_le_add pure ?_, word⟩
  rw [pairTotal_tally agreeing, c2_eq_some paired]
  exact agreeingPairs_le _

theorem foldlM_purityStep_le {order : HashOrder} {label : List Nat}
    {groups : List (List TxRecord × Nat)} {counted last : Nat × Nat}
    (pure : counted.1 ≤ counted.2) (word : counted.2 ≤ u64Max)
    (ran : groups.foldlM (purityStep order label) counted = some last) :
    last.1 ≤ last.2 ∧ last.2 ≤ u64Max := by
  induction groups generalizing counted with
  | nil => exact Option.some.inj ran ▸ ⟨pure, word⟩
  | cons group rest inductionHypothesis =>
    rw [List.foldlM_cons, Option.bind_eq_bind, Option.bind_eq_some_iff] at ran
    obtain ⟨next, step, later⟩ := ran
    obtain ⟨pure, word⟩ := purityStep_le pure step
    exact inductionHypothesis pure word later

theorem purity_rate {order : HashOrder} {label : List Nat} {groups : List (List TxRecord)}
    {share : Float} (computed : purity order label groups = some share) : Rate share := by
  obtain ⟨last, ran, rest⟩ := Option.bind_eq_some_iff.mp computed
  obtain ⟨pure, word⟩ := foldlM_purityStep_le (le_refl 0) (Nat.zero_le _) ran
  rw [← Option.some.inj rest]
  exact pooledOf_rate pure word

/-! ### Shares and means -/

/-- No cluster has more owned accounts than there are. -/
theorem largestShare_rate (order : HashOrder) {owners : List (AccountId × AgentId)}
    (few : owners.length ≤ u64Max) (clusterOf : HashMap AccountId Nat) :
    Rate (largestShare order owners clusterOf) := by
  unfold largestShare
  dsimp only
  split
  · exact rate_zero
  · rename_i some
    have nonempty : 0 < owners.length := by
      rw [List.isEmpty_iff] at some
      exact List.length_pos_iff.mpr some
    refine quotient_rate ?_ nonempty few
    have counted (count : Nat) (member : count ∈ (order.iterate [8, 5] (tally (owners.filterMap
        (fun owner => clusterOf.lookup owner.1)))).map (fun entry => entry.2)) :
        count ≤ owners.length := by
      obtain ⟨⟨key, count⟩, inside, rfl⟩ := List.mem_map.mp member
      rw [order.mem_iterate, lookup_tally] at inside
      rw [← inside.1]
      exact List.count_le_length.trans (List.length_filterMap_le _ _)
    have bounded (counts : List Nat) (start : Nat) (first : start ≤ owners.length)
        (each : ∀ count ∈ counts, count ≤ owners.length) :
        counts.foldl max start ≤ owners.length := by
      induction counts generalizing start with
      | nil => exact first
      | cons count rest inductionHypothesis =>
        exact inductionHypothesis _ (Nat.max_le.mpr ⟨first, each count List.mem_cons_self⟩)
          (fun other member => each other (List.mem_cons_of_mem _ member))
    exact bounded _ 0 (Nat.zero_le _) counted

/-- Sets that are collected from pairs are not empty. -/
theorem collectSets_nonempty {Key Item : Type} [DecidableEq Key] [LinearOrder Item]
    {pairs : List (Key × Item)} {key : Key} {items : BTreeSet Item}
    (found : (collectSets pairs).lookup key = some items) : 1 ≤ items.keys.length := by
  have known : key ∈ pairs.map Prod.fst := by
    rw [← collectSets_isSome, found]
    rfl
  obtain ⟨⟨key, item⟩, member, rfl⟩ := List.mem_map.mp known
  exact List.length_pos_of_mem ((mem_collectSets found item).mpr member)

/-- The mean size of sets that are collected from pairs. -/
theorem collectSets_mean {Key Item : Type} [DecidableEq Key] [LinearOrder Item]
    (order : HashOrder) (label : List Nat) {pairs : List (Key × Item)} {most : Nat}
    (some : (collectSets pairs).entries ≠ []) (few : pairs.length ≤ most) (small : most < 2 ^ 53) :
    Mean (sumF64 ((order.iterate label (collectSets pairs)).map
      (fun entry => F64.ofU64 entry.2.keys.length)) /
        F64.ofU64 (collectSets pairs).entries.length) most := by
  have sizes := sum_collectSets_le order label pairs
  have each := List.length_le_sum_of_one_le
    ((order.iterate label (collectSets pairs)).map (fun entry => entry.2.keys.length)) (by
      rintro size member
      obtain ⟨⟨key, items⟩, inside, rfl⟩ := List.mem_map.mp member
      exact collectSets_nonempty ((order.mem_iterate _ _ _ _).mp inside))
  rw [List.length_map, (order.iterate_perm _ _).length_eq, List.length_map] at each
  rw [sumF64_collectSets order label (few.trans_lt small)]
  exact quotient_mean (List.length_pos_iff.mpr some) each (sizes.trans few)
    (small.le.trans (by decide))

theorem mean_one {most : Nat} (some : 1 ≤ most) (word : most ≤ u64Max) : Mean 1.0 most :=
  ⟨(normal_one.le_iff normal_one).mpr (le_refl 1),
    (normal_one.le_iff (ofU64_normal some word)).mpr (count_bounds some word).1⟩

/-- Every operator has at least one cluster, and all together not more than owned accounts. -/
theorem fragmentationOf_mean (order : HashOrder) {owners : List (AccountId × AgentId)}
    (few : owners.length < 2 ^ 53) (clusterOf : HashMap AccountId Nat) :
    Mean (fragmentationOf order owners clusterOf) (max 1 owners.length) := by
  have small : max 1 owners.length < 2 ^ 53 := by omega
  unfold fragmentationOf
  dsimp only
  split
  · exact mean_one (le_max_left _ _) (small.le.trans (by decide))
  · rename_i some
    rw [List.isEmpty_iff] at some
    exact collectSets_mean order [8, 4] some
      ((List.length_filterMap_le _ _).trans (le_max_right _ _)) small

/-- Behind every funder that counts there is an operator, and not more than fee payers. -/
theorem anonymitySizes_mean (order : HashOrder) {records : List TxRecord}
    (few : records.length < 2 ^ 53) :
    Mean (if (anonymitySizes order records).isEmpty then 1.0
      else F64.ofU64 (anonymitySizes order records).sum /
        F64.ofU64 (anonymitySizes order records).length) (max 1 records.length) := by
  have word : max 1 records.length ≤ u64Max := le_trans (by omega) (by decide : 2 ^ 53 ≤ u64Max)
  split
  · exact mean_one (le_max_left _ _) word
  · rename_i some
    rw [List.isEmpty_iff] at some
    have positive (size : Nat) (member : size ∈ anonymitySizes order records) : 1 ≤ size := by
      obtain ⟨entry, _, sized⟩ := List.mem_filterMap.mp member
      dsimp only at sized
      split at sized
      · exact absurd sized (by simp)
      · split at sized
        · exact absurd sized (by simp)
        · rename_i nonzero
          rw [← Option.some.inj sized]
          exact Nat.pos_of_ne_zero nonzero
    refine quotient_mean (List.length_pos_iff.mpr some)
      (List.length_le_sum_of_one_le _ positive) (le_trans ?_ (le_max_right _ _)) word
    unfold anonymitySizes
    rw [sum_filterMap]
    refine (List.sum_le_sum (fun entry _ => ?_)).trans ((sum_collectSets_le order [8, 6]
      ((records.filter (fun r => r.source ≠ r.dest &&
        r.dest ∈ (records.map (·.feePayer)).toFinset)).map (fun r => (r.source, r.dest)))).trans ?_)
    · dsimp only
      split
      · exact Nat.zero_le _
      · split
        · exact Nat.zero_le _
        · exact (List.toFinset_card_le _).trans (List.length_filterMap_le _ _)
    · rw [List.length_map]
      exact List.length_filter_le _ _

/-! ### Reports in range -/

/-- Every score of a report is in its range: the rates between zero and one, and the means from
one up to the number of things they are taken over. -/
structure Report.InRange (report : Report) (records : Nat) : Prop where
  attributionF1 : Rate report.attributionF1
  linkageRecall : Rate report.linkageRecall
  attributionPrecision : Rate report.attributionPrecision
  burstPurity : Rate report.burstPurity
  windowPurity : Rate report.windowPurity
  largestClusterFrac : Rate report.largestClusterFrac
  fragmentation : Mean report.fragmentation (max 1 report.ownedAccounts)
  funderAnonymitySet : Mean report.funderAnonymitySet (max 1 records)

/-- Whatever clustering of whatever ledger is scored, every score of the report is in range, after
all rounding. -/
theorem report_in_range (order : HashOrder) (ledger : Ledger) (clustering : Clustering)
    (windowSecs : Int) (report : Report) (few : ledger.records.length < 2 ^ 53)
    (scored : evaluate order ledger clustering windowSecs = some report) :
    report.InRange ledger.records.length := by
  have owners : (order.iterate [8, 0] ledger.ownership).length < 2 ^ 53 := by
    rw [(order.iterate_perm _ _).length_eq, List.length_map]
    exact (ownership_length_le ledger).trans_lt few
  simp only [evaluate, confusion, Option.bind_eq_bind, Option.bind_eq_some_iff, Option.pure_def,
    Option.some_inj] at scored
  obtain ⟨counts, ⟨tp, cells, predPos, clusters, sameOpPairs, operators, rfl⟩, fp, falsePositive,
    fn, falseNegative, predicted, predictedSum, actual, actualSum, bursts, _, burstPurity, burst,
    windowPurity, window, rfl⟩ := scored
  obtain ⟨word, rfl⟩ := checkedU64_eq_some.mp predictedSum
  obtain ⟨word', rfl⟩ := checkedU64_eq_some.mp actualSum
  obtain ⟨within, rfl⟩ := checkedSub_eq_some.mp falseNegative
  dsimp only at word word' within
  rw [Nat.add_sub_cancel' within] at word'
  exact {
    attributionF1 := f1Of_rate word (by rwa [Nat.add_sub_cancel' within])
    linkageRecall := quotientOf_rate within word'
    attributionPrecision := quotientOf_rate (Nat.le_add_right _ _) word
    burstPurity := purity_rate burst
    windowPurity := purity_rate window
    largestClusterFrac := largestShare_rate order (owners.le.trans (by decide)) _
    fragmentation := fragmentationOf_mean order owners _
    funderAnonymitySet := anonymitySizes_mean order few }

/-- One pair that is found and two that are wrong. -/
theorem report_in_range_lumped : ∃ report,
    evaluate .asWritten twoOperators lumped 0 = some report ∧ report.InRange 3 := by
  have inRange : BurstsInRange twoOperators.records := by unfold BurstsInRange; decide
  obtain ⟨report, scored⟩ := evaluate_of_small .asWritten lumped 0 (by decide) inRange
  exact ⟨report, scored,
    report_in_range .asWritten twoOperators lumped 0 report (by decide) scored⟩

/-! ### Scores of one -/

theorem zero_ne_one_score : (0.0 : Float) ≠ 1.0 := by
  intro same
  have values := congrArg value same
  rw [zero_number.2, normal_one.value_eq] at values
  exact zero_ne_one values

section Perfect

variable {part whole : Nat}

/-- What is missing is not rounded away. -/
theorem quotient_below (some : 0 < part) (less : part < whole) (small : whole ≤ 2 ^ 49) :
    nearest (nearest part / nearest whole) ≤ 1 - 1 / 2 ^ 49 := by
  have positive : (0 : ℚ) < part := Nat.cast_pos.mpr some
  have positive' : (0 : ℚ) < whole := Nat.cast_pos.mpr (some.trans less)
  have below : (part : ℚ) + 1 ≤ whole := by exact_mod_cast less
  have most : (whole : ℚ) ≤ 2 ^ 49 := by exact_mod_cast small
  rw [(short_natCast (by omega)).nearest_eq positive,
    (short_natCast (by omega)).nearest_eq positive']
  refine nearest_le (div_pos positive positive') ?_ (short_below_one (by decide))
  rw [div_le_iff₀ positive']
  linarith

theorem quotient_eq_one (some : 0 < whole) (within : part ≤ whole) (small : whole ≤ 2 ^ 49) :
    F64.ofU64 part / F64.ofU64 whole = 1.0 ↔ part = whole := by
  have word : whole ≤ u64Max := small.trans (by decide)
  constructor
  · intro one
    rcases Nat.eq_zero_or_pos part with rfl | found
    · rw [quotient_zero some word] at one
      exact absurd one zero_ne_one_score
    · by_contra different
      have below := quotient_below found (lt_of_le_of_ne within different) small
      rw [(quotient_share found within word).normal.eq_one one] at below
      norm_num at below
  · rintro rfl
    exact F64.ofU64_div_self some word

theorem quotientOf_eq_one (within : part ≤ whole) (small : whole ≤ 2 ^ 49) :
    quotientOf F64.ofU64 part whole = 1.0 ↔ 0 < part ∧ part = whole := by
  unfold quotientOf
  split
  · rename_i some
    rw [quotient_eq_one some within small]
    exact ⟨fun same => ⟨same.symm ▸ some, same⟩, fun both => both.2⟩
  · exact ⟨fun one => absurd one zero_ne_one_score, fun both => by omega⟩

theorem pooledOf_eq_one (within : part ≤ whole) (small : whole ≤ 2 ^ 49) :
    pooledOf F64.ofU64 part whole = 1.0 ↔ part = whole := by
  unfold pooledOf
  split
  · rename_i some
    exact quotient_eq_one some within small
  · exact ⟨fun _ => by omega, fun _ => rfl⟩

/-- The harmonic mean of shares of which one is not quite one. -/
theorem f1_below {a b : ℚ} (one : 0 < a) (two : 0 < b) (most : a ≤ 1) (most' : b ≤ 1)
    (below : a ≤ 1 - 1 / 2 ^ 49 ∨ b ≤ 1 - 1 / 2 ^ 49) :
    nearest (nearest (2 * a * b) / nearest (a + b)) ≤ 1 - 1 / 2 ^ 53 := by
  have product : (0 : ℚ) < 2 * a * b := by positivity
  have sum : 0 < a + b := by positivity
  have exact : 2 * a * b ≤ (a + b) * (1 - 1 / 2 ^ 50) := by
    rcases below with small | small <;> rcases le_total a b with less | less <;> nlinarith
  have up := (abs_le.mp (nearest_error product)).2
  have down := (abs_le.mp (nearest_error sum)).1
  have above := nearest_pos sum
  refine nearest_le (div_pos (nearest_pos product) above) ?_ (short_below_one (le_refl 53))
  rw [div_le_iff₀ above]
  calc nearest (2 * a * b)
      ≤ 2 * a * b * (1 + 1 / 2 ^ 53) := by linarith
    _ ≤ (a + b) * (1 - 1 / 2 ^ 50) * (1 + 1 / 2 ^ 53) := by
        exact mul_le_mul_of_nonneg_right exact (by norm_num)
    _ ≤ (1 - 1 / 2 ^ 53) * ((a + b) * (1 - 1 / 2 ^ 53)) := by
        norm_num at sum ⊢
        linarith
    _ ≤ (1 - 1 / 2 ^ 53) * nearest (a + b) := by
        refine mul_le_mul_of_nonneg_left ?_ (by norm_num)
        linarith

/-- The F1 score is one exactly when something is found and nothing is wrong. -/
theorem f1Of_eq_one {tp fp fn : Nat} (small : tp + fp ≤ 2 ^ 49) (small' : tp + fn ≤ 2 ^ 49) :
    f1Of F64.ofU64 tp fp fn = 1.0 ↔ 0 < tp ∧ fp = 0 ∧ fn = 0 := by
  have word : tp + fp ≤ u64Max := small.trans (by decide)
  have word' : tp + fn ≤ u64Max := small'.trans (by decide)
  unfold f1Of
  rcases Nat.eq_zero_or_pos tp with rfl | found
  · rw [quotientOf_zero word, quotientOf_zero word']
    exact ⟨fun one => absurd one zero_ne_one_score, fun all => absurd all.1 (lt_irrefl 0)⟩
  · have first := quotient_share found (Nat.le_add_right tp fp) word
    have second := quotient_share found (Nat.le_add_right tp fn) word'
    rw [and_iff_right found]
    unfold quotientOf
    rw [if_pos (Nat.add_pos_left found fp), if_pos (Nat.add_pos_left found fn)]
    constructor
    · intro one
      by_contra wrong
      have below : nearest (nearest tp / nearest (tp + fp : Nat)) ≤ 1 - 1 / 2 ^ 49 ∨
          nearest (nearest tp / nearest (tp + fn : Nat)) ≤ 1 - 1 / 2 ^ 49 := by
        rcases Nat.eq_zero_or_pos fp with none | some
        · exact Or.inr (quotient_below found (by omega) small')
        · exact Or.inl (quotient_below found (by omega) small)
      have strict := f1_below first.normal.positive second.normal.positive first.most second.most
        below
      dsimp only at one
      split at one
      · rw [(f1_normal first second).2.eq_one one] at strict
        norm_num at strict
      · exact zero_ne_one_score one
    · rintro ⟨rfl, rfl⟩
      rw [Nat.add_zero, F64.ofU64_div_self found word]
      decide +kernel

end Perfect

/-! ### Pure groups -/

/-- No two owned sources of a group have different operators. -/
def PureGroups (ledger : Ledger) (groups : List (List TxRecord)) : Prop :=
  ∀ group ∈ groups, ∀ first ∈ ownedSources ledger group, ∀ second ∈ ownedSources ledger group,
    SameOperator ledger first second

section Groups

variable {ledger : Ledger}

/-- A group has no more pairs of owned sources than pairs of records. -/
theorem ownedSources_pairs_le (group : List TxRecord) :
    pairsWhere (ownedSources ledger group) (fun _ _ => True) ≤ group.length.choose 2 := by
  have sources : ownedSources ledger group ⊆ (group.map (·.source)).toFinset := by
    intro account member
    obtain ⟨_, record, inside, rfl⟩ := Finset.mem_filter.mp member
    exact List.mem_toFinset.mpr (List.mem_map_of_mem inside)
  have few : (ownedSources ledger group).card ≤ group.length := by
    refine (Finset.card_le_card sources).trans ((List.toFinset_card_le _).trans_eq ?_)
    exact List.length_map _
  have pairs := choose_two_eq (ownedSources ledger group).nodup_toList
  rw [Finset.length_toList, Finset.toList_toFinset] at pairs
  rw [← pairs]
  exact Nat.choose_le_choose 2 few

theorem sharedPairs_le (groups : List (List TxRecord)) :
    sharedPairs ledger groups ≤ (groups.map List.length).sum.choose 2 := by
  unfold sharedPairs
  induction groups with
  | nil => exact le_refl 0
  | cons group rest inductionHypothesis =>
    rw [List.map_cons, List.sum_cons, List.map_cons, List.sum_cons]
    exact (Nat.add_le_add (ownedSources_pairs_le group) inductionHypothesis).trans
      (choose_two_add_le _ _)

theorem pairs_pure_iff (group : List TxRecord) :
    pairsWhere (ownedSources ledger group) (SameOperator ledger) =
        pairsWhere (ownedSources ledger group) (fun _ _ => True) ↔
      ∀ first ∈ ownedSources ledger group, ∀ second ∈ ownedSources ledger group,
        SameOperator ledger first second := by
  have split : pairsWhere (ownedSources ledger group) (fun _ _ => True) = _ :=
    pairsWhere_split (fun _ _ => True) (SameOperator ledger)
  have same : pairsWhere (ownedSources ledger group)
      (fun first second => SameOperator ledger first second ∧ True) =
        pairsWhere (ownedSources ledger group) (SameOperator ledger) :=
    pairsWhere_congr (fun _ _ _ _ => and_iff_left trivial)
  have mixed : pairsWhere (ownedSources ledger group)
      (fun first second => ¬ SameOperator ledger first second ∧ True) = 0 ↔ _ :=
    pairsWhere_eq_zero (fun _ _ apart => ⟨fun equal => apart.1 equal.symm, trivial⟩)
  rw [same] at split
  constructor
  · intro equal first one second two
    by_contra apart
    have different : first ≠ second := fun equal => apart (equal ▸ rfl)
    exact mixed.mp (by omega) first one second two different ⟨apart, trivial⟩
  · intro pure
    have none := mixed.mpr (fun first one second two _ apart => apart.1 (pure first one second two))
    omega

theorem purePairs_eq_iff (groups : List (List TxRecord)) :
    purePairs ledger groups = sharedPairs ledger groups ↔ PureGroups ledger groups := by
  induction groups with
  | nil => exact ⟨fun _ group member => absurd member List.not_mem_nil, fun _ => rfl⟩
  | cons group rest inductionHypothesis =>
    have here : pairsWhere (ownedSources ledger group) (SameOperator ledger) = _ ↔ _ :=
      pairs_pure_iff group
    have less : pairsWhere (ownedSources ledger group) (SameOperator ledger) ≤
        pairsWhere (ownedSources ledger group) (fun _ _ => True) :=
      pairsWhere_le (fun _ _ _ => trivial)
    have later := purePairs_le ledger rest
    have unfolded : purePairs ledger (group :: rest) = sharedPairs ledger (group :: rest) ↔
        pairsWhere (ownedSources ledger group) (SameOperator ledger) + purePairs ledger rest =
          pairsWhere (ownedSources ledger group) (fun _ _ => True) + sharedPairs ledger rest :=
      Iff.rfl
    rw [unfolded]
    unfold PureGroups
    rw [List.forall_mem_cons, ← here]
    refine Iff.trans ?_ (and_congr_right (fun _ => inductionHypothesis))
    omega

end Groups

/-! ### Perfect scores -/

section Scores

variable {label : AccountId → Option AgentId} {ledger : Ledger} {clustering : Clustering}

theorem choose_two_small {count : Nat} (few : count ≤ 2 ^ 25) : count.choose 2 ≤ 2 ^ 49 :=
  (Nat.choose_le_choose 2 few).trans (by rw [Nat.choose_two_right]; decide)

/-- The pairs of owned accounts. -/
theorem pairs_small (few : ledger.records.length ≤ 2 ^ 25)
    (holds : AccountId → AccountId → Prop) [DecidableRel holds] :
    pairsWhere (attributedAccounts ledger) holds ≤ 2 ^ 49 := by
  have pairs := choose_two_eq ledger.ownership.keys_nodup
  have owned := ownership_length_le ledger
  have keys : ledger.ownership.keys.length = ledger.ownership.entries.length := List.length_map _
  calc pairsWhere (attributedAccounts ledger) holds
      ≤ pairsWhere (attributedAccounts ledger) (fun _ _ => True) :=
        pairsWhere_le (fun _ _ _ => trivial)
    _ = ledger.ownership.keys.length.choose 2 := pairs.symm
    _ ≤ 2 ^ 49 := choose_two_small (by omega)

/-- A score of one is never an artefact of rounding. On a ledger of up to 2 ^ 25 records whose
sources have one label each, and for a clustering that covers the owned accounts, the precision is
one exactly when a pair is found and no pair is wrong, the recall is one exactly when a pair is
found and no pair is missed, the F1 score is one exactly for the operator partition with a pair to
find, and a purity is one exactly when no group mixes operators. -/
theorem perfect_scores (labelled : LabelledBy label ledger.records)
    (covers : ∀ account ∈ attributedAccounts ledger, (clustering.clusterOf.lookup account).isSome)
    (order : HashOrder) (windowSecs : Int) (report : Report)
    (few : ledger.records.length ≤ 2 ^ 25)
    (scored : evaluate order ledger clustering windowSecs = some report) :
    (report.attributionPrecision = 1.0 ↔
      0 < truePositives ledger clustering ∧ falsePositives ledger clustering = 0) ∧
    (report.linkageRecall = 1.0 ↔
      0 < truePositives ledger clustering ∧ falseNegatives ledger clustering = 0) ∧
    (report.attributionF1 = 1.0 ↔
      (∃ first ∈ attributedAccounts ledger, ∃ second ∈ attributedAccounts ledger,
        first ≠ second ∧ SameOperator ledger first second) ∧
      ∀ first ∈ attributedAccounts ledger, ∀ second ∈ attributedAccounts ledger, first ≠ second →
        (SameCluster clustering first second ↔ SameOperator ledger first second)) ∧
    (∃ bursts, burstGroups ledger.records = some bursts ∧
      (report.burstPurity = 1.0 ↔ PureGroups ledger bursts)) ∧
    (report.windowPurity = 1.0 ↔
      PureGroups ledger (windowGroups ledger.records windowSecs)) := by
  have predictedPairs : truePositives ledger clustering + falsePositives ledger clustering ≤
      2 ^ 49 := by
    have split : pairsWhere (attributedAccounts ledger) (SameCluster clustering) = _ :=
      pairsWhere_split (SameCluster clustering) (SameOperator ledger)
    exact split.symm.trans_le (pairs_small few _)
  have actualPairs : truePositives ledger clustering + falseNegatives ledger clustering ≤
      2 ^ 49 := by
    have split : pairsWhere (attributedAccounts ledger) (SameOperator ledger) = _ :=
      pairsWhere_split (SameOperator ledger) (SameCluster clustering)
    have found : pairsWhere (attributedAccounts ledger) (fun first second =>
        SameCluster clustering first second ∧ SameOperator ledger first second) =
          truePositives ledger clustering := pairsWhere_congr (fun _ _ _ _ => and_comm)
    have missed : pairsWhere (attributedAccounts ledger) (fun first second =>
        ¬ SameCluster clustering first second ∧ SameOperator ledger first second) =
          falseNegatives ledger clustering := pairsWhere_congr (fun _ _ _ _ => and_comm)
    rw [← found, ← missed, ← split]
    exact pairs_small few _
  have groupsSmall {groups : List (List TxRecord)}
      (all : (groups.map List.length).sum = ledger.records.length) :
      sharedPairs ledger groups ≤ 2 ^ 49 :=
    (sharedPairs_le groups).trans (choose_two_small (all.trans_le few))
  simp only [evaluate, Option.bind_eq_bind, Option.bind_eq_some_iff, Option.pure_def,
    Option.some_inj] at scored
  obtain ⟨counts, counted, fp, falsePositive, fn, falseNegative, predicted, predictedSum, actual,
    actualSum, bursts, grouped, burstPurity, burst, windowPurity, window, rfl⟩ := scored
  obtain ⟨tp, predPos, sameOpPairs⟩ := confusion_pairwise covers counted
  obtain ⟨_, rfl⟩ := checkedU64_eq_some.mp predictedSum
  obtain ⟨_, rfl⟩ := checkedU64_eq_some.mp actualSum
  obtain ⟨_, rfl⟩ := checkedSub_eq_some.mp falsePositive
  obtain ⟨_, rfl⟩ := checkedSub_eq_some.mp falseNegative
  have burstShare := purity_eq labelled (fun _ member _ => mem_of_burstGroups grouped member) burst
  have windowShare := purity_eq labelled (fun _ member _ => mem_of_windowGroups member) window
  rw [tp, predPos, sameOpPairs, Nat.add_sub_cancel_left, Nat.add_sub_cancel_left]
  refine ⟨(quotientOf_eq_one (Nat.le_add_right _ _) predictedPairs).trans ?_,
    (quotientOf_eq_one (Nat.le_add_right _ _) actualPairs).trans ?_,
    (f1Of_eq_one predictedPairs actualPairs).trans exact_partition_iff,
    ⟨bursts, grouped, ?_⟩, ?_⟩
  · rw [Nat.left_eq_add]
  · rw [Nat.left_eq_add]
  · rw [burstShare, ← purePairs_eq_iff]
    exact pooledOf_eq_one (purePairs_le ledger bursts)
      (groupsSmall (sum_length_burstGroups grouped))
  · rw [windowShare, ← purePairs_eq_iff]
    exact pooledOf_eq_one (purePairs_le ledger _) (groupsSmall (sum_length_windowGroups _ _))

end Scores

/-- The accounts of each operator in one cluster. -/
def separated : Clustering where
  clusterOf := insertAll [(⟨1⟩, 0), (⟨2⟩, 0), (⟨3⟩, 1)]
  sizes := [2, 1]

/-- The operator partition scores one, and one cluster for all does not. -/
theorem perfect_scores_separated : ∃ (perfect lump : Report),
    evaluate .asWritten twoOperators separated 0 = some perfect ∧
      evaluate .asWritten twoOperators lumped 0 = some lump ∧
      perfect.attributionF1 = 1.0 ∧ lump.attributionF1 ≠ 1.0 := by
  have inRange : BurstsInRange twoOperators.records := by unfold BurstsInRange; decide
  have labelled : LabelledBy (fun account => if account = ⟨3⟩ then some 1 else some 0)
      twoOperators.records := by unfold LabelledBy; decide
  obtain ⟨perfect, scored⟩ := evaluate_of_small .asWritten separated 0 (by decide) inRange
  obtain ⟨lump, scored'⟩ := evaluate_of_small .asWritten lumped 0 (by decide) inRange
  refine ⟨perfect, lump, scored, scored', ?_, fun one => ?_⟩
  · refine (perfect_scores labelled (by decide) .asWritten 0 perfect (by decide)
      scored).2.2.1.mpr ?_
    decide
  · have exact := (perfect_scores labelled (by decide) .asWritten 0 lump (by decide)
      scored').2.2.1.mp one
    revert exact
    decide

end AccountCooker
