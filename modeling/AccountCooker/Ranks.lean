/-
This file is about the rank sum of Wilcoxon and the statistic of Mann and
Whitney. Some items are positive, and all are sorted by a key and cut into
groups of tied items; the rank of an item is the average of the positions of its
group. The sum of the ranks of the positive items exceeds the least it can be by
the number of pairs of a positive and a negative item in which the positive one
has the larger key, where a tied pair counts for one half. The file names nothing
of the program.
-/

import Mathlib
import AccountCooker.Collections

namespace Ranks

open Collections

variable {Item Key : Type} [LinearOrder Key]

/-! ### Pairs -/

/-- The pairs of a positive and a negative item. -/
def mixedPairs (positive : Item → Bool) (items : List Item) : List (Item × Item) :=
  items.filter positive ×ˢ items.filter (fun item => !positive item)

/-- In how many pairs of a positive and a negative item the positive one has the larger key. -/
def above (key : Item → Key) (positive : Item → Bool) (items : List Item) : Nat :=
  (mixedPairs positive items).countP (fun pair => key pair.2 < key pair.1)

/-- In how many pairs of a positive and a negative item the two are tied. -/
def level (key : Item → Key) (positive : Item → Bool) (items : List Item) : Nat :=
  (mixedPairs positive items).countP (fun pair => key pair.1 = key pair.2)

variable {First Second : Type}

omit [LinearOrder Key] in
theorem countP_product_append_left (first others : List First) (second : List Second)
    (test : First × Second → Bool) : ((first ++ others) ×ˢ second).countP test =
      (first ×ˢ second).countP test + (others ×ˢ second).countP test := by
  rw [countP_product, countP_product, countP_product, List.map_append, List.sum_append]

theorem countP_product_append_right (first : List First) (second others : List Second)
    (test : First × Second → Bool) : (first ×ˢ (second ++ others)).countP test =
      (first ×ˢ second).countP test + (first ×ˢ others).countP test := by
  simp only [countP_product, List.countP_append]
  exact List.sum_map_add

/-- A test that all pairs pass. -/
theorem countP_product_all {first : List First} {second : List Second}
    {test : First × Second → Bool} (all : ∀ x ∈ first, ∀ y ∈ second, test (x, y) = true) :
    (first ×ˢ second).countP test = first.length * second.length := by
  rw [← List.length_product, List.countP_eq_length]
  rintro ⟨x, y⟩ member
  obtain ⟨one, other⟩ := List.mem_product.mp member
  exact all x one y other

/-- A test that no pair passes. -/
theorem countP_product_none {first : List First} {second : List Second}
    {test : First × Second → Bool} (none : ∀ x ∈ first, ∀ y ∈ second, ¬ test (x, y) = true) :
    (first ×ˢ second).countP test = 0 := by
  rw [List.countP_eq_zero]
  rintro ⟨x, y⟩ member
  obtain ⟨one, other⟩ := List.mem_product.mp member
  exact none x one y other

/-- The pairs of one item. -/
theorem countP_product_singleton (x : First) (second : List Second)
    (test : First × Second → Bool) :
    (second ×ˢ [x]).countP (fun pair => test pair.swap) =
      second.countP (fun y => test (x, y)) := by
  induction second with
  | nil => rfl
  | cons y rest inductionHypothesis =>
    rw [List.product_cons, List.countP_append, inductionHypothesis, List.countP_map,
      List.countP_singleton, List.countP_cons, Nat.add_comm]
    rfl

/-- Pairs are counted from either side. -/
theorem countP_product_swap (first : List First) (second : List Second)
    (test : First × Second → Bool) : (first ×ˢ second).countP test =
      (second ×ˢ first).countP (fun pair => test pair.swap) := by
  induction first with
  | nil => rw [List.nil_product, List.product_nil]; rfl
  | cons x rest inductionHypothesis =>
    rw [List.product_cons, List.countP_append, List.countP_map, inductionHypothesis,
      ← List.singleton_append, countP_product_append_right, countP_product_singleton]
    rfl

/-! ### Groups of tied items -/

/-- Groups of tied items, in the order of their keys. -/
structure TieGroups (key : Item → Key) (groups : List (List Item)) : Prop where
  tied : ∀ group ∈ groups, ∀ x ∈ group, ∀ y ∈ group, key x = key y
  rising : groups.Pairwise (fun group later => ∀ x ∈ group, ∀ y ∈ later, key x < key y)

variable {key : Item → Key} {positive : Item → Bool}

variable (positive) in
/-- What a last group of tied items adds to the pairs. -/
theorem mixedPairs_append {items group : List Item}
    (tied : ∀ x ∈ group, ∀ y ∈ group, key x = key y)
    (rising : ∀ x ∈ items, ∀ y ∈ group, key x < key y) :
    above key positive (items ++ group) = above key positive items +
      group.countP positive * items.countP (fun item => !positive item) ∧
    level key positive (items ++ group) = level key positive items +
      group.countP positive * group.countP (fun item => !positive item) := by
  have inside {test : Item → Bool} {list : List Item} {item : Item}
      (member : item ∈ list.filter test) : item ∈ list := (List.mem_filter.mp member).1
  simp only [List.countP_eq_length_filter (p := positive),
    List.countP_eq_length_filter (p := fun item => !positive item)]
  unfold above level mixedPairs
  simp only [List.filter_append, countP_product_append_left, countP_product_append_right]
  constructor
  · have upper : (group.filter positive ×ˢ items.filter (fun item => !positive item)).countP
        (fun pair => key pair.2 < key pair.1) = (group.filter positive).length *
          (items.filter (fun item => !positive item)).length :=
      countP_product_all (fun x one y other =>
        decide_eq_true (rising y (inside other) x (inside one)))
    have lower : (items.filter positive ×ˢ group.filter (fun item => !positive item)).countP
        (fun pair => key pair.2 < key pair.1) = 0 :=
      countP_product_none (fun x one y other => by
        simp [(rising x (inside one) y (inside other)).le])
    have within : (group.filter positive ×ˢ group.filter (fun item => !positive item)).countP
        (fun pair => key pair.2 < key pair.1) = 0 :=
      countP_product_none (fun x one y other => by
        simp [tied x (inside one) y (inside other)])
    rw [upper, lower, within]
    ring
  · have upper : (group.filter positive ×ˢ items.filter (fun item => !positive item)).countP
        (fun pair => key pair.1 = key pair.2) = 0 :=
      countP_product_none (fun x one y other => by
        simp [(rising y (inside other) x (inside one)).ne'])
    have lower : (items.filter positive ×ˢ group.filter (fun item => !positive item)).countP
        (fun pair => key pair.1 = key pair.2) = 0 :=
      countP_product_none (fun x one y other => by
        simp [(rising x (inside one) y (inside other)).ne])
    have within : (group.filter positive ×ˢ group.filter (fun item => !positive item)).countP
        (fun pair => key pair.1 = key pair.2) = (group.filter positive).length *
          (group.filter (fun item => !positive item)).length :=
      countP_product_all (fun x one y other =>
        decide_eq_true (tied x (inside one) y (inside other)))
    rw [upper, lower, within]
    ring

/-- The order of the items does not matter. -/
theorem above_perm {items others : List Item} (perm : items.Perm others) :
    above key positive items = above key positive others :=
  ((perm.filter _).product (perm.filter _)).countP_eq _

theorem level_perm {items others : List Item} (perm : items.Perm others) :
    level key positive items = level key positive others :=
  ((perm.filter _).product (perm.filter _)).countP_eq _

/-! ### The rank sum -/

/-- The positions met so far, and the sum of the ranks of the positive items: each item of a
group has the average of its positions. -/
def rankStep (positive : Item → Bool) (state : Nat × ℚ) (group : List Item) : Nat × ℚ :=
  (state.1 + group.length,
    state.2 + group.countP positive * ((state.1 + 1 + (state.1 + group.length) : Nat) / 2 : ℚ))

variable (positive) in
theorem countP_add_countP_not (items : List Item) :
    items.countP positive + items.countP (fun item => !positive item) = items.length := by
  rw [List.length_eq_countP_add_countP positive]
  congr 2
  funext item
  cases positive item <;> rfl

variable (positive) in
/-- The ranks of the positive items add up to the least they can, and the pairs above. -/
theorem rankSum_eq {groups : List (List Item)} (tied : TieGroups key groups) :
    groups.foldl (rankStep positive) (0, 0) = (groups.flatten.length,
      (groups.flatten.countP positive * (groups.flatten.countP positive + 1) : Nat) / 2 +
        (above key positive groups.flatten + level key positive groups.flatten / 2 : ℚ)) := by
  induction groups using List.reverseRecOn with
  | nil => simp [above, level, mixedPairs]
  | append_singleton groups group inductionHypothesis =>
    obtain ⟨earlier, _, across⟩ := List.pairwise_append.mp tied.rising
    have before : TieGroups key groups :=
      ⟨fun other member => tied.tied other (List.mem_append_left _ member), earlier⟩
    obtain ⟨pairs, ties⟩ := mixedPairs_append positive
      (tied.tied group (List.mem_append_right _ (List.mem_singleton.mpr rfl)))
      (fun x one y other => by
        obtain ⟨former, member, inside⟩ := List.mem_flatten.mp one
        exact across former member group (List.mem_singleton.mpr rfl) x inside y other)
    have sizes := countP_add_countP_not positive groups.flatten
    have size := countP_add_countP_not positive group
    rw [List.foldl_append, inductionHypothesis before, List.foldl_cons, List.foldl_nil,
      List.flatten_append, List.flatten_singleton, pairs, ties, List.countP_append,
      List.length_append]
    unfold rankStep
    refine Prod.ext rfl ?_
    rw [← sizes, ← size]
    push_cast
    ring

/-! ### The statistic -/

/-- The share of the pairs of a positive and a negative item in which the positive one is above,
where a tie counts for one half. -/
def statistic (key : Item → Key) (positive : Item → Bool) (items : List Item) : ℚ :=
  (above key positive items + level key positive items / 2) /
    (items.countP positive * items.countP (fun item => !positive item))

theorem length_mixedPairs (items : List Item) : (mixedPairs positive items).length =
    items.countP positive * items.countP (fun item => !positive item) := by
  unfold mixedPairs
  rw [List.length_product, List.countP_eq_length_filter, List.countP_eq_length_filter]

variable (key positive) in
/-- A pair is above, level, or above the other way round. -/
theorem above_add_level (items : List Item) :
    above key positive items + level key positive items +
      above key (fun item => !positive item) items = (mixedPairs positive items).length := by
  have turned : above key (fun item => !positive item) items =
      (mixedPairs positive items).countP (fun pair => key pair.1 < key pair.2) := by
    unfold above mixedPairs
    rw [countP_product_swap]
    simp only [Bool.not_not]
    rfl
  rw [turned]
  unfold above level
  induction mixedPairs positive items with
  | nil => rfl
  | cons pair rest inductionHypothesis =>
    rw [List.countP_cons, List.countP_cons, List.countP_cons, List.length_cons,
      ← inductionHypothesis]
    rcases lt_trichotomy (key pair.1) (key pair.2) with below | same | larger
    · simp only [below, below.not_gt, below.ne, decide_true, decide_false, if_true, if_false,
        Bool.false_eq_true]
      omega
    · simp only [same, lt_irrefl, decide_true, decide_false, if_true, if_false,
        Bool.false_eq_true]
      omega
    · simp only [larger, larger.not_gt, larger.ne', decide_true, decide_false, if_true, if_false,
        Bool.false_eq_true]
      omega

/-- Ties are ties either way. -/
theorem level_not (items : List Item) :
    level key (fun item => !positive item) items = level key positive items := by
  unfold level mixedPairs
  rw [countP_product_swap]
  simp only [Bool.not_not]
  exact List.countP_congr (fun pair _ => by simp [eq_comm])

section Statistic

variable {items : List Item}

theorem countP_mixedPairs_map {Other : Type} (image : Other → Item) (others : List Other)
    (test : Item × Item → Bool) : (mixedPairs positive (others.map image)).countP test =
      (mixedPairs (fun other => positive (image other)) others).countP
        (fun pair => test (image pair.1, image pair.2)) := by
  unfold mixedPairs
  rw [List.filter_map, List.filter_map, countP_product, countP_product, List.map_map]
  simp only [List.countP_map, Function.comp_def]

/-- A change of the items that keeps their order and their labels keeps the statistic. -/
theorem statistic_map {Other Key' : Type} [LinearOrder Key'] {image : Other → Item}
    {others : List Other} {key' : Other → Key'}
    (ordered : ∀ x ∈ others, ∀ y ∈ others, key (image x) < key (image y) ↔ key' x < key' y) :
    statistic key positive (others.map image) =
      statistic key' (fun other => positive (image other)) others := by
  have inside {pair : Other × Other}
      (member : pair ∈ mixedPairs (fun other => positive (image other)) others) :
      pair.1 ∈ others ∧ pair.2 ∈ others := by
    obtain ⟨one, other⟩ := List.mem_product.mp member
    exact ⟨(List.mem_filter.mp one).1, (List.mem_filter.mp other).1⟩
  have pairs : above key positive (others.map image) =
      above key' (fun other => positive (image other)) others := by
    unfold above
    rw [countP_mixedPairs_map]
    refine List.countP_congr (fun pair member => ?_)
    rw [decide_eq_true_iff, decide_eq_true_iff]
    exact ordered _ (inside member).2 _ (inside member).1
  have ties : level key positive (others.map image) =
      level key' (fun other => positive (image other)) others := by
    unfold level
    rw [countP_mixedPairs_map]
    refine List.countP_congr (fun pair member => ?_)
    obtain ⟨one, other⟩ := inside member
    rw [decide_eq_true_iff, decide_eq_true_iff, eq_iff_le_not_lt, eq_iff_le_not_lt, ← not_lt,
      ← not_lt, ordered _ other _ one, ordered _ one _ other]
  unfold statistic
  rw [pairs, ties, List.countP_map, List.countP_map]
  rfl

/-- The statistic is a share. -/
theorem statistic_bounds : 0 ≤ statistic key positive items ∧ statistic key positive items ≤ 1 := by
  have whole := above_add_level key positive items
  rw [length_mixedPairs] at whole
  unfold statistic
  have cast : (items.countP positive * items.countP (fun item => !positive item) : ℚ) =
      above key positive items + level key positive items +
        above key (fun item => !positive item) items := by exact_mod_cast whole.symm
  rw [cast]
  refine ⟨by positivity, div_le_one_of_le₀ ?_ (by positivity)⟩
  have half : (level key positive items : ℚ) / 2 ≤ level key positive items :=
    half_le_self (Nat.cast_nonneg _)
  have rest : (0 : ℚ) ≤ above key (fun item => !positive item) items := Nat.cast_nonneg _
  linarith

/-- With the labels flipped, the statistic is what is left of one. -/
theorem statistic_not (some : 0 < items.countP positive)
    (other : 0 < items.countP (fun item => !positive item)) :
    statistic key (fun item => !positive item) items = 1 - statistic key positive items := by
  have whole := above_add_level key positive items
  rw [length_mixedPairs] at whole
  unfold statistic
  rw [level_not]
  simp only [Bool.not_not]
  have cast : (items.countP positive * items.countP (fun item => !positive item) : ℚ) =
      above key positive items + level key positive items +
        above key (fun item => !positive item) items := by exact_mod_cast whole.symm
  have pairs : (items.countP positive * items.countP (fun item => !positive item) : ℚ) ≠ 0 := by
    have somePositive : (0 : ℚ) < items.countP positive := by exact_mod_cast some
    have someNegative : (0 : ℚ) < items.countP (fun item => !positive item) := by
      exact_mod_cast other
    positivity
  rw [mul_comm (items.countP (fun item => !positive item) : ℚ), eq_sub_iff_add_eq, ← add_div,
    div_eq_one_iff_eq pairs, cast]
  ring

end Statistic

end Ranks
