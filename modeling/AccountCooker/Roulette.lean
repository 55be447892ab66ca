/-
This file is about picking an item by its weight: a pick between zero and the
total of the weights goes past the items in their order, each of which takes its
weight off, until nothing is left. The picks that select an item are one
interval as long as its weight, and the intervals of all items tile the whole.
The file names nothing of the program.
-/

import Mathlib

namespace Roulette

variable {Item Number : Type} [Field Number] [LinearOrder Number]

/-- The item whose weight uses up the pick; items without a positive weight are passed over. -/
def spin : List (Item × Number) → Number → Option Item
  | [], _ => none
  | (item, weight) :: rest, pick =>
    if weight ≤ 0 then spin rest pick
    else if pick - weight ≤ 0 then some item
    else spin rest (pick - weight)

/-- The total of the positive weights. -/
def mass (entries : List (Item × Number)) : Number :=
  ((entries.map Prod.snd).filter (0 < ·)).sum

theorem mass_cons_of_pos {item : Item} {weight : Number} (positive : 0 < weight)
    (rest : List (Item × Number)) : mass ((item, weight) :: rest) = weight + mass rest := by
  unfold mass
  rw [List.map_cons, List.filter_cons_of_pos (by simpa using positive), List.sum_cons]

theorem mass_cons_of_nonpos {item : Item} {weight : Number} (nothing : weight ≤ 0)
    (rest : List (Item × Number)) : mass ((item, weight) :: rest) = mass rest := by
  unfold mass
  rw [List.map_cons, List.filter_cons_of_neg (by simpa using nothing)]

theorem mass_append (entries others : List (Item × Number)) :
    mass (entries ++ others) = mass entries + mass others := by
  unfold mass
  rw [List.map_append, List.filter_append, List.sum_append]

variable [IsStrictOrderedRing Number]

theorem mass_nonneg (entries : List (Item × Number)) : 0 ≤ mass entries := by
  refine List.sum_nonneg (fun weight member => ?_)
  exact (of_decide_eq_true (List.mem_filter.mp member).2).le

/-- A pick up to the whole selects an item of positive weight that uses it up, where the items
before do not. -/
theorem spin_eq (entries : List (Item × Number)) {pick : Number} (inhabited : 0 < mass entries)
    (within : pick ≤ mass entries) :
    ∃ before item weight after, entries = before ++ (item, weight) :: after ∧
      spin entries pick = some item ∧ 0 < weight ∧ pick ≤ mass before + weight ∧
        (mass before < pick ∨ mass before = 0) := by
  induction entries generalizing pick with
  | nil => exact absurd inhabited (lt_irrefl 0)
  | cons entry rest inductionHypothesis =>
    obtain ⟨item, weight⟩ := entry
    by_cases nothing : weight ≤ 0
    · rw [mass_cons_of_nonpos nothing] at inhabited within
      obtain ⟨before, other, weight', after, rfl, picked, positive, most, least⟩ :=
        inductionHypothesis inhabited within
      refine ⟨(item, weight) :: before, other, weight', after, rfl, ?_, positive, ?_, ?_⟩
      · rw [spin, if_pos nothing, picked]
      · rwa [mass_cons_of_nonpos nothing]
      · rwa [mass_cons_of_nonpos nothing]
    · have positive := not_le.mp nothing
      rw [mass_cons_of_pos positive] at within
      by_cases used : pick - weight ≤ 0
      · refine ⟨[], item, weight, rest, rfl, ?_, positive, ?_, Or.inr rfl⟩
        · rw [spin, if_neg nothing, if_pos used]
        · exact (sub_nonpos.mp used).trans_eq (zero_add weight).symm
      · have left := not_le.mp used
        have within' : pick - weight ≤ mass rest := sub_le_iff_le_add'.mpr within
        obtain ⟨before, other, weight', after, rfl, picked, positive', most, least⟩ :=
          inductionHypothesis (left.trans_le within') within'
        refine ⟨(item, weight) :: before, other, weight', after, rfl, ?_, positive', ?_,
          Or.inl ?_⟩
        · rw [spin, if_neg nothing, if_neg used, picked]
        · rw [mass_cons_of_pos positive]
          linarith
        · rw [mass_cons_of_pos positive]
          rcases least with below | zero <;> linarith

/-- A pick between the masses before an item and after it selects the item. -/
theorem spin_of_between {before after : List (Item × Number)} {item : Item}
    {weight pick : Number} (least : mass before < pick) (most : pick ≤ mass before + weight) :
    spin (before ++ (item, weight) :: after) pick = some item := by
  induction before generalizing pick with
  | nil =>
    have zero : mass ([] : List (Item × Number)) = 0 := rfl
    rw [zero] at least most
    rw [zero_add] at most
    rw [List.nil_append, spin, if_neg (not_le.mpr (least.trans_le most)),
      if_pos (sub_nonpos.mpr most)]
  | cons entry rest inductionHypothesis =>
    obtain ⟨other, weight'⟩ := entry
    by_cases nothing : weight' ≤ 0
    · rw [mass_cons_of_nonpos nothing] at least most
      rw [List.cons_append, spin, if_pos nothing]
      exact inductionHypothesis least most
    · have positive := not_le.mp nothing
      rw [mass_cons_of_pos positive] at least most
      have nonneg := mass_nonneg rest
      rw [List.cons_append, spin, if_neg nothing, if_neg (by linarith)]
      exact inductionHypothesis (by linarith) (by linarith)

omit [Field Number] [LinearOrder Number] [IsStrictOrderedRing Number] in
/-- An item that occurs once has one place. -/
theorem before_unique {before before' after after' : List (Item × Number)} {item : Item}
    {weight weight' : Number}
    (once : ((before ++ (item, weight) :: after).map Prod.fst).Nodup)
    (same : before ++ (item, weight) :: after = before' ++ (item, weight') :: after') :
    before = before' ∧ weight = weight' := by
  classical
  have place {front rest : List (Item × Number)} {value : Number}
      (once : ((front ++ (item, value) :: rest).map Prod.fst).Nodup) :
      (front ++ (item, value) :: rest).takeWhile (fun entry => entry.1 ≠ item) = front := by
    rw [List.map_append, List.nodup_append] at once
    rw [List.takeWhile_append_of_pos (fun entry member => ?_),
      List.takeWhile_cons_of_neg (by simp), List.append_nil]
    refine decide_eq_true (fun equal => ?_)
    exact once.2.2 _ (List.mem_map_of_mem member) item (by simp) equal
  have fronts : before = before' := by
    rw [← place once, same, place (same ▸ once)]
  subst fronts
  exact ⟨rfl, (Prod.mk.inj (List.cons.inj (List.append_cancel_left same)).1).2⟩

/-! ### Intervals -/

/-- The units whose share of the whole selects an item. -/
def selecting (entries : List (Item × Number)) (item : Item) : Set Number :=
  {unit | 0 ≤ unit ∧ unit < 1 ∧ spin entries (unit * mass entries) = some item}

section Tiling

variable {entries : List (Item × Number)}

/-- Every unit selects an item of positive weight. -/
theorem exists_selecting (inhabited : 0 < mass entries) {unit : Number} (most : unit < 1) :
    ∃ item weight, (item, weight) ∈ entries ∧ 0 < weight ∧
      spin entries (unit * mass entries) = some item := by
  obtain ⟨before, item, weight, after, whole, picked, positive, _, _⟩ :=
    spin_eq entries inhabited (mul_le_of_le_one_left inhabited.le most.le)
  refine ⟨item, weight, ?_, positive, picked⟩
  rw [whole]
  exact List.mem_append_right _ List.mem_cons_self

/-- The units that select an item are one interval, as long as the share of its weight. -/
theorem selecting_interval (inhabited : 0 < mass entries) (once : (entries.map Prod.fst).Nodup)
    {item : Item} {weight : Number} (nonneg : 0 ≤ weight) (member : (item, weight) ∈ entries) :
    ∃ low high, 0 ≤ low ∧ low ≤ high ∧ high ≤ 1 ∧ high - low = weight / mass entries ∧
      Set.Ioo low high ⊆ selecting entries item ∧
        selecting entries item ⊆ Set.Icc low high := by
  obtain ⟨before, after, whole⟩ := List.append_of_mem member
  have masses : mass entries = mass before + weight + mass after := by
    rw [whole, mass_append]
    rcases nonneg.eq_or_lt with zero | positive
    · rw [mass_cons_of_nonpos zero.symm.le, ← zero, add_zero]
    · rw [mass_cons_of_pos positive, add_assoc]
  have front := mass_nonneg before
  have back := mass_nonneg after
  have share : (mass before + weight) / mass entries ≤ 1 :=
    div_le_one_of_le₀ (by linarith) inhabited.le
  refine ⟨mass before / mass entries, (mass before + weight) / mass entries, by positivity,
    div_le_div_of_nonneg_right (by linarith) inhabited.le, share, ?_, ?_, ?_⟩
  · rw [← sub_div, add_sub_cancel_left]
  · rintro unit ⟨least, most⟩
    rw [div_lt_iff₀ inhabited] at least
    rw [lt_div_iff₀ inhabited] at most
    refine ⟨?_, ?_, ?_⟩
    · by_contra negative
      have product := mul_neg_of_neg_of_pos (not_le.mp negative) inhabited
      linarith
    · by_contra large
      have product := mul_le_mul_of_nonneg_right (not_lt.mp large) inhabited.le
      linarith
    · have picked : spin (before ++ (item, weight) :: after) (unit * mass entries) = some item :=
        spin_of_between least most.le
      rwa [← whole] at picked
  · rintro unit ⟨zero, one, selected⟩
    obtain ⟨before', other, weight', after', whole', picked, _, most, least⟩ :=
      spin_eq entries inhabited (mul_le_of_le_one_left inhabited.le one.le)
    obtain rfl := Option.some.inj (selected.symm.trans picked)
    obtain ⟨rfl, rfl⟩ := before_unique (whole ▸ once) (whole.symm.trans whole')
    constructor
    · rw [div_le_iff₀ inhabited]
      rcases least with below | nothing
      · exact below.le
      · rw [nothing]
        positivity
    · rwa [le_div_iff₀ inhabited]

end Tiling

end Roulette
