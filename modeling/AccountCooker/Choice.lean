/-
This file proves what the weight table of an accepted persona means. In exact
arithmetic the draws that select a kind of action are one interval, as long as
the share of the kind in the total weight; a kind without weight is never
selected, and the loop over the table never ends without a kind.
-/

import Mathlib
import AccountCooker.DoubleOrder
import AccountCooker.Roulette
import AccountCooker.Validation

namespace AccountCooker

open Collections Doubles

/-! ### The choice in exact arithmetic -/

/-- The loop of `choose_action`; `none` when it ends without a kind. -/
def exactPick : List (String × ℚ) → ℚ → Option ActionKind
  | [], _ => none
  | (key, weight) :: rest, pick =>
    if weight ≤ 0 then exactPick rest pick
    else if pick - weight ≤ 0 then
      match ActionKind.fromKey key with
      | some kind => some kind
      | none => exactPick rest (pick - weight)
    else exactPick rest (pick - weight)

namespace Persona

/-- The weight table with the exact values of its weights. -/
def exactTable (persona : Persona) : List (String × ℚ) :=
  persona.actionWeights.entries.map (fun entry => (entry.1, value entry.2))

/-- The total of the positive weights. -/
def exactTotal (persona : Persona) : ℚ := ((persona.exactTable.map Prod.snd).filter (0 < ·)).sum

/-- The kind a draw selects; `none` where the code falls back to a transfer. -/
def exactSelection (persona : Persona) (draw : ℚ) : Option ActionKind :=
  if persona.exactTotal ≤ 0 then none
  else exactPick persona.exactTable (draw * persona.exactTotal)

/-- `choose_action` in exact arithmetic, of a draw. -/
def exactChoice (persona : Persona) (draw : ℚ) : ActionKind :=
  (persona.exactSelection draw).getD .transfer

/-- The weight of a kind in the table. -/
def exactWeight (persona : Persona) (kind : ActionKind) : ℚ :=
  (persona.actionWeights.get? kind.key).elim 0 value

end Persona

/-! ### Keys and kinds -/

/-- The entries of a table by their kinds. -/
def keyed (kinds : List (ActionKind × ℚ)) : List (String × ℚ) :=
  kinds.map (fun entry => (entry.1.key, entry.2))

/-- Over the keys of kinds the loop is the plain one. -/
theorem exactPick_keyed (kinds : List (ActionKind × ℚ)) (pick : ℚ) :
    exactPick (keyed kinds) pick = Roulette.spin kinds pick := by
  induction kinds generalizing pick with
  | nil => rfl
  | cons entry rest inductionHypothesis =>
    obtain ⟨kind, weight⟩ := entry
    unfold keyed at inductionHypothesis ⊢
    rw [List.map_cons, exactPick, Roulette.spin, ActionKind.fromKey_key, inductionHypothesis,
      inductionHypothesis]

theorem mem_keyed {kinds : List (ActionKind × ℚ)} {kind : ActionKind} {weight : ℚ} :
    (kind.key, weight) ∈ keyed kinds ↔ (kind, weight) ∈ kinds := by
  unfold keyed
  rw [List.mem_map]
  refine ⟨?_, fun member => ⟨_, member, rfl⟩⟩
  rintro ⟨⟨other, weight'⟩, member, same⟩
  obtain ⟨keys, rfl⟩ := Prod.mk.inj same
  have kinds := congrArg ActionKind.fromKey keys
  rw [ActionKind.fromKey_key, ActionKind.fromKey_key] at kinds
  rwa [← Option.some.inj kinds]

/-- A table whose keys are recognised is a table of kinds. -/
theorem exists_kinds {table : List (String × ℚ)}
    (recognised : ∀ entry ∈ table, (ActionKind.fromKey entry.1).isSome = true) :
    ∃ kinds, keyed kinds = table := by
  induction table with
  | nil => exact ⟨[], rfl⟩
  | cons entry rest inductionHypothesis =>
    obtain ⟨here, later⟩ := List.forall_mem_cons.mp recognised
    obtain ⟨kind, parsed⟩ := Option.isSome_iff_exists.mp here
    obtain ⟨kinds, equal⟩ := inductionHypothesis later
    refine ⟨(kind, entry.2) :: kinds, ?_⟩
    unfold keyed at equal ⊢
    rw [List.map_cons, equal, ActionKind.key_of_fromKey parsed]

theorem mass_keyed (kinds : List (ActionKind × ℚ)) :
    (((keyed kinds).map Prod.snd).filter (0 < ·)).sum = Roulette.mass kinds := by
  unfold keyed Roulette.mass
  rw [List.map_map]
  rfl

/-! ### Exact weights -/

section Weights

variable {persona : Persona}

theorem value_zero : value 0.0 = 0 := rfl

theorem Persona.Accepted.weight_nonneg (accepted : persona.Accepted) {key : String}
    {weight : Float} (member : (key, weight) ∈ persona.actionWeights.entries) :
    0 ≤ value weight := by
  obtain ⟨finite, nonneg⟩ := accepted.weights _ member
  rwa [lt_iff_value (number_of_isFinite finite) (by decide), value_zero, not_lt] at nonneg

/-- Some exact weight is positive. -/
theorem Persona.Accepted.total_pos (accepted : persona.Accepted) : 0 < persona.exactTotal := by
  obtain ⟨entry, member, positive⟩ := accepted.someWeight
  have finite := (accepted.weights entry member).1
  rw [lt_iff_value (by decide) (number_of_isFinite finite), value_zero] at positive
  refine List.sum_pos _ (fun weight inside => of_decide_eq_true (List.mem_filter.mp inside).2) ?_
  refine List.ne_nil_of_mem (a := value entry.2) (List.mem_filter.mpr ⟨?_, by simpa using positive⟩)
  unfold Persona.exactTable
  rw [List.map_map]
  exact List.mem_map_of_mem member

/-- The exact table as a table of kinds, one entry a kind. -/
theorem Persona.Accepted.exists_kinds (accepted : persona.Accepted) :
    ∃ kinds : List (ActionKind × ℚ), keyed kinds = persona.exactTable ∧
      (kinds.map Prod.fst).Nodup ∧ (∀ entry ∈ kinds, 0 ≤ entry.2) ∧
      ∀ kind weight, (kind, weight) ∈ kinds ↔
        ∃ stored, persona.actionWeights.get? kind.key = some stored ∧ value stored = weight := by
  have recognised : ∀ entry ∈ persona.exactTable,
      (ActionKind.fromKey entry.1).isSome = true := by
    intro entry member
    obtain ⟨original, inside, rfl⟩ := List.mem_map.mp member
    exact accepted.keys original inside
  obtain ⟨kinds, equal⟩ := AccountCooker.exists_kinds recognised
  have stored (kind : ActionKind) (weight : ℚ) : (kind, weight) ∈ kinds ↔
      ∃ stored, (kind.key, stored) ∈ persona.actionWeights.entries ∧ value stored = weight := by
    rw [← mem_keyed, equal]
    unfold Persona.exactTable
    rw [List.mem_map]
    constructor
    · rintro ⟨entry, member, same⟩
      obtain ⟨key, weight⟩ := Prod.mk.inj same
      exact ⟨entry.2, by rwa [← key], weight⟩
    · rintro ⟨stored, member, rfl⟩
      exact ⟨_, member, rfl⟩
  refine ⟨kinds, equal, ?_, fun entry member => ?_, fun kind weight => ?_⟩
  · have nodup := persona.actionWeights.keys_nodup
    have keys : (kinds.map Prod.fst).map ActionKind.key = persona.actionWeights.keys := by
      have fronts := congrArg (List.map Prod.fst) equal
      unfold keyed Persona.exactTable at fronts
      rw [List.map_map, List.map_map] at fronts
      rw [List.map_map]
      exact fronts
    rw [← keys] at nodup
    exact List.Nodup.of_map _ nodup
  · obtain ⟨weight, inside, same⟩ := (stored entry.1 entry.2).mp member
    rw [← same]
    exact accepted.weight_nonneg inside
  · simp only [stored, BTreeMap.get?_eq_some]

end Weights

/-- For an accepted persona: every draw selects a kind of positive weight, so the fallback is
never reached, and the draws that choose a kind are one interval, as long as the share of the
kind's weight. -/
theorem exactChoice_tiles (persona : Persona) (validated : persona.validate = .ok ()) :
    (∀ draw, 0 ≤ draw → draw < 1 → ∃ kind, persona.exactSelection draw = some kind ∧
      persona.exactChoice draw = kind ∧ 0 < persona.exactWeight kind) ∧
    ∀ kind, ∃ low high, 0 ≤ low ∧ low ≤ high ∧ high ≤ 1 ∧
      high - low = persona.exactWeight kind / persona.exactTotal ∧
      Set.Ioo low high ⊆ {draw | 0 ≤ draw ∧ draw < 1 ∧ persona.exactChoice draw = kind} ∧
      {draw | 0 ≤ draw ∧ draw < 1 ∧ persona.exactChoice draw = kind} ⊆ Set.Icc low high := by
  have accepted := Persona.accepted_of_validate validated
  obtain ⟨kinds, equal, once, nonneg, stored⟩ := accepted.exists_kinds
  have total : persona.exactTotal = Roulette.mass kinds := by
    unfold Persona.exactTotal
    rw [← equal, mass_keyed]
  have positive : 0 < Roulette.mass kinds := total ▸ accepted.total_pos
  have selection (draw : ℚ) : persona.exactSelection draw =
      Roulette.spin kinds (draw * Roulette.mass kinds) := by
    unfold Persona.exactSelection
    rw [if_neg (not_le.mpr accepted.total_pos), ← equal, exactPick_keyed, total]
  have weigh {kind : ActionKind} {weight : ℚ} (member : (kind, weight) ∈ kinds) :
      persona.exactWeight kind = weight := by
    obtain ⟨found, get, same⟩ := (stored kind weight).mp member
    unfold Persona.exactWeight
    rw [get, ← same]
    rfl
  have selects (draw : ℚ) (most : draw < 1) : ∃ kind, persona.exactSelection draw = some kind ∧
      persona.exactChoice draw = kind ∧ 0 < persona.exactWeight kind := by
    obtain ⟨kind, weight, member, some, spun⟩ := Roulette.exists_selecting positive most
    rw [← selection] at spun
    refine ⟨kind, spun, ?_, (weigh member).symm ▸ some⟩
    unfold Persona.exactChoice
    rw [spun]
    rfl
  refine ⟨fun draw _ => selects draw, fun kind => ?_⟩
  have units : {draw | 0 ≤ draw ∧ draw < 1 ∧ persona.exactChoice draw = kind} =
      Roulette.selecting kinds kind := by
    ext draw
    refine and_congr_right (fun _ => and_congr_right (fun most => ?_))
    obtain ⟨chosen, selected, choice, _⟩ := selects draw most
    rw [← selection, selected, choice, Option.some_inj]
  rw [units, total]
  cases found : persona.actionWeights.get? kind.key with
  | some weight =>
    have member : (kind, value weight) ∈ kinds := (stored kind _).mpr ⟨weight, found, rfl⟩
    rw [weigh member]
    exact Roulette.selecting_interval positive once (nonneg _ member) member
  | none =>
    -- A kind that is not in the table has no weight and is not selected.
    have nothing : persona.exactWeight kind = 0 := by
      unfold Persona.exactWeight
      rw [found]
      rfl
    refine ⟨0, 0, le_rfl, le_rfl, zero_le_one, by rw [nothing, zero_div, sub_zero],
      by rw [Set.Ioo_self]; exact Set.empty_subset _, ?_⟩
    rw [← units]
    rintro draw ⟨_, most, rfl⟩
    obtain ⟨chosen, _, choice, some⟩ := selects draw most
    rw [← choice, nothing] at some
    exact absurd some (lt_irrefl 0)

/-- The built-in small user swaps on a quarter of the draws. -/
theorem exactChoice_tiles_retail : ∃ low high : ℚ,
    high - low = Persona.retail.exactWeight .swap / Persona.retail.exactTotal ∧
      Set.Ioo low high ⊆ {draw | 0 ≤ draw ∧ draw < 1 ∧ Persona.retail.exactChoice draw = .swap} ∧
      0 < Persona.retail.exactWeight .swap := by
  obtain ⟨low, high, _, _, _, length, inside, _⟩ :=
    (exactChoice_tiles Persona.retail (by decide +kernel)).2 .swap
  exact ⟨low, high, length, inside, by decide +kernel⟩

end AccountCooker
