/-
This file models the validation of a persona, check by check with its messages,
and says what an accepted persona is.
-/

import Mathlib
import AccountCooker.Persona

namespace AccountCooker

open Collections

/-! ### The checks -/

namespace Persona

/-- One entry of the weight table. -/
def validateWeight (entry : String × Float) : Except String Unit := do
  ensure (ActionKind.fromKey entry.1).isSome ("unknown action_weights key '" ++ entry.1 ++ "'")
  ensure (entry.2.isFinite && !decide (entry.2 < 0.0))
    ("action weight '" ++ entry.1 ++ "' must be finite and non-negative")

/-- Reject malformed or unsafe profiles before a long-running fleet starts. -/
def validate (persona : Persona) : Except String Unit := do
  ensure (!(trim persona.name).isEmpty) "name must not be empty"
  ensure (!(trim persona.wealthTier).isEmpty) "wealth_tier must not be empty"
  ensure (persona.baseAmountLamports != 0) "base_amount_lamports must be greater than zero"
  ensure (persona.amountSigma.isFinite && !decide (persona.amountSigma ≤ 0.0))
    "amount_sigma must be finite and greater than zero"
  ensure (persona.numSubaccounts != 0) "num_subaccounts must be greater than zero"
  ensure (!(persona.split.minParts == 0 ||
      decide (persona.split.maxParts < persona.split.minParts)))
    "split parts must satisfy 1 <= min_parts <= max_parts"
  ensure (persona.split.minPartLamports != 0) "split.min_part_lamports must be greater than zero"
  ensure (persona.decoy.decoysPerReal.isFinite && !decide (persona.decoy.decoysPerReal < 0.0))
    "decoy.decoys_per_real must be finite and non-negative"
  ensure (persona.decoy.dustLamportsMax != 0) "decoy.dust_lamports_max must be greater than zero"
  ensure (persona.circadian.actionsPerActiveHour.isFinite &&
      !decide (persona.circadian.actionsPerActiveHour ≤ 0.0))
    "circadian.actions_per_active_hour must be finite and greater than zero"
  ensure (persona.circadian.jitter.isFinite &&
      (decide (0.0 ≤ persona.circadian.jitter) && decide (persona.circadian.jitter ≤ 1.0)))
    "circadian.jitter must be between 0 and 1"
  ensure (persona.circadian.hourlyWeights.toList.all
        (fun weight => weight.isFinite && !decide (weight < 0.0)) &&
      persona.circadian.hourlyWeights.toList.any (fun weight => 0.0 < weight))
    "circadian.hourly_weights must be finite, non-negative, and not all zero"
  persona.actionWeights.entries.forM validateWeight
  ensure (persona.actionWeights.entries.any (fun entry => 0.0 < entry.2))
    "at least one action weight must be greater than zero"

end Persona

/-! ### Accepted personas -/

/-- What the checks of a persona establish of its rhythm and its weight table. -/
structure Persona.Accepted (persona : Persona) : Prop where
  subaccounts : 0 < persona.numSubaccounts
  rate : persona.circadian.actionsPerActiveHour.isFinite = true ∧
    ¬ persona.circadian.actionsPerActiveHour ≤ 0.0
  jitter : persona.circadian.jitter.isFinite = true ∧ 0.0 ≤ persona.circadian.jitter ∧
    persona.circadian.jitter ≤ 1.0
  hours : ∀ weight ∈ persona.circadian.hourlyWeights.toList,
    weight.isFinite = true ∧ ¬ weight < 0.0
  keys : ∀ entry ∈ persona.actionWeights.entries, (ActionKind.fromKey entry.1).isSome
  weights : ∀ entry ∈ persona.actionWeights.entries, entry.2.isFinite = true ∧ ¬ entry.2 < 0.0
  someWeight : ∃ entry ∈ persona.actionWeights.entries, 0.0 < entry.2

/-- Checks in sequence pass when each of them does. -/
theorem bind_eq_ok {first rest : Except String Unit} :
    (first >>= fun _ => rest) = .ok () ↔ first = .ok () ∧ rest = .ok () := by
  cases first with
  | error message =>
    exact ⟨fun impossible => absurd impossible (by simp [bind, Except.bind]), nofun⟩
  | ok _ => exact ⟨fun passed => ⟨rfl, passed⟩, fun both => both.2⟩

theorem forM_eq_ok {Item : Type} {check : Item → Except String Unit} {items : List Item} :
    items.forM check = .ok () ↔ ∀ item ∈ items, check item = .ok () := by
  induction items with
  | nil => exact ⟨fun _ item member => absurd member List.not_mem_nil, fun _ => rfl⟩
  | cons first rest inductionHypothesis =>
    show (check first >>= fun _ => rest.forM check) = .ok () ↔ _
    rw [bind_eq_ok, inductionHypothesis, List.forall_mem_cons]

theorem validateWeight_eq_ok {entry : String × Float} :
    Persona.validateWeight entry = .ok () ↔ (ActionKind.fromKey entry.1).isSome = true ∧
      entry.2.isFinite = true ∧ ¬ entry.2 < 0.0 := by
  unfold Persona.validateWeight
  rw [bind_eq_ok, ensure_eq_ok, ensure_eq_ok, Bool.and_eq_true, Bool.not_eq_true',
    decide_eq_false_iff_not]

theorem Persona.accepted_of_validate {persona : Persona} (validated : persona.validate = .ok ()) :
    persona.Accepted := by
  unfold Persona.validate at validated
  simp only [bind_eq_ok, ensure_eq_ok, forM_eq_ok, validateWeight_eq_ok, Bool.and_eq_true,
    Bool.not_eq_true', decide_eq_false_iff_not, decide_eq_true_eq, List.all_eq_true,
    List.any_eq_true, bne_iff_ne] at validated
  obtain ⟨_, _, _, _, subaccounts, _, _, _, _, rate, jitter, ⟨hours, _⟩, table, some⟩ := validated
  exact ⟨Nat.pos_of_ne_zero subaccounts, rate, jitter, hours, fun entry member =>
    (table entry member).1, fun entry member => (table entry member).2, some⟩

end AccountCooker
