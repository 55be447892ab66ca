/-
This file says who plays in a run. The agents take the personas in turn, and
each holds as many accounts as its persona asks for, at least one. Both are
settled when the run is built; no event changes them.
-/

import Mathlib
import AccountCooker.Boundary

namespace AccountCooker

open Draw

variable {Generator : Type} [Rng Generator] {personas : List Persona} {cfg : SimConfig}

/-- The agent at a position plays the persona whose turn it is, with its number of accounts. -/
structure Plays (personas : List Persona) (index : Nat) (agent : Agent) : Prop where
  persona : personas[index % personas.length]? = some agent.persona
  accounts : agent.subaccounts.length = max agent.persona.numSubaccounts 1

theorem Plays.mem {index : Nat} {agent : Agent} (plays : Plays personas index agent) :
    agent.persona ∈ personas :=
  List.mem_of_getElem? plays.persona

/-- What keeps the fixed parts of an agent keeps its place in the roster. -/
theorem Plays.same {index : Nat} {built agent : Agent} (plays : Plays personas index built)
    (same : SameAgent built agent) : Plays personas index agent := by
  refine ⟨?_, ?_⟩
  · rw [same.persona]
    exact plays.persona
  · rw [same.count, same.persona]
    exact plays.accounts

/-- So many agents, each in its turn. -/
structure Roster (personas : List Persona) (count : Nat) (agents : List Agent) : Prop where
  count : agents.length = count
  plays : ∀ index agent, agents[index]? = some agent → Plays personas index agent

theorem roster_nil : Roster personas 0 [] :=
  ⟨rfl, fun _ _ found => absurd found (by simp)⟩

theorem Roster.append {count : Nat} {agents : List Agent} {agent : Agent}
    (roster : Roster personas count agents) (plays : Plays personas count agent) :
    Roster personas (count + 1) (agents ++ [agent]) := by
  refine ⟨by rw [List.length_append, roster.count]; rfl, fun index other found => ?_⟩
  rcases lt_or_ge index agents.length with old | new
  · rw [List.getElem?_append_left old] at found
    exact roster.plays index other found
  · rw [List.getElem?_append_right new] at found
    obtain ⟨bound, equal⟩ := List.getElem?_eq_some_iff.mp found
    have last : index = count := by
      rw [List.length_singleton] at bound
      have := roster.count
      omega
    simp only [List.getElem_singleton] at equal
    rw [← equal, last]
    exact plays

variable [Libm]

theorem buildAgent_roster {count : Nat} {built : Built}
    (roster : Roster personas count built.agents) :
    Yields (buildAgent personas cfg built count : Draw Generator Built)
      (fun _ next => Roster personas (count + 1) next.agents) := by
  refine Silent.bind (yields_checked _) (fun persona turn => ?_)
  refine yields_bind (freshAccounts_yields _) ?_
  rintro _ subaccounts ⟨rfl, length⟩
  refine Silent.bind (yields_checked _) (fun main first => ?_)
  refine Silent.bind (buildSchedule_silent _ _ _ _) (fun schedule _ => ?_)
  refine Yields.mono (yields_pure _) ?_
  rintro _ next ⟨rfl, rfl⟩
  exact roster.append ⟨turn, length⟩

theorem buildRun_roster :
    Yields (buildRun personas cfg : Draw Generator (List AccountId × Built))
      (fun _ result => Roster personas cfg.numAgents result.2.agents) := by
  refine yields_bind (freshAccounts_yields _) (fun _ externals _ => ?_)
  refine yields_bind (yields_foldlM_range
    (fun count _ (built : Built) => Roster personas count built.agents) _ cfg.numAgents
    (fun round ids built roster => buildAgent_roster roster) ⟨[], []⟩ roster_nil)
    (fun _ built roster => ?_)
  refine Yields.mono (yields_pure _) ?_
  rintro _ result ⟨rfl, rfl⟩
  exact roster

/-- The agents of a built run. -/
theorem buildDrawing_roster {st : RunState Generator} {ids : List AccountId}
    (building : buildDrawing personas cfg = some (st, ids)) :
    Roster personas cfg.numAgents st.agents := by
  obtain ⟨_, externals, built, tape, finish, drew, _, _, rfl⟩ := buildDrawing_eq_some.mp building
  obtain ⟨_, _, roster⟩ := buildRun_roster _ _ _ drew
  exact roster

/-- The agents of a reached state play what they were built to play. -/
theorem ReachedBy.roster {built st : RunState Generator} {first ids : List AccountId}
    (reached : ReachedBy personas cfg built st first ids) :
    Roster personas cfg.numAgents st.agents := by
  have roster := buildDrawing_roster reached.building
  have same := reached.same.agents
  refine ⟨same.length_eq.symm.trans roster.count, fun index agent found => ?_⟩
  obtain ⟨bound, equal⟩ := List.getElem?_eq_some_iff.mp found
  have there : index < built.agents.length := by rw [same.length_eq]; exact bound
  have kept := same.get there bound
  rw [List.get_eq_getElem, List.get_eq_getElem, equal] at kept
  exact (roster.plays index _ (List.getElem?_eq_getElem there)).same kept

end AccountCooker
