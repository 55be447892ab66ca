/-
This file proves which settings of a run are read. The naive engine reads
neither the hardening nor the funding, and the legacy engine none of the
hardening's tunables: two configurations that agree on the rest run alike, draw
by draw and record by record, and panic or go on together.
-/

import Mathlib
import AccountCooker.TopUps

namespace AccountCooker

open Draw

/-- Two configurations agree on what their engine reads: the timing and the funding of a cooker
run, and the tunables of a hardened one. -/
structure SimConfig.Agrees (cfg other : SimConfig) : Prop where
  numAgents : other.numAgents = cfg.numAgents
  durationSecs : other.durationSecs = cfg.durationSecs
  startTs : other.startTs = cfg.startTs
  mode : other.mode = cfg.mode
  seed : other.seed = cfg.seed
  numExternal : other.numExternal = cfg.numExternal
  timing : cfg.mode = .cooker → other.hardenTiming = cfg.hardenTiming
  funding : cfg.mode = .cooker → other.funding = cfg.funding
  hardening : cfg.hardened = true → other.hardening = cfg.hardening

section Agreement

variable {cfg other : SimConfig}

theorem SimConfig.Agrees.hardened_eq (agrees : cfg.Agrees other) :
    other.hardened = cfg.hardened := by
  unfold SimConfig.hardened
  rw [agrees.mode]
  cases mode : cfg.mode with
  | naive => rfl
  | cooker => rw [agrees.timing mode]

theorem SimConfig.Agrees.deriveSeed_eq (agrees : cfg.Agrees other) :
    deriveSeed other = deriveSeed cfg := by
  unfold deriveSeed
  rw [agrees.seed, agrees.mode]

/-- Configurations of the hardened engine agree only if they are equal. -/
theorem SimConfig.Agrees.eq_of_hardened (agrees : cfg.Agrees other)
    (hardened : cfg.hardened = true) : other = cfg := by
  have cooker : cfg.mode = .cooker := by
    unfold SimConfig.hardened at hardened
    exact of_decide_eq_true (Bool.and_eq_true_iff.mp hardened).1
  have numAgents := agrees.numAgents
  have durationSecs := agrees.durationSecs
  have startTs := agrees.startTs
  have mode := agrees.mode
  have seed := agrees.seed
  have numExternal := agrees.numExternal
  have timing := agrees.timing cooker
  have funding := agrees.funding cooker
  have hardening := agrees.hardening hardened
  obtain ⟨_, _, _, _, _, _, _, _, _⟩ := cfg
  obtain ⟨_, _, _, _, _, _, _, _, _⟩ := other
  simp only at numAgents durationSecs startTs mode seed numExternal timing funding hardening
  subst numAgents durationSecs startTs mode seed numExternal timing funding hardening
  rfl

end Agreement

section Single

variable {Generator : Type} [Rng Generator] [Libm] {cfg other : SimConfig}

theorem buildRun_agrees (agrees : cfg.Agrees other) (single : cfg.hardened = false)
    (personas : List Persona) : (buildRun personas other :
      Draw Generator (List AccountId × Built)) = buildRun personas cfg := by
  have schedules (persona : Persona) (n agentIdx : Nat) :
      (buildSchedule other persona n agentIdx : Draw Generator (List SubSched × List Sched)) =
        buildSchedule cfg persona n agentIdx := by
    unfold buildSchedule scheduleAgent
    rw [agrees.hardened_eq, single, agrees.startTs]
    rfl
  have agents : (buildAgent personas other : Built → Nat → Draw Generator Built) =
      buildAgent personas cfg := by
    funext built id
    unfold buildAgent
    simp only [schedules]
  unfold buildRun
  rw [agrees.numExternal, agrees.numAgents, agents]

/-- A run with a single clock per agent is built from what the configurations agree on. -/
theorem buildDrawing_agrees (agrees : cfg.Agrees other) (single : cfg.hardened = false)
    (personas : List Persona) :
    (buildDrawing personas other : Option (RunState Generator × List AccountId)) =
      (buildDrawing personas cfg).map (fun built => (built.1.under other, built.2)) :=
  buildDrawing_under (buildRun_agrees agrees single personas) agrees.deriveSeed_eq agrees.startTs
    agrees.durationSecs

/-- Serving the wake of an agent with a single clock reads the mode only. -/
theorem serve_agrees (st : RunState Generator) (mode : other.mode = st.cfg.mode)
    (single : ∀ entry ∈ st.sched, entry.subIdx = none) :
    (st.under other).serve = st.serve.map (fun served => (served.1.under other, served.2)) := by
  unfold RunState.serve
  rw [show (st.under other).heap = st.heap from rfl]
  cases st.heap with
  | nil => rfl
  | cons due heap =>
    obtain ⟨best, si⟩ := due
    show Option.bind st.sched[si]? _ = Option.map _ (Option.bind st.sched[si]? _)
    cases scheduled : st.sched[si]? with
    | none => rfl
    | some entry =>
      have clock := single entry (List.mem_of_getElem? scheduled)
      have woken (agent : Agent) : (wake other st.externals best
          (st.chain.setTime (max best st.chain.now)) agent entry.subIdx :
            Draw Generator Woken) = wake st.cfg st.externals best
              (st.chain.setTime (max best st.chain.now)) agent entry.subIdx := by
        rw [clock]
        unfold wake
        simp only [mode]
      show Option.bind st.agents[entry.agentIdx]? _ =
        Option.map _ (Option.bind st.agents[entry.agentIdx]? _)
      rw [Option.map_bind]
      refine congrArg (Option.bind _) (funext fun agent => ?_)
      show Option.bind (wake other st.externals best (st.chain.setTime (max best st.chain.now))
          agent entry.subIdx ⟨st.rng, []⟩) _ = Option.map _ (Option.bind (wake st.cfg st.externals
            best (st.chain.setTime (max best st.chain.now)) agent entry.subIdx ⟨st.rng, []⟩) _)
      rw [woken, Option.map_bind]
      refine congrArg (Option.bind _) (funext fun woken => ?_)
      obtain ⟨woken, tape⟩ := woken
      show Option.bind (checkedU64 (st.events + 1)) _ =
        Option.map _ (Option.bind (checkedU64 (st.events + 1)) _)
      rw [Option.map_bind]
      rfl

/-- The loop of such a run reads the mode only, and draws the same identifiers. -/
theorem runCore_agrees (fuel : Nat) (st : RunState Generator) (mode : other.mode = st.cfg.mode)
    (single : ∀ entry ∈ st.sched, entry.subIdx = none) :
    Id.run (runCore (nullSink Generator) fuel (st.under other) ()) =
        Outcome.map (fun ended => (ended.1.under other, ended.2))
          (Id.run (runCore (nullSink Generator) fuel st ())) ∧
      servedIds fuel (st.under other) = servedIds fuel st := by
  induction fuel generalizing st with
  | zero => exact ⟨rfl, rfl⟩
  | succ fuel inductionHypothesis =>
    have served := serve_agrees st mode single
    unfold servedIds
    rw [Id.run, Id.run, runCore_succ, runCore_succ, show (st.under other).done = st.done from rfl]
    unfold RunState.event
    rw [served]
    by_cases done : st.done = true
    · rw [if_pos done, if_pos done, if_pos done, if_pos done]
      exact ⟨rfl, rfl⟩
    · rw [if_neg done, if_neg done, if_neg done, if_neg done]
      cases here : st.serve with
      | none => exact ⟨rfl, rfl⟩
      | some next =>
        obtain ⟨_, _, facts⟩ := serve_served here
        obtain ⟨ended, ids⟩ := inductionHypothesis next.1 (by rw [facts.cfg, mode])
          (by rw [facts.sched]; exact single)
        exact ⟨ended, congrArg (next.2 ++ ·) ids⟩

/-- Runs of configurations that agree end alike. -/
theorem finalState_agrees (agrees : cfg.Agrees other) (single : cfg.hardened = false) (fuel : Nat)
    (personas : List Persona) :
    (finalState fuel personas other : Outcome (RunState Generator)) =
        Outcome.map (RunState.under other) (finalState fuel personas cfg) ∧
      drawnIds Generator fuel personas other = drawnIds Generator fuel personas cfg := by
  unfold finalState drawnIds buildFresh
  rw [buildDrawing_agrees agrees single]
  cases building : (buildDrawing personas cfg : Option (RunState Generator × List AccountId)) with
  | none => exact ⟨rfl, rfl⟩
  | some built =>
    have fresh : Fresh cfg built.2 built.1 := buildDrawing_fresh building
    have clocks : ∀ entry ∈ built.1.sched, entry.subIdx = none := by
      intro entry member
      have engine := fresh.engine entry member
      rw [fresh.config, single] at engine
      exact Option.not_isSome_iff_eq_none.mp (by rw [engine]; exact Bool.false_ne_true)
    have mode : other.mode = built.1.cfg.mode := by rw [fresh.config, agrees.mode]
    obtain ⟨ended, ids⟩ := runCore_agrees fuel built.1 mode clocks
    refine ⟨?_, congrArg (built.2 ++ ·) ids⟩
    simp only [Option.map_some]
    rw [ended]
    cases Id.run (runCore (nullSink Generator) fuel built.1 ()) <;> rfl

omit [Libm] in
/-- Agreeing configurations fund a ledger alike; a naive run is not funded at all. -/
theorem finalizeFunding_agrees (agrees : cfg.Agrees other) (final : RunState Generator) :
    finalizeFunding (final.under other) other = finalizeFunding final cfg := by
  unfold finalizeFunding applyFunding deriveFundingSeed
  rw [show (final.under other).chain = final.chain from rfl,
    show (final.under other).agents = final.agents from rfl, agrees.deriveSeed_eq, agrees.mode]
  cases mode : cfg.mode with
  | cooker => rw [agrees.funding mode]
  | naive =>
    simp only [if_true]
    cases other.funding <;> cases cfg.funding <;> rfl

end Single

section Simulated

variable {Generator : Type} [Rng Generator] [Libm]

/-- Only what the engine reads matters: configurations that agree on it simulate to the same
ledger, or both panic, or both go on, and draw the same identifiers. -/
theorem settings_ignored (fuel : Nat) (personas : List Persona) (cfg other : SimConfig)
    (agrees : cfg.Agrees other) :
    simulate Generator fuel personas other = simulate Generator fuel personas cfg ∧
      drawnIds Generator fuel personas other = drawnIds Generator fuel personas cfg := by
  by_cases hardened : cfg.hardened = true
  · rw [agrees.eq_of_hardened hardened]
    exact ⟨rfl, rfl⟩
  · have single := Bool.eq_false_of_not_eq_true hardened
    have ended : (finalState fuel personas other : Outcome (RunState Generator)) = _ :=
      (finalState_agrees agrees single fuel personas).1
    refine ⟨?_, (finalState_agrees agrees single fuel personas).2⟩
    unfold simulate
    rw [ended]
    cases (finalState fuel personas cfg : Outcome (RunState Generator)) with
    | returned final =>
      simp only [Outcome.map]
      rw [finalizeFunding_agrees agrees]
    | panicked => rfl
    | running => rfl

end Simulated

/-- The small naive run with every setting of the cooker that it ignores. -/
def overconfiguredRun : SimConfig :=
  { naiveRun with
    hardenTiming := true
    hardening := { HardeningConfig.default with rebalance := .directHub, sweepMinSources := 5 }
    funding := some (FundingConfig.new .dedicatedFunder) }

/-- The small naive run stays as it is under the settings it ignores. -/
theorem settings_ignored_naiveRun : ∃ ledger,
    simulate Counter 6 [Persona.retail] overconfiguredRun = Outcome.returned ledger ∧
    simulate Counter 6 [Persona.retail] naiveRun = Outcome.returned ledger := by
  have agrees : naiveRun.Agrees overconfiguredRun := by
    refine ⟨rfl, rfl, rfl, rfl, rfl, rfl, fun cooker => ?_, fun cooker => ?_, fun hardened => ?_⟩
    · exact absurd cooker (by decide)
    · exact absurd cooker (by decide)
    · exact absurd hardened (by decide)
  have same : simulate Counter 6 [Persona.retail] overconfiguredRun =
      simulate Counter 6 [Persona.retail] naiveRun :=
    (settings_ignored 6 [Persona.retail] _ _ agrees).1
  have returns : ((simulate Counter 6 [Persona.retail] naiveRun).result?.isSome) = true := by
    decide +kernel
  obtain ⟨ledger, result⟩ := Option.isSome_iff_exists.mp returns
  have simulated := Outcome.result?_eq_some.mp result
  exact ⟨ledger, same.trans simulated, simulated⟩

end AccountCooker
