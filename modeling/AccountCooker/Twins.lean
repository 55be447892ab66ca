/-
This file compares the two timings of a cooker fleet of one seed. The legacy and
the hardened fleet draw from the same stream, and every agent draws its accounts
before its schedule. So the externals and the accounts of the first agent are
the same. But the schedule of a legacy agent takes other draws than that of a
hardened one, and from the second agent on the two read the stream at different
places.

That no accident makes up for it is shown on a planned stream. Its units and its
phases are those with which the first wakes are in range, so that both fleets
are built; and an account only tells whether a phase was drawn before it. The
hardened agents draw phases, nothing of a legacy fleet does. Where no draws
bring the first wakes in range, build_fresh panics on every stream, and there
are no two fleets to compare.
-/

import Mathlib
import AccountCooker.Horizon

namespace AccountCooker

open Draw

/-! ### First wakes -/

/-- What is drawn for a first wake: the phase of a sub-account, and the two units of a delay. -/
structure WakeDraws where
  phase : Int
  unit : Float
  unit' : Float
  phase_inDay : 0 ≤ phase ∧ phase ≤ 86399
  unit_bounds : 0 ≤ unit ∧ unit < 1
  unit_bounds' : 0 ≤ unit' ∧ unit' < 1

/-- A day has hours, so that a numeral is one. -/
instance hours_neZero : NeZero (24 : Nat) := ⟨by decide⟩

section Starting

variable [Libm]

/-- The delay at a second of the day, once its two units are drawn. -/
def CircadianModel.delayOf (model : CircadianModel) (secondOfDay : Nat) (unit unit' : Float) :
    Nat :=
  let w := F64.max (model.hourlyWeights.get (Fin.ofNat 24 (secondOfDay / 3600))) 0.01
  let meanGap := 3600.0 / F64.max (model.actionsPerActiveHour * w) 0.05
  let gap := -Libm.ln (F64.clamp unit 1e-9 1.0) * meanGap
  let j := 1.0 + (unit' * 2.0 - 1.0) * model.jitter
  F64.toU64 (F64.max (gap * j) 1.0)

/-- The first wake of a legacy agent, where no sum leaves the range. -/
def legacyWake (cfg : SimConfig) (persona : Persona) (draws : WakeDraws) : Option Int :=
  let d := persona.circadian.delayOf (secondOfDay cfg.startTs) draws.unit draws.unit'
  checkedI64 (cfg.startTs + asI64 d)

/-- The first wake of a hardened sub-account, where no sum or product leaves the range. -/
def hardenedWake (cfg : SimConfig) (persona : Persona) (draws : WakeDraws) : Option Int := do
  let shifted ← checkedI64 (cfg.startTs + draws.phase)
  let d := persona.circadian.delayOf (secondOfDay shifted) draws.unit draws.unit'
  let held ← holdRate cfg (max persona.numSubaccounts 1) (asI64 d)
  checkedI64 (cfg.startTs + max held 1)

def firstWake (cfg : SimConfig) (persona : Persona) (draws : WakeDraws) : Option Int :=
  if cfg.hardened then hardenedWake cfg persona draws else legacyWake cfg persona draws

/-- A fleet that can start: there are personas, the end of the interval is in range, and with some
draws so is the first wake of every agent. -/
structure Startable (personas : List Persona) (cfg : SimConfig) : Prop where
  nonempty : personas ≠ []
  ends : i64Min ≤ cfg.startTs + cfg.durationSecs ∧ cfg.startTs + cfg.durationSecs ≤ i64Max
  wakes : ∀ id < cfg.numAgents, ∀ persona, personas[id % personas.length]? = some persona →
    ∃ draws, (firstWake cfg persona draws).isSome

end Starting

/-! ### A built fleet could start -/

section Started

variable {Generator : Type} [Rng Generator] [Libm] {personas : List Persona} {cfg : SimConfig}

theorem nextDelaySecs_delayOf (model : CircadianModel) (secondOfDay : Nat) :
    Silent (model.nextDelaySecs secondOfDay : Draw Generator Nat)
      (fun d => ∃ unit unit' : Float, (0 ≤ unit ∧ unit < 1) ∧ (0 ≤ unit' ∧ unit' < 1) ∧
        d = model.delayOf secondOfDay unit unit') := by
  refine Silent.bind yields_random (fun unit inUnit => ?_)
  refine Silent.bind yields_random (fun unit' inUnit' => ?_)
  refine (yields_pure _).mono ?_
  rintro d rfl
  exact ⟨unit, unit', inUnit, inUnit', rfl⟩

theorem scheduleAgent_started (cfg : SimConfig) (persona : Persona) (agentIdx : Nat) :
    Silent (scheduleAgent cfg persona agentIdx : Draw Generator Sched)
      (fun _ => ∃ draws, (legacyWake cfg persona draws).isSome) := by
  refine Silent.bind (nextDelaySecs_delayOf _ _) ?_
  rintro _ ⟨unit, unit', inUnit, inUnit', rfl⟩
  refine Silent.bind (yields_checked _) (fun nextAt inRange => ?_)
  refine (yields_pure _).mono (fun _ _ => ?_)
  exact ⟨⟨0, unit, unit', by decide, inUnit, inUnit'⟩, Option.isSome_of_eq_some inRange⟩

theorem scheduleSubaccount_started (cfg : SimConfig) (persona : Persona) (agentIdx : Nat)
    (built : List SubSched × List Sched) (k : Nat) :
    Silent (scheduleSubaccount cfg persona (max persona.numSubaccounts 1) agentIdx built k :
        Draw Generator (List SubSched × List Sched))
      (fun _ => ∃ draws, (hardenedWake cfg persona draws).isSome) := by
  refine Silent.bind (yields_randomRange _ _ _) (fun phase inDay => ?_)
  refine Silent.bind (yields_checked _) (fun shifted shifting => ?_)
  refine Silent.bind (nextDelaySecs_delayOf _ _) ?_
  rintro _ ⟨unit, unit', inUnit, inUnit', rfl⟩
  refine Silent.bind (yields_checked _) (fun held holding => ?_)
  refine Silent.bind (yields_checked _) (fun nextAt inRange => ?_)
  refine (yields_pure _).mono (fun _ _ => ?_)
  refine ⟨⟨phase, unit, unit', inDay, inUnit, inUnit'⟩, Option.isSome_iff_exists.mpr ⟨nextAt, ?_⟩⟩
  exact Option.bind_eq_some_iff.mpr ⟨shifted, shifting,
    Option.bind_eq_some_iff.mpr ⟨held, holding, inRange⟩⟩

/-- Where an agent is scheduled, its first wake was in range. -/
theorem buildSchedule_started (cfg : SimConfig) (persona : Persona) (agentIdx : Nat) :
    Silent (buildSchedule cfg persona (max persona.numSubaccounts 1) agentIdx :
        Draw Generator (List SubSched × List Sched))
      (fun _ => ∃ draws, (firstWake cfg persona draws).isSome) := by
  unfold buildSchedule firstWake
  split
  · have loop : Yields ((List.range (max persona.numSubaccounts 1)).foldlM
        (scheduleSubaccount cfg persona (max persona.numSubaccounts 1) agentIdx) ([], []) :
          Draw Generator (List SubSched × List Sched))
        (fun ids _ => ids = [] ∧ (0 < max persona.numSubaccounts 1 →
          ∃ draws, (hardenedWake cfg persona draws).isSome)) := by
      refine yields_foldlM_range (fun round ids _ => ids = [] ∧
        (0 < round → ∃ draws, (hardenedWake cfg persona draws).isSome)) _ _ ?_ _
        ⟨rfl, fun none => absurd none (lt_irrefl 0)⟩
      rintro k _ built ⟨rfl, _⟩
      refine (scheduleSubaccount_started cfg persona agentIdx built k).mono ?_
      exact fun _ started _ => started
    have several : 0 < max persona.numSubaccounts 1 :=
      lt_of_lt_of_le Nat.zero_lt_one (le_max_right _ _)
    exact loop.mono (fun _ _ both => ⟨both.1, both.2 several⟩)
  · refine (Silent.map (scheduleAgent_started cfg persona agentIdx)).mono ?_
    rintro _ ⟨_, started, _⟩
    exact started

/-- A fleet that was built from a stream can start. -/
theorem startable_of_building {built : RunState Generator}
    (building : buildFresh personas cfg = some built) : Startable personas cfg := by
  obtain ⟨⟨st, ids⟩, drawing, rfl⟩ := Option.map_eq_some_iff.mp building
  obtain ⟨nonempty, externals, agents, tape, finish, drew, computed, _⟩ :=
    buildDrawing_eq_some.mp drawing
  obtain ⟨_, middle, _, drew⟩ := bind_eq_some.mp drew
  obtain ⟨_, _, looped, _⟩ := bind_eq_some.mp drew
  have started : Yields ((List.range cfg.numAgents).foldlM (buildAgent personas cfg) ⟨[], []⟩ :
        Draw Generator Built)
      (fun _ _ => ∀ id < cfg.numAgents, ∀ persona,
        personas[id % personas.length]? = some persona →
          ∃ draws, (firstWake cfg persona draws).isSome) := by
    refine yields_foldlM_range (fun count _ _ => ∀ id < count, ∀ persona,
      personas[id % personas.length]? = some persona →
        ∃ draws, (firstWake cfg persona draws).isSome) _ _ ?_ _
      (fun id none => absurd none (Nat.not_lt_zero id))
    intro count _ soFar before
    refine Silent.bind (yields_checked _) (fun persona turn => ?_)
    refine yields_bind (freshAccounts_yields _) (fun _ subaccounts _ => ?_)
    refine Silent.bind (yields_checked _) (fun main _ => ?_)
    refine Silent.bind (buildSchedule_started _ _ _) (fun schedule wakes => ?_)
    refine Yields.mono (yields_pure _) (fun _ _ _ id below other turn' => ?_)
    rcases Nat.lt_succ_iff_lt_or_eq.mp below with earlier | rfl
    · exact before id earlier other turn'
    · rw [turn] at turn'
      obtain rfl := Option.some.inj turn'
      exact wakes
  obtain ⟨_, _, wakes⟩ := started _ _ _ looped
  exact ⟨nonempty, (checkedI64_eq_some.mp computed).1, wakes⟩

end Started

/-! ### Planned streams -/

/-- What a planned stream has still to hand out: units until the next phase, phases with the units
that follow them; and whether a phase was handed out. -/
structure Plan where
  units : List {unit : Float // 0 ≤ unit ∧ unit < 1}
  phases : List WakeDraws
  phased : Bool

/-- The two units of a delay. -/
def WakeDraws.units (draws : WakeDraws) : List {unit : Float // 0 ≤ unit ∧ unit < 1} :=
  [⟨draws.unit, draws.unit_bounds⟩, ⟨draws.unit', draws.unit_bounds'⟩]

/-- The account that tells whether a phase was handed out. -/
def markOf (phased : Bool) : AccountId := ⟨⟨phased.toNat, by cases phased <;> decide⟩⟩

theorem markOf_injective : Function.Injective markOf := by decide

/-- A generator that follows a plan. -/
structure Planned (start : Plan) where
  now : Plan

instance plannedRng (start : Plan) : Rng (Planned start) where
  seedFromU64 _ := ⟨start⟩
  random planned :=
    match planned.now.units with
    | [] => (0, planned)
    | unit :: rest => (unit, ⟨{ planned.now with units := rest }⟩)
  randomRange _ low high planned :=
    match planned.now.phases with
    | [] => (max low high, planned)
    | draws :: rest => (max low (min draws.phase high), ⟨⟨draws.units, rest, true⟩⟩)
  fillBytes planned := (markOf planned.now.phased, planned)
  logNormal _ _ := none
  random_unit := by
    rintro ⟨_ | ⟨unit, rest⟩, phases, phased⟩
    · show (0 : Float) ≤ 0 ∧ (0 : Float) < 1
      decide
    · exact unit.2
  randomRange_mem := by
    rintro _ low high ⟨units, _ | ⟨draws, rest⟩, phased⟩ ordered
    · exact ⟨le_max_left _ _, max_le ordered le_rfl⟩
    · exact ⟨le_max_left _ _, max_le ordered (min_le_right _ _)⟩

section Playing

variable {start before middle after : Plan} {Result Next : Type}

/-- From the plan the computation returns the result, and leaves the other plan. -/
def Follows (action : Draw (Planned start) Result) (before : Plan) (result : Result)
    (after : Plan) : Prop :=
  ∀ drawn, ∃ later, action ⟨⟨before⟩, drawn⟩ = some (result, ⟨⟨after⟩, later⟩)

theorem follows_pure (result : Result) :
    Follows (pure result : Draw (Planned start) Result) before result before :=
  fun drawn => ⟨drawn, rfl⟩

theorem Follows.bind {first : Draw (Planned start) Result}
    {second : Result → Draw (Planned start) Next} {value : Result} {result : Next}
    (followsFirst : Follows first before value middle)
    (followsSecond : Follows (second value) middle result after) :
    Follows (first >>= second) before result after := by
  intro drawn
  obtain ⟨between, ranFirst⟩ := followsFirst drawn
  obtain ⟨later, ranSecond⟩ := followsSecond between
  exact ⟨later, bind_eq_some.mpr ⟨value, _, ranFirst, ranSecond⟩⟩

theorem Follows.map {action : Draw (Planned start) Result} {result : Result}
    (follows : Follows action before result after) (transform : Result → Next) :
    Follows (transform <$> action) before (transform result) after := by
  intro drawn
  obtain ⟨later, ran⟩ := follows drawn
  exact ⟨later, map_eq_some.mpr ⟨result, ran, rfl⟩⟩

theorem follows_checked {value : Option Result} {result : Result} (passes : value = some result) :
    Follows (checked value : Draw (Planned start) Result) before result before :=
  fun drawn => ⟨drawn, checked_eq_some.mpr ⟨passes, rfl⟩⟩

theorem follows_random (unit : {unit : Float // 0 ≤ unit ∧ unit < 1})
    (next : before.units = unit :: after.units) (phases : before.phases = after.phases)
    (phased : before.phased = after.phased) :
    Follows (random : Draw (Planned start) Float) before unit after := by
  obtain ⟨_, _, _⟩ := before
  obtain rfl := next
  obtain rfl := phases
  obtain rfl := phased
  exact fun drawn => ⟨drawn, rfl⟩

/-- A phase is handed out, and the units that follow it are next. -/
theorem follows_phase {draws : WakeDraws} {rest : List WakeDraws}
    (next : before.phases = draws :: rest) :
    Follows (randomRange .i32 0 86399 : Draw (Planned start) Int) before draws.phase
      ⟨draws.units, rest, true⟩ := by
  obtain ⟨_, _, _⟩ := before
  obtain rfl := next
  have inDay : max 0 (min draws.phase 86399) = draws.phase := by
    rw [min_eq_left draws.phase_inDay.2, max_eq_right draws.phase_inDay.1]
  intro drawn
  refine ⟨drawn, ?_⟩
  show some (max 0 (min draws.phase 86399), _) = _
  rw [inDay]
  rfl

/-- Accounts tell whether a phase was handed out. -/
theorem follows_freshAccounts (count : Nat) :
    Follows (freshAccounts count : Draw (Planned start) (List AccountId)) before
      (List.replicate count (markOf before.phased)) before := by
  have collected (rounds : List Nat) :
      Follows (rounds.mapM (fun _ => randomAccount) : Draw (Planned start) (List AccountId)) before
        (List.replicate rounds.length (markOf before.phased)) before := by
    induction rounds with
    | nil => exact follows_pure []
    | cons round rest inductionHypothesis =>
      rw [List.mapM_cons]
      have account : Follows (randomAccount : Draw (Planned start) AccountId) before
          (markOf before.phased) before := fun drawn => ⟨_, rfl⟩
      exact account.bind (inductionHypothesis.bind (follows_pure _))
  have all := collected (List.range count)
  rwa [List.length_range] at all

variable [Libm] {cfg : SimConfig} {persona : Persona} {draws : WakeDraws}

/-- The next two units make the delay. -/
theorem follows_nextDelaySecs (model : CircadianModel) (secondOfDay : Nat)
    (units : before.units = draws.units ++ after.units) (phases : before.phases = after.phases)
    (phased : before.phased = after.phased) :
    Follows (model.nextDelaySecs secondOfDay : Draw (Planned start) Nat) before
      (model.delayOf secondOfDay draws.unit draws.unit') after := by
  have first : Follows (random : Draw (Planned start) Float) before draws.unit
      { before with units := ⟨draws.unit', draws.unit_bounds'⟩ :: after.units } :=
    follows_random ⟨draws.unit, draws.unit_bounds⟩ units rfl rfl
  have second : Follows (random : Draw (Planned start) Float)
      { before with units := ⟨draws.unit', draws.unit_bounds'⟩ :: after.units } draws.unit'
      after := follows_random ⟨draws.unit', draws.unit_bounds'⟩ rfl phases phased
  exact first.bind (second.bind (follows_pure _))

theorem follows_scheduleAgent (agentIdx : Nat) (wakes : (legacyWake cfg persona draws).isSome)
    (units : before.units = draws.units ++ after.units) (phases : before.phases = after.phases)
    (phased : before.phased = after.phased) :
    ∃ entry, Follows (scheduleAgent cfg persona agentIdx : Draw (Planned start) Sched) before entry
      after := by
  obtain ⟨nextAt, inRange⟩ := Option.isSome_iff_exists.mp wakes
  exact ⟨_, (follows_nextDelaySecs _ _ units phases phased).bind
    ((follows_checked inRange).bind (follows_pure _))⟩

theorem follows_scheduleSubaccount (agentIdx : Nat)
    (wakes : (hardenedWake cfg persona draws).isSome) {rest : List WakeDraws}
    (next : before.phases = draws :: rest) (built : List SubSched × List Sched) (k : Nat) :
    ∃ grown, Follows
      (scheduleSubaccount cfg persona (max persona.numSubaccounts 1) agentIdx built k :
        Draw (Planned start) (List SubSched × List Sched)) before grown ⟨[], rest, true⟩ := by
  obtain ⟨nextAt, waking⟩ := Option.isSome_iff_exists.mp wakes
  obtain ⟨shifted, shifting, waking⟩ := Option.bind_eq_some_iff.mp waking
  obtain ⟨held, holding, inRange⟩ := Option.bind_eq_some_iff.mp waking
  have delay : Follows
      (persona.circadian.nextDelaySecs (secondOfDay shifted) : Draw (Planned start) Nat)
      ⟨draws.units, rest, true⟩ _ ⟨[], rest, true⟩ :=
    follows_nextDelaySecs _ _ (List.append_nil _).symm rfl rfl
  exact ⟨_, (follows_phase next).bind ((follows_checked shifting).bind (delay.bind
    ((follows_checked holding).bind ((follows_checked inRange).bind (follows_pure _)))))⟩

/-- The sub-accounts of an agent, each scheduled by the same draws. -/
theorem follows_scheduleSubaccounts (agentIdx : Nat)
    (wakes : (hardenedWake cfg persona draws).isSome) {rest : List WakeDraws} (ks : List Nat)
    (some : ks ≠ []) (next : before.phases = List.replicate ks.length draws ++ rest)
    (built : List SubSched × List Sched) :
    ∃ grown, Follows (ks.foldlM
      (scheduleSubaccount cfg persona (max persona.numSubaccounts 1) agentIdx) built :
        Draw (Planned start) (List SubSched × List Sched)) before grown ⟨[], rest, true⟩ := by
  induction ks generalizing before built with
  | nil => exact absurd rfl some
  | cons k ks inductionHypothesis =>
    rw [List.foldlM_cons]
    have upcoming : before.phases = draws :: (List.replicate ks.length draws ++ rest) := next
    obtain ⟨grown, follows⟩ := follows_scheduleSubaccount agentIdx wakes upcoming built k
    cases ks with
    | nil => exact ⟨grown, follows.bind (follows_pure grown)⟩
    | cons k' ks =>
      have later : ∃ last, Follows ((k' :: ks).foldlM
          (scheduleSubaccount cfg persona (max persona.numSubaccounts 1) agentIdx) grown :
            Draw (Planned start) (List SubSched × List Sched))
          ⟨[], List.replicate (k' :: ks).length draws ++ rest, true⟩ last ⟨[], rest, true⟩ :=
        inductionHypothesis (List.cons_ne_nil _ _) rfl grown
      obtain ⟨last, followsRest⟩ := later
      exact ⟨last, follows.bind followsRest⟩

end Playing

/-! ### Planned fleets -/

/-- The number of sub-accounts of an agent. -/
def accountsOf (personas : List Persona) (id : Nat) : Nat :=
  (personas[id % personas.length]?.map (fun persona => max persona.numSubaccounts 1)).getD 0

/-- The plan goes on with the draws of the given agents: with their units where they are legacy
agents, with a phase for each sub-account where they are hardened ones. -/
structure Ready (personas : List Persona) (cfg : SimConfig) (draws : Nat → WakeDraws)
    (ids : List Nat) (plan : Plan) : Prop where
  units : cfg.hardened = false → plan.units = ids.flatMap (fun id => (draws id).units)
  phases : cfg.hardened = true →
    plan.phases = ids.flatMap (fun id => List.replicate (accountsOf personas id) (draws id))

section Fleets

variable [Libm] {personas : List Persona} {cfg : SimConfig} {draws : Nat → WakeDraws}
  {start before : Plan}

/-- The schedule of an agent takes its draws from the plan. -/
theorem follows_buildSchedule {id : Nat} {ids : List Nat} {persona : Persona}
    (turn : personas[id % personas.length]? = some persona)
    (wakes : (firstWake cfg persona (draws id)).isSome)
    (ready : Ready personas cfg draws (id :: ids) before) (agentIdx : Nat) :
    ∃ schedule after, Follows (buildSchedule cfg persona (max persona.numSubaccounts 1) agentIdx :
        Draw (Planned start) (List SubSched × List Sched)) before schedule after ∧
      after.phased = (before.phased || cfg.hardened) ∧ Ready personas cfg draws ids after := by
  unfold buildSchedule
  unfold firstWake at wakes
  cases engine : cfg.hardened with
  | true =>
    rw [if_pos rfl]
    rw [engine, if_pos rfl] at wakes
    have count : accountsOf personas id = (List.range (max persona.numSubaccounts 1)).length := by
      unfold accountsOf
      rw [turn, List.length_range]
      rfl
    have next := ready.phases engine
    rw [List.flatMap_cons, count] at next
    have several : List.range (max persona.numSubaccounts 1) ≠ [] := by
      rw [Ne, List.range_eq_nil]
      exact ne_of_gt (lt_of_lt_of_le Nat.zero_lt_one (le_max_right _ _))
    obtain ⟨schedule, follows⟩ :=
      follows_scheduleSubaccounts agentIdx wakes _ several next ([], [])
    refine ⟨schedule, _, follows, (Bool.or_true _).symm, fun legacy => ?_, fun _ => rfl⟩
    exact absurd (engine.symm.trans legacy) Bool.noConfusion
  | false =>
    rw [if_neg Bool.false_ne_true]
    rw [engine, if_neg Bool.false_ne_true] at wakes
    have next := ready.units engine
    rw [List.flatMap_cons] at next
    let after : Plan := { before with units := ids.flatMap (fun id => (draws id).units) }
    have scheduled : ∃ entry, Follows (scheduleAgent cfg persona agentIdx :
        Draw (Planned start) Sched) before entry after :=
      follows_scheduleAgent agentIdx wakes next rfl rfl
    obtain ⟨entry, follows⟩ := scheduled
    refine ⟨([], [entry]), after, ?_, (Bool.or_false _).symm, fun _ => rfl, fun hardened => ?_⟩
    · exact follows.map (fun entry => ([], [entry]))
    · exact absurd (engine.symm.trans hardened) Bool.noConfusion

/-- The next agent: its main account tells whether a phase was drawn before. -/
theorem follows_buildAgent {id : Nat} {ids : List Nat} {persona : Persona}
    (turn : personas[id % personas.length]? = some persona)
    (wakes : (firstWake cfg persona (draws id)).isSome)
    (ready : Ready personas cfg draws (id :: ids) before) (built : Built) :
    ∃ agent sched after,
      Follows (buildAgent personas cfg built id : Draw (Planned start) Built) before
        ⟨built.agents ++ [agent], sched⟩ after ∧
      agent.main = markOf before.phased ∧ after.phased = (before.phased || cfg.hardened) ∧
      Ready personas cfg draws ids after := by
  have scheduled : ∃ schedule after,
      Follows (buildSchedule cfg persona (max persona.numSubaccounts 1) built.agents.length :
        Draw (Planned start) (List SubSched × List Sched)) before schedule after ∧
      after.phased = (before.phased || cfg.hardened) ∧ Ready personas cfg draws ids after :=
    follows_buildSchedule turn wakes ready built.agents.length
  obtain ⟨schedule, after, follows, phased, later⟩ := scheduled
  have first : (List.replicate (max persona.numSubaccounts 1) (markOf before.phased))[0]? =
      some (markOf before.phased) := by
    rw [List.getElem?_replicate,
      if_pos (lt_of_lt_of_le Nat.zero_lt_one (le_max_right _ _))]
  refine ⟨⟨id, persona, List.replicate (max persona.numSubaccounts 1) (markOf before.phased),
    schedule.1, markOf before.phased⟩, built.sched ++ schedule.2, after, ?_, rfl, phased, later⟩
  exact (follows_checked turn).bind ((follows_freshAccounts _).bind ((follows_checked first).bind
    (follows.bind (follows_pure _))))

/-- The agents of the plan: all but the first tell whether the fleet is hardened. -/
theorem follows_buildAgents {ids : List Nat}
    (wakes : ∀ id ∈ ids, ∃ persona, personas[id % personas.length]? = some persona ∧
      (firstWake cfg persona (draws id)).isSome)
    (ready : Ready personas cfg draws ids before) (built : Built) :
    ∃ agents sched after,
      Follows (ids.foldlM (buildAgent personas cfg) built : Draw (Planned start) Built) before
        ⟨built.agents ++ agents, sched⟩ after ∧
      agents.map (·.main) = (List.replicate ids.length
        (markOf (before.phased || cfg.hardened))).set 0 (markOf before.phased) := by
  induction ids generalizing before built with
  | nil =>
    refine ⟨[], built.sched, before, ?_, rfl⟩
    rw [List.append_nil]
    exact follows_pure built
  | cons id ids inductionHypothesis =>
    obtain ⟨persona, turn, waking⟩ := wakes id List.mem_cons_self
    rw [List.foldlM_cons]
    have grown : ∃ agent sched after,
        Follows (buildAgent personas cfg built id : Draw (Planned start) Built) before
          ⟨built.agents ++ [agent], sched⟩ after ∧
        agent.main = markOf before.phased ∧ after.phased = (before.phased || cfg.hardened) ∧
        Ready personas cfg draws ids after := follows_buildAgent turn waking ready built
    obtain ⟨agent, sched, middle, follows, main, phased, later⟩ := grown
    obtain ⟨agents, sched', after, followsRest, mains⟩ := inductionHypothesis
      (fun id member => wakes id (List.mem_cons_of_mem _ member)) later
      ⟨built.agents ++ [agent], sched⟩
    refine ⟨agent :: agents, sched', after, ?_, ?_⟩
    · rw [List.append_cons]
      exact follows.bind followsRest
    · rw [List.map_cons, main, mains, phased, Bool.or_assoc, Bool.or_self,
        List.set_replicate_self]
      rfl

/-- Draws of the first wakes of a fleet that can start. -/
theorem Startable.woken (startable : Startable personas cfg) :
    ∃ draws : Nat → WakeDraws, ∀ id < cfg.numAgents, ∀ persona,
      personas[id % personas.length]? = some persona →
        (firstWake cfg persona (draws id)).isSome := by
  have each (id : Nat) : ∃ draws : WakeDraws, id < cfg.numAgents → ∀ persona,
      personas[id % personas.length]? = some persona →
        (firstWake cfg persona draws).isSome := by
    by_cases below : id < cfg.numAgents
    · have turn : id % personas.length < personas.length :=
        Nat.mod_lt _ (List.length_pos_iff.mpr startable.nonempty)
      obtain ⟨draws, wakes⟩ := startable.wakes id below _ (List.getElem?_eq_getElem turn)
      refine ⟨draws, fun _ persona found => ?_⟩
      rw [List.getElem?_eq_getElem turn] at found
      obtain rfl := Option.some.inj found
      exact wakes
    · exact ⟨⟨0, 0, 0, by decide, by decide, by decide⟩, fun inside => absurd inside below⟩
  choose draws wakes using each
  exact ⟨draws, wakes⟩

/-- A fleet whose draws the plan holds is built from it. -/
theorem buildFresh_planned (startable : Startable personas cfg)
    (wakes : ∀ id < cfg.numAgents, ∀ persona, personas[id % personas.length]? = some persona →
      (firstWake cfg persona (draws id)).isSome)
    (ready : Ready personas cfg draws (List.range cfg.numAgents) start)
    (unphased : start.phased = false) :
    ∃ built : RunState (Planned start), buildFresh personas cfg = some built ∧
      built.agents.map (·.main) =
        (List.replicate cfg.numAgents (markOf cfg.hardened)).set 0 (markOf false) := by
  have turns : ∀ id ∈ List.range cfg.numAgents, ∃ persona,
      personas[id % personas.length]? = some persona ∧
        (firstWake cfg persona (draws id)).isSome := by
    intro id member
    have turn : id % personas.length < personas.length :=
      Nat.mod_lt _ (List.length_pos_iff.mpr startable.nonempty)
    exact ⟨_, List.getElem?_eq_getElem turn,
      wakes id (List.mem_range.mp member) _ (List.getElem?_eq_getElem turn)⟩
  obtain ⟨agents, sched, after, follows, mains⟩ :
      ∃ agents sched after, Follows ((List.range cfg.numAgents).foldlM
          (buildAgent personas cfg) ⟨[], []⟩ : Draw (Planned start) Built) start
          ⟨[] ++ agents, sched⟩ after ∧
        agents.map (·.main) = (List.replicate (List.range cfg.numAgents).length
          (markOf (start.phased || cfg.hardened))).set 0 (markOf start.phased) :=
    follows_buildAgents turns ready ⟨[], []⟩
  have run : Follows (buildRun personas cfg : Draw (Planned start) (List AccountId × Built)) start
      (List.replicate (max cfg.numExternal 1) (markOf start.phased), ⟨[] ++ agents, sched⟩) after :=
    (follows_freshAccounts _).bind (follows.bind (follows_pure _))
  obtain ⟨later, drew⟩ := run []
  have computed : checkedI64 (cfg.startTs + cfg.durationSecs) =
      some (cfg.startTs + cfg.durationSecs) := checkedI64_eq_some.mpr ⟨startable.ends, rfl⟩
  have drawing := buildDrawing_eq_some.mpr
    ⟨startable.nonempty, _, _, _, _, drew, computed, rfl, rfl⟩
  refine ⟨_, Option.map_eq_some_iff.mpr ⟨_, drawing, rfl⟩, ?_⟩
  rw [List.length_range, unphased, Bool.false_or] at mains
  exact mains

end Fleets

/-! ### Identities -/

/-- A configuration of the cooker, with the hardened or the legacy timing. -/
def SimConfig.cooker (cfg : SimConfig) (hardenTiming : Bool) : SimConfig :=
  { cfg with mode := .cooker, hardenTiming := hardenTiming }

/-- The identities of an agent. -/
def Agent.accounts (agent : Agent) : List AccountId × AccountId := (agent.subaccounts, agent.main)

/-- Two fleets of the same externals and, agent by agent, the same sub-accounts and main. -/
structure SameIdentities {Generator : Type} (first second : RunState Generator) : Prop where
  externals : first.externals = second.externals
  accounts : first.agents.map Agent.accounts = second.agents.map Agent.accounts

section Identities

variable {Generator : Type} [Rng Generator] [Libm] {personas : List Persona} {cfg : SimConfig}

/-- What is drawn of an agent before anything depends on the timing. -/
def drawAccounts (personas : List Persona) (id : Nat) :
    Draw Generator (List AccountId × AccountId) := do
  let persona ← checked personas[id % personas.length]?
  let subaccounts ← freshAccounts (max persona.numSubaccounts 1)
  let main ← checked subaccounts[0]?
  pure (subaccounts, main)

/-- The next agent gets the accounts that the stream holds at this place. -/
theorem buildAgent_accounts {built next : Built} {id : Nat} {before after : Tape Generator}
    (ran : buildAgent personas cfg built id before = some (next, after)) :
    ∃ accounts middle, drawAccounts personas id before = some (accounts, middle) ∧
      next.agents.map Agent.accounts = built.agents.map Agent.accounts ++ [accounts] := by
  obtain ⟨persona, tape, turn, ran⟩ := bind_eq_some.mp ran
  obtain ⟨subaccounts, middle, drew, ran⟩ := bind_eq_some.mp ran
  obtain ⟨main, last, first, ran⟩ := bind_eq_some.mp ran
  obtain ⟨schedule, _, _, ran⟩ := bind_eq_some.mp ran
  obtain ⟨rfl, _⟩ := pure_eq_some.mp ran
  refine ⟨(subaccounts, main), last, ?_, by rw [List.map_append]; rfl⟩
  exact bind_eq_some.mpr ⟨persona, tape, turn, bind_eq_some.mpr ⟨subaccounts, middle, drew,
    bind_eq_some.mpr ⟨main, last, first, rfl⟩⟩⟩

/-- The identities of a fleet of at most one agent stand in the stream before any schedule. -/
theorem buildFresh_accounts {built : RunState Generator}
    (building : buildFresh personas cfg = some built) (single : cfg.numAgents ≤ 1) :
    ∃ middle, freshAccounts (max cfg.numExternal 1)
        ⟨(Rng.seedFromU64 (deriveSeed cfg) : Generator), []⟩ = some (built.externals, middle) ∧
      (cfg.numAgents = 0 ∧ built.agents.map Agent.accounts = [] ∨
        cfg.numAgents = 1 ∧ ∃ accounts last,
          drawAccounts personas 0 middle = some (accounts, last) ∧
          built.agents.map Agent.accounts = [accounts]) := by
  obtain ⟨⟨st, ids⟩, drawing, rfl⟩ := Option.map_eq_some_iff.mp building
  obtain ⟨_, externals, agents, tape, finish, drew, _, _, rfl⟩ := buildDrawing_eq_some.mp drawing
  obtain ⟨drawn, middle, drewExternals, drew⟩ := bind_eq_some.mp drew
  obtain ⟨made, _, looped, drew⟩ := bind_eq_some.mp drew
  obtain ⟨equal, rfl⟩ := pure_eq_some.mp drew
  obtain ⟨rfl, rfl⟩ := Prod.mk.inj equal
  refine ⟨middle, drewExternals, ?_⟩
  rcases Nat.le_one_iff_eq_zero_or_eq_one.mp single with none | one
  · rw [none] at looped
    obtain ⟨rfl, _⟩ := pure_eq_some.mp looped
    exact .inl ⟨none, rfl⟩
  · rw [one] at looped
    obtain ⟨next, _, ran, finished⟩ := bind_eq_some.mp looped
    obtain ⟨rfl, _⟩ := pure_eq_some.mp finished
    obtain ⟨accounts, last, drewAccounts, appended⟩ := buildAgent_accounts ran
    exact .inr ⟨one, accounts, last, drewAccounts, appended⟩

/-- At most one agent has the same identities under both timings. -/
theorem sameIdentities_of_single (single : cfg.numAgents ≤ 1)
    {hardened legacy : RunState Generator}
    (buildingHardened : buildFresh personas (cfg.cooker true) = some hardened)
    (buildingLegacy : buildFresh personas (cfg.cooker false) = some legacy) :
    SameIdentities hardened legacy := by
  obtain ⟨middle, externals, agents⟩ := buildFresh_accounts buildingHardened single
  obtain ⟨middle', externals', agents'⟩ := buildFresh_accounts buildingLegacy single
  have same : some (hardened.externals, middle) = some (legacy.externals, middle') :=
    externals.symm.trans externals'
  obtain ⟨sameExternals, rfl⟩ := Prod.mk.inj (Option.some.inj same)
  refine ⟨sameExternals, ?_⟩
  rcases agents with ⟨none, empty⟩ | ⟨one, accounts, last, drew, appended⟩
  · rcases agents' with ⟨_, empty'⟩ | ⟨one, _⟩
    · rw [empty, empty']
    · exact absurd (none.symm.trans one) Nat.zero_ne_one
  · rcases agents' with ⟨none, _⟩ | ⟨_, accounts', last', drew', appended'⟩
    · exact absurd (none.symm.trans one) Nat.zero_ne_one
    · rw [drew] at drew'
      obtain ⟨rfl, _⟩ := Prod.mk.inj (Option.some.inj drew')
      rw [appended, appended']

end Identities

section Timing

variable [Libm]

/-- On every stream from which both timings are built, the identities agree. -/
def TimingsAgree (personas : List Persona) (cfg : SimConfig) : Prop :=
  ∀ (Generator : Type) [Rng Generator] (hardened legacy : RunState Generator),
    buildFresh personas (cfg.cooker true) = some hardened →
      buildFresh personas (cfg.cooker false) = some legacy → SameIdentities hardened legacy

/-- A fleet that can start under both timings is built under both from one planned stream. On it
the second agents differ. -/
theorem planned_differ {personas : List Persona} {cfg : SimConfig} (several : 1 < cfg.numAgents)
    (startable : ∀ hardenTiming, Startable personas (cfg.cooker hardenTiming)) :
    ¬ TimingsAgree personas cfg := by
  intro agree
  obtain ⟨draws, wakes⟩ := (startable true).woken
  obtain ⟨draws', wakes'⟩ := (startable false).woken
  let start : Plan := ⟨(List.range cfg.numAgents).flatMap (fun id => (draws' id).units),
    (List.range cfg.numAgents).flatMap
      (fun id => List.replicate (accountsOf personas id) (draws id)), false⟩
  obtain ⟨hardened, buildingHardened, mains⟩ : ∃ built : RunState (Planned start),
      buildFresh personas (cfg.cooker true) = some built ∧ built.agents.map (·.main) =
        (List.replicate cfg.numAgents (markOf true)).set 0 (markOf false) :=
    buildFresh_planned (startable true) wakes
      ⟨fun legacy => absurd legacy.symm Bool.noConfusion, fun _ => rfl⟩ rfl
  obtain ⟨legacy, buildingLegacy, mains'⟩ : ∃ built : RunState (Planned start),
      buildFresh personas (cfg.cooker false) = some built ∧ built.agents.map (·.main) =
        (List.replicate cfg.numAgents (markOf false)).set 0 (markOf false) :=
    buildFresh_planned (startable false) wakes'
      ⟨fun _ => rfl, fun hardened => absurd hardened Bool.noConfusion⟩ rfl
  have same := (agree _ hardened legacy buildingHardened buildingLegacy).accounts
  have sameMains := congrArg (List.map Prod.snd) same
  rw [List.map_map, List.map_map] at sameMains
  have marks := (mains.symm.trans sameMains).trans mains'
  have second := congrArg (fun accounts : List AccountId => accounts[1]?) marks
  simp only [List.getElem?_set_ne Nat.zero_ne_one, List.getElem?_replicate, if_pos several]
    at second
  exact Bool.noConfusion (markOf_injective (Option.some.inj second))

/-- The hardened and the legacy fleet of one seed have the same identities on every stream exactly
when there is at most one agent, or one of the fleets cannot start on any stream. -/
theorem timingsAgree_iff (personas : List Persona) (cfg : SimConfig) :
    TimingsAgree personas cfg ↔
      cfg.numAgents ≤ 1 ∨ ¬ ∀ hardenTiming, Startable personas (cfg.cooker hardenTiming) := by
  constructor
  · intro agree
    by_contra neither
    obtain ⟨several, startable⟩ := not_or.mp neither
    exact planned_differ (not_le.mp several) (not_not.mp startable) agree
  · rintro (single | unstartable) Generator _ hardened legacy buildingHardened buildingLegacy
    · exact sameIdentities_of_single single buildingHardened buildingLegacy
    · refine absurd (fun hardenTiming => ?_) unstartable
      cases hardenTiming with
      | true => exact startable_of_building buildingHardened
      | false => exact startable_of_building buildingLegacy

end Timing

/-- Two retail users have other identities in the hardened fleet than in the legacy one. -/
theorem smallRun_identities_differ : ¬ TimingsAgree [Persona.retail] smallRun := by
  intro agree
  have mains : ((buildFresh [Persona.retail] (smallRun.cooker true) :
      Option (RunState Counter)).bind fun hardened =>
        (buildFresh [Persona.retail] (smallRun.cooker false) : Option (RunState Counter)).map
          fun legacy => decide (hardened.agents.map Agent.accounts =
            legacy.agents.map Agent.accounts)) = some false := by
    decide +kernel
  obtain ⟨hardened, buildingHardened, compared⟩ := Option.bind_eq_some_iff.mp mains
  obtain ⟨legacy, buildingLegacy, differ⟩ := Option.map_eq_some_iff.mp compared
  exact of_decide_eq_false differ
    (agree Counter hardened legacy buildingHardened buildingLegacy).accounts

end AccountCooker
