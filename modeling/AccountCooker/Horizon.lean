/-
This file follows the clock of a fleet from the command line on. The command
line checks that the days make a duration in range; the engine adds the
duration to the time of the start, draws the first wake of every schedule
entry, and after each wake the next. Next to each place where the engine
computes a time stands the same computation on unbounded integers, and the two
agree: the delays of accepted personas are below `2 ^ 25` seconds, and a fleet
has fewer than `2 ^ 32` sub-accounts per agent, so no product and no first wake
leaves the range. The next wakes saturate.

What is not checked is the end of the interval: a number of days whose seconds
are in range can still end behind the largest time there is.
-/

import Mathlib
import AccountCooker.Delays
import AccountCooker.Completion
import AccountCooker.Roster
import AccountCooker.Custody
import AccountCooker.Validation

namespace AccountCooker

open Doubles Draw

/-! ### The command line -/

/-- The configuration of a fleet from the dimensions given on the command line. -/
def baseCfg (agents : Nat) (days : Int) (seed external : Nat) : Except String SimConfig := do
  ensure (agents != 0) "--agents must be greater than zero"
  ensure (!decide (days ≤ 0)) "--days must be greater than zero"
  ensure (external != 0) "--external must be greater than zero"
  match checkedI64 (days * 86400) with
  | some durationSecs => .ok { SimConfig.default with
      numAgents := agents
      durationSecs := durationSecs
      seed := seed
      numExternal := external }
  | none => .error "--days is too large"

/-- An accepted fleet lasts for its days, in seconds in range, and starts at the default time. -/
theorem baseCfg_eq_ok {agents : Nat} {days : Int} {seed external : Nat} {cfg : SimConfig}
    (accepted : baseCfg agents days seed external = .ok cfg) :
    cfg.startTs = 1700000000 ∧ cfg.durationSecs = 86400 * days ∧ 0 < days ∧
      86400 * days ≤ i64Max := by
  unfold baseCfg at accepted
  simp only [ensure] at accepted
  split at accepted
  · split at accepted
    · rename_i positive
      split at accepted
      · split at accepted
        · rename_i durationSecs computed
          obtain ⟨range, rfl⟩ := checkedI64_eq_some.mp computed
          obtain rfl := Except.ok.inj accepted
          refine ⟨rfl, mul_comm _ _, ?_, ?_⟩
          · simpa using positive
          · rw [mul_comm]
            exact range.2
        · exact absurd accepted (by simp [bind, Except.bind])
      · exact absurd accepted (by simp [bind, Except.bind])
    · exact absurd accepted (by simp [bind, Except.bind])
  · exact absurd accepted (by simp [bind, Except.bind])

/-! ### The clock on unbounded integers -/

section Exact

variable {Generator : Type} [Rng Generator] [Libm]

/-- The first wake of a naive or legacy agent. -/
def exactScheduleAgent (cfg : SimConfig) (persona : Persona) (agentIdx : Nat) :
    Draw Generator Sched := do
  let d ← persona.circadian.nextDelaySecs (secondOfDay cfg.startTs)
  pure ⟨agentIdx, none, cfg.startTs + d⟩

/-- A delay, or that of `n` sub-accounts that hold the aggregate rate. -/
def exactHold (cfg : SimConfig) (n d : Nat) : Int :=
  if cfg.hardening.holdAggregateRate then (d : Int) * n else d

/-- The phase and the first wake of a sub-account. -/
def exactScheduleSubaccount (cfg : SimConfig) (persona : Persona) (n agentIdx : Nat)
    (built : List SubSched × List Sched) (k : Nat) :
    Draw Generator (List SubSched × List Sched) := do
  let phase ← randomRange .i32 0 86399
  let d ← persona.circadian.nextDelaySecs (secondOfDay (cfg.startTs + phase))
  pure (built.1 ++ [⟨phase⟩],
    built.2 ++ [⟨agentIdx, some k, cfg.startTs + max (exactHold cfg n d) 1⟩])

def exactBuildSchedule (cfg : SimConfig) (persona : Persona) (n agentIdx : Nat) :
    Draw Generator (List SubSched × List Sched) :=
  if cfg.hardened then
    (List.range n).foldlM (exactScheduleSubaccount cfg persona n agentIdx) ([], [])
  else (fun entry => ([], [entry])) <$> exactScheduleAgent cfg persona agentIdx

def exactBuildAgent (personas : List Persona) (cfg : SimConfig) (built : Built) (id : Nat) :
    Draw Generator Built := do
  let persona ← checked personas[id % personas.length]?
  let n := max persona.numSubaccounts 1
  let subaccounts ← freshAccounts n
  let main ← checked subaccounts[0]?
  let schedule ← exactBuildSchedule cfg persona n built.agents.length
  pure ⟨built.agents ++ [⟨id, persona, subaccounts, schedule.1, main⟩],
    built.sched ++ schedule.2⟩

def exactBuildRun (personas : List Persona) (cfg : SimConfig) :
    Draw Generator (List AccountId × Built) := do
  let externals ← freshAccounts (max cfg.numExternal 1)
  let built ← (List.range cfg.numAgents).foldlM (exactBuildAgent personas cfg) ⟨[], []⟩
  pure (externals, built)

/-- The fresh run, whose interval ends where the duration says. -/
def exactBuildFresh (personas : List Persona) (cfg : SimConfig) : Option (RunState Generator) :=
  if personas.isEmpty then none
  else do
    let ((externals, built), tape) ←
      exactBuildRun personas cfg ⟨(Rng.seedFromU64 (deriveSeed cfg) : Generator), []⟩
    pure {
      agents := built.agents
      externals := externals
      sched := built.sched
      cfg := cfg
      finish := cfg.startTs + cfg.durationSecs
      rng := tape.generator
      heap := heapOf (built.sched.map (·.nextAt))
      chain := MockChain.new cfg.startTs
      events := 0 }

/-- A wake, and the next one: the exact time, or the largest there is. -/
def exactWake (cfg : SimConfig) (externals : List AccountId) (best : Int) (chain : MockChain)
    (agent : Agent) (subIdx : Option Nat) : Draw Generator Woken :=
  match subIdx with
  | none => do
    let chain ← performAction chain agent externals cfg.mode
    let d ← agent.persona.circadian.nextDelaySecs (secondOfDay best)
    pure ⟨chain, agent, saturatingI64 (best + max (d : Int) 1)⟩
  | some k => do
    let acted ← performActionHardened chain agent k externals cfg
    let sub ← checked acted.2.subSched[k]?
    let d ← acted.2.persona.circadian.nextDelaySecs
      (secondOfDay (saturatingI64 (best + sub.phase)))
    pure ⟨acted.1, acted.2,
      saturatingI64 (best + max (exactHold cfg acted.2.subaccounts.length d) 1)⟩

end Exact

/-! ### The engine computes it -/

section Agreement

variable {Generator : Type} [Rng Generator]

omit [Rng Generator] in
/-- What follows a computation matters only on what it can yield. -/
theorem bind_congr_of_yields {Result Next : Type} {first : Draw Generator Result}
    {second second' : Result → Draw Generator Next} {middle : List AccountId → Result → Prop}
    (yields : Yields first middle)
    (same : ∀ ids value, middle ids value → second value = second' value) :
    first >>= second = first >>= second' := by
  funext before
  show (first before).bind _ = (first before).bind _
  cases ran : first before with
  | none => rfl
  | some found =>
    obtain ⟨ids, _, holds⟩ := yields before found.1 found.2 ran
    show second found.1 found.2 = second' found.1 found.2
    rw [same ids found.1 holds]

omit [Rng Generator] in
/-- A check that passes is no check. -/
theorem checked_bind {Result Next : Type} {value : Option Result} {result : Result}
    (passes : value = some result) (next : Result → Draw Generator Next) :
    checked value >>= next = next result := by
  subst passes
  rfl

theorem asI64_of_small {value : Nat} (small : value < 2 ^ 63) : asI64 value = value := by
  unfold asI64
  rw [Nat.mod_eq_of_lt (by omega), if_pos small]

/-- A persona of a jitter below one, with fewer than `2 ^ 32` sub-accounts. -/
structure Moderately (persona : Persona) : Prop where
  jitter : Within 0 persona.circadian.jitter
  few : max persona.numSubaccounts 1 < 2 ^ 32

/-- The jitter of an accepted persona is a fraction. -/
theorem Persona.Accepted.moderately {persona : Persona} (accepted : persona.Accepted)
    (few : persona.numSubaccounts < 2 ^ 32) : Moderately persona := by
  refine ⟨within_of_between accepted.jitter.2.1 accepted.jitter.2.2 trivial within_one (by decide),
    max_lt few (by decide)⟩

/-- The product of a delay and a number of sub-accounts is in range. -/
theorem holdRate_exact {cfg : SimConfig} {n d : Nat} (few : n < 2 ^ 32) (short : d ≤ 2 ^ 25) :
    holdRate cfg n (asI64 d) = some (exactHold cfg n d) ∧ exactHold cfg n d ≤ 2 ^ 57 := by
  have product : d * n ≤ 2 ^ 25 * 2 ^ 32 := Nat.mul_le_mul short few.le
  have product' : (d : Int) * n ≤ 2 ^ 57 := by exact_mod_cast product
  unfold holdRate exactHold
  rw [asI64_of_small (by omega), asI64_of_small (by omega)]
  split
  · refine ⟨checkedI64_eq_some.mpr ⟨⟨?_, ?_⟩, rfl⟩, product'⟩
    · exact le_trans (by decide) (Int.natCast_nonneg (d * n))
    · exact product'.trans (by decide)
  · exact ⟨rfl, by omega⟩

variable [Libm] {cfg : SimConfig} {persona : Persona}

theorem scheduleAgent_exact (bounded : LogBounded) (moderately : Moderately persona)
    (start : cfg.startTs = 1700000000) (agentIdx : Nat) :
    (scheduleAgent cfg persona agentIdx : Draw Generator Sched) =
      exactScheduleAgent cfg persona agentIdx := by
  refine bind_congr_of_yields (nextDelaySecs_bounded bounded _ moderately.jitter _) ?_
  rintro _ d ⟨_, _, short⟩
  refine checked_bind (checkedI64_eq_some.mpr ⟨?_, ?_⟩) _
  · rw [start, asI64_of_small (by omega)]
    unfold i64Min i64Max
    omega
  · rw [asI64_of_small (by omega)]

theorem scheduleSubaccount_exact (bounded : LogBounded) (moderately : Moderately persona)
    (start : cfg.startTs = 1700000000) {n : Nat} (few : n < 2 ^ 32) (agentIdx : Nat) :
    (scheduleSubaccount cfg persona n agentIdx :
        List SubSched × List Sched → Nat → Draw Generator (List SubSched × List Sched)) =
      exactScheduleSubaccount cfg persona n agentIdx := by
  funext built k
  refine bind_congr_of_yields (yields_randomRange .i32 0 86399) ?_
  rintro _ phase ⟨_, low, high⟩
  rw [checked_bind (checkedI64_eq_some.mpr ⟨by rw [start]; unfold i64Min i64Max; omega, rfl⟩)]
  refine bind_congr_of_yields (nextDelaySecs_bounded bounded _ moderately.jitter _) ?_
  rintro _ d ⟨_, _, short⟩
  have hold : holdRate cfg n (asI64 d) = some (exactHold cfg n d) ∧ exactHold cfg n d ≤ 2 ^ 57 :=
    holdRate_exact few short
  obtain ⟨held, bound⟩ := hold
  rw [checked_bind held]
  refine checked_bind (checkedI64_eq_some.mpr ⟨?_, rfl⟩) _
  rw [start]
  unfold i64Min i64Max
  omega

theorem buildSchedule_exact (bounded : LogBounded) (moderately : Moderately persona)
    (start : cfg.startTs = 1700000000) {n : Nat} (few : n < 2 ^ 32) (agentIdx : Nat) :
    (buildSchedule cfg persona n agentIdx : Draw Generator (List SubSched × List Sched)) =
      exactBuildSchedule cfg persona n agentIdx := by
  unfold buildSchedule exactBuildSchedule
  rw [scheduleSubaccount_exact bounded moderately start few,
    scheduleAgent_exact bounded moderately start]

theorem buildRun_exact {personas : List Persona} (bounded : LogBounded)
    (moderately : ∀ persona ∈ personas, Moderately persona) (start : cfg.startTs = 1700000000) :
    (buildRun personas cfg : Draw Generator (List AccountId × Built)) =
      exactBuildRun personas cfg := by
  have agents : (buildAgent personas cfg : Built → Nat → Draw Generator Built) =
      exactBuildAgent personas cfg := by
    funext built id
    refine bind_congr_of_yields (yields_checked _) ?_
    rintro _ persona ⟨_, found⟩
    have each := moderately persona (List.mem_of_getElem? found)
    simp only [buildSchedule_exact bounded each start each.few]
  unfold buildRun exactBuildRun
  rw [agents]

/-- Every next wake of an agent is the exact one, or the largest time there is. -/
theorem wake_exact (bounded : LogBounded) {externals : List AccountId} {agent : Agent}
    {subIdx : Option Nat} (engine : subIdx.isSome = cfg.hardened)
    (moderately : Moderately agent.persona) (few : agent.subaccounts.length < 2 ^ 32) (best : Int)
    (chain : MockChain) :
    (wake cfg externals best chain agent subIdx : Draw Generator Woken) =
      exactWake cfg externals best chain agent subIdx := by
  have begun : Moves cfg externals ⟨chain, agent, []⟩ ⟨chain, agent, []⟩ :=
    Relation.ReflTransGen.refl
  cases subIdx with
  | none =>
    refine bind_congr_of_yields (performAction_moves engine.symm begun) (fun _ acted _ => ?_)
    refine bind_congr_of_yields (nextDelaySecs_bounded bounded _ moderately.jitter _) ?_
    rintro _ d ⟨_, _, short⟩
    rw [asI64_of_small (by omega)]
  | some k =>
    refine bind_congr_of_yields (performActionHardened_moves k engine.symm begun)
      (fun _ acted moves => ?_)
    have same := moves_same moves
    refine bind_congr_of_yields (yields_checked _) (fun _ sub _ => ?_)
    have jitter : Within 0 acted.2.persona.circadian.jitter := by
      rw [same.persona]
      exact moderately.jitter
    refine bind_congr_of_yields (nextDelaySecs_bounded bounded _ jitter _) ?_
    rintro _ d ⟨_, _, short⟩
    have number : acted.2.subaccounts.length < 2 ^ 32 := by
      rw [same.count]
      exact few
    exact checked_bind (holdRate_exact number short).1 _

end Agreement

/-! ### The exact clock is always there -/

section Totality

variable {Generator : Type} [Rng Generator] [Libm] {personas : List Persona} {cfg : SimConfig}

theorem nextDelaySecs_total (model : CircadianModel) (secondOfDay : Nat) :
    Total (model.nextDelaySecs secondOfDay : Draw Generator Nat) :=
  Total.then total_random (fun _ => Total.then total_random (fun _ => total_pure _))

theorem exactBuildSchedule_total (cfg : SimConfig) (persona : Persona) (n agentIdx : Nat) :
    Total (exactBuildSchedule cfg persona n agentIdx :
      Draw Generator (List SubSched × List Sched)) := by
  unfold exactBuildSchedule
  split
  · refine total_foldlM_always (fun built k _ => ?_) _
    refine Total.then (total_randomRange .i32 (by decide)) (fun phase => ?_)
    exact Total.then (nextDelaySecs_total _ _) (fun d => total_pure _)
  · exact Total.map (Total.then (nextDelaySecs_total _ _) (fun d => total_pure _)) _

/-- Without arithmetic checks, a fleet of some personas can always be built. -/
theorem exactBuildRun_total (nonempty : personas ≠ []) :
    Total (exactBuildRun personas cfg : Draw Generator (List AccountId × Built)) := by
  have fresh (count : Nat) : Total (freshAccounts count : Draw Generator (List AccountId)) :=
    total_mapM (fun _ => total_randomAccount)
  refine Total.then (fresh _) (fun externals => ?_)
  refine Total.then (total_foldlM_always (fun built id _ => ?_) _) (fun built => total_pure _)
  have turn : id % personas.length < personas.length :=
    Nat.mod_lt _ (List.length_pos_iff.mpr nonempty)
  refine Total.then (total_checked (List.getElem?_eq_getElem turn)) (fun persona => ?_)
  refine Total.bind (fresh _) (freshAccounts_yields _) ?_
  rintro _ subaccounts ⟨_, length⟩
  have first : 0 < subaccounts.length := by
    rw [length]
    exact lt_of_lt_of_le Nat.zero_lt_one (le_max_right _ _)
  refine Total.then (total_checked (List.getElem?_eq_getElem first)) (fun main => ?_)
  exact Total.then (exactBuildSchedule_total _ _ _ _) (fun schedule => total_pure _)

/-- The interval of a built run ends in range. -/
theorem buildFresh_finish {built : RunState Generator}
    (building : buildFresh personas cfg = some built) :
    built.finish = cfg.startTs + cfg.durationSecs ∧
      cfg.startTs + cfg.durationSecs ≤ i64Max := by
  obtain ⟨⟨st, ids⟩, drawing, rfl⟩ := Option.map_eq_some_iff.mp building
  obtain ⟨_, _, _, _, finish, _, computed, _, rfl⟩ := buildDrawing_eq_some.mp drawing
  obtain ⟨range, same⟩ := checkedI64_eq_some.mp computed
  exact ⟨same.symm, range.2⟩

/-- When the end of the interval is in range, the fleet is built, and as on unbounded integers. -/
theorem buildFresh_exact (bounded : LogBounded)
    (moderately : ∀ persona ∈ personas, Moderately persona) (nonempty : personas ≠ [])
    (start : cfg.startTs = 1700000000) (lasting : 0 ≤ cfg.durationSecs)
    (ends : cfg.startTs + cfg.durationSecs ≤ i64Max) :
    ∃ built : RunState Generator, buildFresh personas cfg = some built ∧
      exactBuildFresh personas cfg = some built := by
  have total : Total (exactBuildRun personas cfg : Draw Generator (List AccountId × Built)) :=
    exactBuildRun_total nonempty
  obtain ⟨⟨externals, agents⟩, tape, ran⟩ := total ⟨Rng.seedFromU64 (deriveSeed cfg), []⟩
  have finish : checkedI64 (cfg.startTs + cfg.durationSecs) =
      some (cfg.startTs + cfg.durationSecs) := by
    refine checkedI64_eq_some.mpr ⟨⟨?_, ends⟩, rfl⟩
    rw [start]
    unfold i64Min
    omega
  have some : ¬ personas.isEmpty = true := by
    rw [List.isEmpty_iff]
    exact nonempty
  unfold buildFresh buildDrawing exactBuildFresh
  rw [if_neg some, if_neg some, buildRun_exact bounded moderately start]
  simp only [ran, finish, Option.bind_eq_bind, Option.bind_some]
  exact ⟨_, rfl, rfl⟩

end Totality

/-! ### Runs -/

section Runs

variable {Generator : Type} [Rng Generator] [Libm] {personas : List Persona} {cfg : SimConfig}

/-- Every boundary of a run is reached. -/
theorem ReachedBy.boundaries {built st visited : RunState Generator} {first ids : List AccountId}
    (reached : ReachedBy personas cfg built st first ids) {fuel : Nat}
    (member : visited ∈ st.boundaries fuel) :
    ∃ more, ReachedBy personas cfg built visited first more := by
  induction fuel generalizing st ids with
  | zero => exact absurd member List.not_mem_nil
  | succ fuel inductionHypothesis =>
    unfold RunState.boundaries at member
    rcases List.mem_cons.mp member with rfl | later
    · exact ⟨ids, reached⟩
    · split at later
      · exact absurd later List.not_mem_nil
      · unfold RunState.event at later
        cases served : st.serve with
        | none =>
          rw [served] at later
          exact absurd later List.not_mem_nil
        | some result =>
          rw [served] at later
          exact inductionHypothesis (reached.serve (served.trans rfl)) later

/-- The clock of a fleet: the run is built as on unbounded integers, over an interval that lasts
for its days; and at every boundary every schedule entry, woken at whatever time, is scheduled
again as on unbounded integers, or at the largest time there is. -/
structure ClockExact (Generator : Type) [Rng Generator] (personas : List Persona)
    (cfg : SimConfig) (days : Int) : Prop where
  built : ∃ built : RunState Generator, buildFresh personas cfg = some built ∧
    exactBuildFresh personas cfg = some built ∧
    built.finish = cfg.startTs + 86400 * days ∧ cfg.startTs < built.finish
  rescheduled : ∀ built : RunState Generator, buildFresh personas cfg = some built →
    ∀ fuel, ∀ st ∈ built.boundaries fuel, ∀ entry ∈ st.sched, ∀ agent,
      st.agents[entry.agentIdx]? = some agent → ∀ best chain,
        (wake st.cfg st.externals best chain agent entry.subIdx : Draw Generator Woken) =
          exactWake st.cfg st.externals best chain agent entry.subIdx

/-- The wakes of a built run. -/
theorem boundaries_wake_exact (bounded : LogBounded)
    (moderately : ∀ persona ∈ personas, Moderately persona) {built st : RunState Generator}
    (building : buildFresh personas cfg = some built) {fuel : Nat}
    (member : st ∈ built.boundaries fuel) {entry : Sched} (scheduled : entry ∈ st.sched)
    {agent : Agent} (found : st.agents[entry.agentIdx]? = some agent) (best : Int)
    (chain : MockChain) :
    (wake st.cfg st.externals best chain agent entry.subIdx : Draw Generator Woken) =
      exactWake st.cfg st.externals best chain agent entry.subIdx := by
  obtain ⟨⟨state, first⟩, drawing, rfl⟩ := Option.map_eq_some_iff.mp building
  obtain ⟨more, reached⟩ := (reachedBy_built drawing).boundaries member
  have plays := reached.roster.plays _ agent found
  have each := moderately agent.persona plays.mem
  refine wake_exact bounded (reached.engine entry scheduled) each ?_ best chain
  rw [plays.accounts]
  exact each.few

/-- When the interval ends in range, the clock of the run is exact. -/
theorem clockExact_of_ends (bounded : LogBounded)
    (moderately : ∀ persona ∈ personas, Moderately persona) (nonempty : personas ≠ [])
    (start : cfg.startTs = 1700000000) {days : Int} (lasts : cfg.durationSecs = 86400 * days)
    (positive : 0 < days) (ends : cfg.startTs + 86400 * days ≤ i64Max) :
    ClockExact Generator personas cfg days := by
  refine ⟨?_, fun built building fuel st member entry scheduled agent found best chain =>
    boundaries_wake_exact bounded moderately building member scheduled found best chain⟩
  rw [← lasts] at ends
  have building : ∃ built : RunState Generator, buildFresh personas cfg = some built ∧
      exactBuildFresh personas cfg = some built :=
    buildFresh_exact bounded moderately nonempty start (by omega) ends
  obtain ⟨built, building, exact⟩ := building
  obtain ⟨finish, _⟩ := buildFresh_finish building
  exact ⟨built, building, exact, by rw [finish, lasts], by omega⟩

end Runs

/-- Of a fleet the command line accepts, with accepted personas of fewer than `2 ^ 32` sub-accounts
each, the clock is exact in every run of every engine exactly when the interval ends in range. -/
theorem clockExact_iff [Libm] (bounded : LogBounded) (agents : Nat) (days : Int)
    (seed external : Nat) (base : SimConfig)
    (accepted : baseCfg agents days seed external = .ok base) (mode : Mode) (hardenTiming : Bool)
    (hardening : HardeningConfig) (funding : Option FundingConfig) (personas : List Persona)
    (nonempty : personas ≠ []) (validated : ∀ persona ∈ personas,
      persona.validate = .ok () ∧ persona.numSubaccounts < 2 ^ 32) :
    (∀ (Generator : Type) [Rng Generator], ClockExact Generator personas
        { base with
          mode := mode
          hardenTiming := hardenTiming
          hardening := hardening
          funding := funding } days) ↔
      base.startTs + 86400 * days ≤ i64Max := by
  obtain ⟨start, lasts, positive, _⟩ := baseCfg_eq_ok accepted
  constructor
  · intro always
    obtain ⟨built, building, _, finish, _⟩ := (always Counter).built
    obtain ⟨_, range⟩ := buildFresh_finish building
    rw [← lasts]
    exact range
  · intro ends Generator _
    have moderately (persona : Persona) (member : persona ∈ personas) : Moderately persona :=
      (Persona.accepted_of_validate (validated persona member).1).moderately
        (validated persona member).2
    refine clockExact_of_ends bounded moderately nonempty ?_ ?_ positive ?_
    · exact start
    · exact lasts
    · exact ends

/-- A logarithm that is right at the units a `Counter` hands out, and goes down in steps. -/
@[reducible]
def steppedLibm : Libm where
  ln x :=
    if x == 0.25 then -1.3862943611198906
    else if x == 0.0078125 then -4.852030263919617
    else if x < 0.001 then -13.815510557964274
    else if x ≤ 1.0 then -0.6931471805599453
    else 0.6931471805599453
  exp _ := 0.36787944117144233

theorem steppedLibm_bounded : @LogBounded steppedLibm := by
  have steps : ((-21.0 : Float) ≤ -1.3862943611198906 ∧ (-1.3862943611198906 : Float) ≤ 0.0) ∧
      ((-21.0 : Float) ≤ -4.852030263919617 ∧ (-4.852030263919617 : Float) ≤ 0.0) ∧
      ((-21.0 : Float) ≤ -13.815510557964274 ∧ (-13.815510557964274 : Float) ≤ 0.0) ∧
      (-21.0 : Float) ≤ -0.6931471805599453 ∧ (-0.6931471805599453 : Float) ≤ 0.0 := by decide
  intro u _ below
  show -21.0 ≤ (if u == 0.25 then _ else _) ∧ (if u == 0.25 then _ else _) ≤ 0.0
  split
  · exact steps.1
  · split
    · exact steps.2.1
    · split
      · exact steps.2.2.1
      · exact steps.2.2.2

/-- A fleet of three days of a retail user. -/
theorem clockExact_threeDays : ∃ base : SimConfig, baseCfg 12 3 1 40 = .ok base ∧
    base.startTs + 86400 * 3 ≤ i64Max ∧
      @ClockExact steppedLibm Counter _ [Persona.retail] base 3 := by
  refine ⟨_, rfl, by decide, ?_⟩
  refine (@clockExact_iff steppedLibm steppedLibm_bounded 12 3 1 40 _ rfl .cooker true .default
    none [Persona.retail] (by simp) (fun persona member => ?_)).mpr (by decide) Counter
  rw [List.mem_singleton.mp member]
  exact ⟨by decide +kernel, by decide⟩

/-- The command line accepts a number of days whose seconds are in range, and the built run
panics: the end of its interval is not. -/
theorem accepted_fleet_overflows : ∃ base : SimConfig,
    baseCfg 1 106751991167300 1 1 = .ok base ∧ Persona.retail.validate = .ok () ∧
      (buildFresh [Persona.retail] base : Option (RunState Counter)).isNone = true := by
  exact ⟨_, rfl, by decide +kernel, by decide +kernel⟩

end AccountCooker
