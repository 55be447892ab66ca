/-
This file settles that a fleet within its capacity is simulated to the end. The
capacity is read off the configuration and the personas: how many wakes the
schedule has room for, how many records a wake writes, how far apart they are and
how large an amount is. While the clock and the counters have room for all of
them, no wake panics, so the loop runs until nothing is due any more, and the
ledger is no longer than the capacity.

A state of the run carries the wakes it has left: the budget of its heap. A wake
uses up one of them at least, and no more records than a wake may write.
-/

import Mathlib
import AccountCooker.Capacity
import AccountCooker.Horizon
import AccountCooker.Wakes
import AccountCooker.TopUps

namespace AccountCooker

open Collections Draw Agenda

/-! ### Wakes -/

/-- The most records of a wake of an agent with so many accounts. -/
def wakeRecords (cfg : SimConfig) (policy : SplitPolicy) (accounts : Nat) : Nat :=
  if cfg.hardened then hardenedRecords policy accounts else cfg.mode.wakeRecords policy accounts

/-- What bounds a fleet: the accounts of an agent, the records of a wake, the gap between two of
them, and an amount. -/
structure Bounds where
  accounts : Nat
  records : Nat
  gap : Nat
  lamports : Nat

/-- The wakes there can be: every account is due at most once a second. -/
def Bounds.wakes (bounds : Bounds) (cfg : SimConfig) : Nat :=
  cfg.numAgents * bounds.accounts * cfg.durationSecs.toNat

/-- The records there can be. -/
def Bounds.ledger (bounds : Bounds) (cfg : SimConfig) : Nat := bounds.wakes cfg * bounds.records

/-- What a wake asks of the personas and the configuration. -/
structure Provided [Libm] (Generator : Type) [Rng Generator] (bounds : Bounds)
    (personas : List Persona) (cfg : SimConfig) : Prop where
  moderately : ∀ persona ∈ personas, Moderately persona
  accounts : ∀ persona ∈ personas, max persona.numSubaccounts 1 ≤ bounds.accounts
  records : ∀ persona ∈ personas,
    wakeRecords cfg persona.split (max persona.numSubaccounts 1) ≤ bounds.records
  measured : cfg.mode = .cooker → ∀ persona ∈ personas,
    persona.Measured Generator bounds.lamports
  sources : cfg.hardening.rebalance = .directHub → 1 ≤ cfg.hardening.sweepMaxSources
  gaps : cfg.hardened = true → ∀ unit, 0 ≤ unit → unit < 1 → gapOf cfg unit ≤ bounds.gap

section Waking

variable {Generator : Type} [Rng Generator] [Libm] {bounds : Bounds} {personas : List Persona}
  {cfg : SimConfig} {limits : Limits} {left index : Nat} {agent : Agent}
  {externals : List AccountId} {chain : MockChain} {subIdx : Option Nat}

omit [Libm] in
theorem hardened_cooker (hardened : cfg.hardened = true) : cfg.mode = .cooker := by
  unfold SimConfig.hardened at hardened
  exact of_decide_eq_true (Bool.and_eq_true_iff.mp hardened).1

/-- The schedule entry of a wake has its place in the agent. -/
def Placed (agent : Agent) (subIdx : Option Nat) : Prop :=
  ∀ k, subIdx = some k → k < agent.subaccounts.length ∧ k < agent.subSched.length

/-- A wake returns, and leaves what it does not use. -/
theorem wake_returns (bounded : LogBounded) (provided : Provided Generator bounds personas cfg)
    (gap : limits.gap = bounds.gap) (plays : Plays personas index agent)
    (engine : subIdx.isSome = cfg.hardened) (placed : Placed agent subIdx)
    (outside : externals ≠ [])
    (allowance : Allowance limits (left + bounds.records) (left + bounds.records) chain)
    (best : Int) (before : Tape Generator) :
    Returns (wake cfg externals best chain agent subIdx) before
      (fun woken _ => Allowance limits left left woken.chain) := by
  have moderately := provided.moderately _ plays.mem
  have enough := provided.records _ plays.mem
  rw [← plays.accounts] at enough
  have owns : agent.subaccounts ≠ [] := by
    rw [← List.length_pos_iff, plays.accounts]
    omega
  cases subIdx with
  | none =>
    have unhardened : cfg.hardened = false := engine.symm
    unfold wakeRecords at enough
    rw [unhardened] at enough
    have used : left + cfg.mode.wakeRecords agent.persona.split agent.subaccounts.length ≤
        left + bounds.records := Nat.add_le_add_left enough left
    refine Returns.bind (performAction_returns
      (fun cooker => provided.measured cooker _ plays.mem) owns outside
      (allowance.mono used used) before) (fun acted tape allowed => ?_)
    refine Returns.bind ((nextDelaySecs_total _ _).returns (nextDelaySecs_silent _ _) tape)
      (fun d tape _ => ?_)
    exact returns_pure.mpr allowed
  | some k =>
    have hardened : cfg.hardened = true := engine.symm
    obtain ⟨inside, scheduled⟩ := placed k rfl
    unfold wakeRecords at enough
    rw [if_pos hardened] at enough
    have used : left + hardenedRecords agent.persona.split agent.subaccounts.length ≤
        left + bounds.records := Nat.add_le_add_left enough left
    have covers : limits.Covers cfg := by
      intro unit low high
      rw [gap]
      exact provided.gaps hardened unit low high
    obtain ⟨acted, tape, ran, allowed⟩ := performActionHardened_returns
      (provided.measured (hardened_cooker hardened) _ plays.mem) covers provided.sources inside
      outside (allowance.mono used used) before
    have begun : Moves cfg externals ⟨chain, agent, []⟩ ⟨chain, agent, []⟩ :=
      Relation.ReflTransGen.refl
    obtain ⟨_, _, moves⟩ := performActionHardened_moves k hardened begun _ _ _ ran
    have same := moves_same moves
    have entry : k < acted.2.subSched.length := by
      rw [same.subSched]
      exact scheduled
    refine returns_bind.mpr ⟨acted, tape, ran, ?_⟩
    refine returns_bind.mpr (returns_checked.mpr ⟨_, List.getElem?_eq_getElem entry, ?_⟩)
    have jitter : Doubles.Within 0 acted.2.persona.circadian.jitter := by
      rw [same.persona]
      exact moderately.jitter
    refine Returns.bind ((nextDelaySecs_total _ _).returns
      (nextDelaySecs_bounded bounded _ jitter _) tape) ?_
    rintro d tape ⟨_, short⟩
    have few : acted.2.subaccounts.length < 2 ^ 32 := by
      rw [same.count, plays.accounts]
      exact moderately.few
    refine returns_bind.mpr (returns_checked.mpr ⟨_, (holdRate_exact few short).1, ?_⟩)
    exact returns_pure.mpr allowed

end Waking

/-! ### The schedule -/

section Scheduling

variable {Generator : Type} [Rng Generator] [Libm] {personas : List Persona} {cfg : SimConfig}
  {persona : Persona} {accounts : Nat}

/-- A schedule entry wakes an agent, in its place, after the start. -/
structure Entered (cfg : SimConfig) (agents : List Agent) (entry : Sched) : Prop where
  agent : ∃ agent, agents[entry.agentIdx]? = some agent ∧ Placed agent entry.subIdx
  later : cfg.startTs < entry.nextAt

/-- The entries of an agent of `n` accounts: at most as many, each after the start. -/
structure Entries (cfg : SimConfig) (n agentIdx : Nat) (schedule : List SubSched × List Sched) :
    Prop where
  few : schedule.2.length ≤ n
  entry : ∀ entry ∈ schedule.2, entry.agentIdx = agentIdx ∧ cfg.startTs < entry.nextAt ∧
    ∀ k, entry.subIdx = some k → k < n ∧ k < schedule.1.length

theorem buildSchedule_entries (bounded : LogBounded) (moderately : Moderately persona) {n : Nat}
    (positive : 1 ≤ n) (agentIdx : Nat) :
    Silent (buildSchedule cfg persona n agentIdx : Draw Generator (List SubSched × List Sched))
      (Entries cfg n agentIdx) := by
  unfold buildSchedule
  split
  · have sofar : Yields ((List.range n).foldlM (scheduleSubaccount cfg persona n agentIdx)
        ([], []) : Draw Generator (List SubSched × List Sched))
        (fun ids schedule => ids = [] ∧ schedule.1.length = n ∧ schedule.2.length = n ∧
          ∀ entry ∈ schedule.2, entry.agentIdx = agentIdx ∧ cfg.startTs < entry.nextAt ∧
            ∀ k, entry.subIdx = some k → k < n) := by
      refine yields_foldlM_range (fun round ids (schedule : List SubSched × List Sched) =>
        ids = [] ∧ schedule.1.length = round ∧ schedule.2.length = round ∧
          ∀ entry ∈ schedule.2, entry.agentIdx = agentIdx ∧ cfg.startTs < entry.nextAt ∧
            ∀ k, entry.subIdx = some k → k < round) _ n ?_ _ ⟨rfl, rfl, rfl, by simp⟩
      rintro round ids schedule ⟨rfl, phases, length, entries⟩
      refine Silent.bind (yields_randomRange _ _ _) (fun phase _ => ?_)
      refine Silent.bind (yields_checked _) (fun shifted _ => ?_)
      refine Silent.bind (nextDelaySecs_silent _ _) (fun d _ => ?_)
      refine Silent.bind (yields_checked _) (fun held _ => ?_)
      refine Silent.bind (yields_checked _) (fun nextAt computed => ?_)
      refine Yields.mono (yields_pure _) ?_
      rintro _ next ⟨rfl, rfl⟩
      obtain ⟨_, rfl⟩ := checkedI64_eq_some.mp computed
      refine ⟨rfl, by simp [phases], by simp [length], fun entry member => ?_⟩
      rcases List.mem_append.mp member with old | new
      · obtain ⟨own, later, place⟩ := entries entry old
        exact ⟨own, later, fun k same => (place k same).trans (Nat.lt_succ_self _)⟩
      · obtain rfl := List.mem_singleton.mp new
        refine ⟨rfl, by dsimp only; omega, fun k same => ?_⟩
        rw [← Option.some.inj same]
        exact Nat.lt_succ_self _
    refine Yields.mono sofar ?_
    rintro ids schedule ⟨rfl, phases, length, entries⟩
    refine ⟨rfl, length.le, fun entry member => ?_⟩
    obtain ⟨own, later, place⟩ := entries entry member
    exact ⟨own, later, fun k same => ⟨place k same, by rw [phases]; exact place k same⟩⟩
  · have single : Silent (scheduleAgent cfg persona agentIdx : Draw Generator Sched)
        (fun entry => entry.agentIdx = agentIdx ∧ cfg.startTs < entry.nextAt ∧
          entry.subIdx = none) := by
      refine Silent.bind (nextDelaySecs_bounded bounded _ moderately.jitter _) ?_
      rintro d ⟨least, short⟩
      refine Silent.bind (yields_checked _) (fun nextAt computed => ?_)
      refine (yields_pure _).mono ?_
      rintro entry rfl
      obtain ⟨_, rfl⟩ := checkedI64_eq_some.mp computed
      refine ⟨rfl, ?_, rfl⟩
      rw [asI64_of_small (by omega)]
      exact lt_add_of_pos_right _ (Int.natCast_pos.mpr least)
    refine Silent.mono (Silent.map single) ?_
    rintro schedule ⟨entry, ⟨own, later, unplaced⟩, rfl⟩
    refine ⟨positive, fun other member => ?_⟩
    obtain rfl := List.mem_singleton.mp member
    refine ⟨own, later, fun k same => ?_⟩
    rw [unplaced] at same
    cases same

/-- The schedule built so far: every entry is entered, and there are not too many. -/
structure EnteredSoFar (cfg : SimConfig) (accounts count : Nat) (built : Built) : Prop where
  agents : built.agents.length = count
  few : built.sched.length ≤ count * accounts
  entered : ∀ entry ∈ built.sched, Entered cfg built.agents entry

theorem buildAgent_entered (bounded : LogBounded)
    (moderately : ∀ persona ∈ personas, Moderately persona)
    (most : ∀ persona ∈ personas, max persona.numSubaccounts 1 ≤ accounts) {count : Nat}
    {built : Built} (sofar : EnteredSoFar cfg accounts count built) :
    Yields (buildAgent personas cfg built count : Draw Generator Built)
      (fun _ next => EnteredSoFar cfg accounts (count + 1) next) := by
  refine Silent.bind (yields_checked _) (fun persona turn => ?_)
  have member := List.mem_of_getElem? turn
  refine yields_bind (freshAccounts_yields _) ?_
  rintro subaccounts _ ⟨rfl, length⟩
  refine Silent.bind (yields_checked _) (fun main first => ?_)
  refine Silent.bind (buildSchedule_entries bounded (moderately persona member)
    (le_max_right _ _) _) (fun schedule entries => ?_)
  refine Yields.mono (yields_pure _) ?_
  rintro _ next ⟨rfl, rfl⟩
  refine ⟨by simp [sofar.agents], ?_, fun entry inside => ?_⟩
  · rw [List.length_append, Nat.succ_mul]
    exact Nat.add_le_add sofar.few (entries.few.trans (most persona member))
  · rcases List.mem_append.mp inside with old | new
    · obtain ⟨⟨agent, found, placed⟩, later⟩ := sofar.entered entry old
      refine ⟨⟨agent, ?_, placed⟩, later⟩
      rw [List.getElem?_append_left (List.getElem?_eq_some_iff.mp found).1]
      exact found
    · obtain ⟨own, later, place⟩ := entries.entry entry new
      refine ⟨⟨⟨count, persona, subaccounts, schedule.1, main⟩, ?_, fun k same => ?_⟩, later⟩
      · rw [own]
        exact List.getElem?_concat_length
      · obtain ⟨inside, scheduled⟩ := place k same
        exact ⟨by rw [length]; exact inside, scheduled⟩

/-- The schedule of a built run. -/
theorem buildDrawing_entered (bounded : LogBounded)
    (moderately : ∀ persona ∈ personas, Moderately persona)
    (most : ∀ persona ∈ personas, max persona.numSubaccounts 1 ≤ accounts)
    {built : RunState Generator} {ids : List AccountId}
    (building : buildDrawing personas cfg = some (built, ids)) :
    built.sched.length ≤ cfg.numAgents * accounts ∧ built.externals ≠ [] ∧
      ∀ entry ∈ built.sched, Entered cfg built.agents entry := by
  have run : Yields (buildRun personas cfg : Draw Generator (List AccountId × Built))
      (fun _ result => result.1 ≠ [] ∧ EnteredSoFar cfg accounts cfg.numAgents result.2) := by
    refine yields_bind (freshAccounts_yields _) ?_
    rintro externals _ ⟨rfl, length⟩
    have outside : externals ≠ [] := by
      rw [← List.length_pos_iff, length]
      exact lt_of_lt_of_le Nat.zero_lt_one (le_max_right _ _)
    refine yields_bind (yields_foldlM_range
      (fun count _ (built : Built) => EnteredSoFar cfg accounts count built) _ cfg.numAgents
      (fun round ids built sofar => buildAgent_entered bounded moderately most sofar) ⟨[], []⟩
      ⟨rfl, Nat.zero_le _, by simp⟩) (fun _ built sofar => ?_)
    refine Yields.mono (yields_pure _) ?_
    rintro _ result ⟨rfl, rfl⟩
    exact ⟨outside, sofar⟩
  obtain ⟨_, externals, agents, tape, finish, drew, _, _, rfl⟩ := buildDrawing_eq_some.mp building
  obtain ⟨_, _, outside, sofar⟩ := run _ _ _ drew
  exact ⟨sofar.few, outside, sofar.entered⟩

/-- An entry has its place in the agents of every reached state. -/
theorem ReachedBy.entered {built st : RunState Generator} {first ids : List AccountId}
    (reached : ReachedBy personas cfg built st first ids) {entry : Sched}
    (entered : Entered cfg built.agents entry) :
    ∃ agent, st.agents[entry.agentIdx]? = some agent ∧ Placed agent entry.subIdx := by
  obtain ⟨agent, found, placed⟩ := entered.agent
  have same := reached.same.agents
  obtain ⟨inside, equal⟩ := List.getElem?_eq_some_iff.mp found
  have there : entry.agentIdx < st.agents.length := by
    rw [← same.length_eq]
    exact inside
  have kept := same.get inside there
  rw [List.get_eq_getElem, List.get_eq_getElem, equal] at kept
  refine ⟨_, List.getElem?_eq_getElem there, fun k at_k => ?_⟩
  rw [kept.count, kept.subSched]
  exact placed k at_k

end Scheduling

/-! ### The loop -/

section Looping

variable {Generator : Type} [Rng Generator] [Libm] {bounds : Bounds} {personas : List Persona}
  {cfg : SimConfig} {limits : Limits} {built st : RunState Generator}
  {first ids : List AccountId}

/-- The limits of a run with these bounds. -/
structure Limits.Fits (limits : Limits) (bounds : Bounds) (built : RunState Generator) : Prop where
  finish : limits.finish = built.finish
  gap : limits.gap = bounds.gap
  early : built.finish < i64Max

/-- A reached state has what its wakes up to the end may use: their records and gaps, and a count
of events. -/
structure Endures (limits : Limits) (bounds : Bounds) (personas : List Persona) (cfg : SimConfig)
    (built : RunState Generator) (first ids : List AccountId) (st : RunState Generator) :
    Prop where
  reached : ReachedBy personas cfg built st first ids
  allowance : Allowance limits (budget built.finish st.heap * bounds.records)
    (budget built.finish st.heap * bounds.records) st.chain
  events : st.events + budget built.finish st.heap ≤ u64Max

/-- An event returns, and uses up a wake of the budget. -/
theorem Endures.serve (bounded : LogBounded) (provided : Provided Generator bounds personas cfg)
    (fits : limits.Fits bounds built)
    (endures : Endures limits bounds personas cfg built first ids st) (due : st.done = false) :
    ∃ next more, st.serve = some (next, more) ∧
      Endures limits bounds personas cfg built first (ids ++ more) next ∧
      budget built.finish next.heap < budget built.finish st.heap := by
  obtain ⟨reached, allowance, events⟩ := endures
  have same := reached.same
  obtain ⟨_, outside, entered⟩ := buildDrawing_entered bounded provided.moderately
    provided.accounts reached.building
  cases heap : st.heap with
  | nil =>
    unfold RunState.done at due
    rw [heap] at due
    exact absurd due (by simp)
  | cons least rest =>
    have inTime : least.1 ≤ built.finish := by
      unfold RunState.done at due
      rw [heap, same.finish] at due
      exact not_lt.mp (of_decide_eq_false due)
    have inside : least.2 < st.sched.length := by
      refine List.mem_range.mp (same.heap.indices.mem_iff.mp (List.mem_map_of_mem ?_))
      rw [heap]
      exact List.mem_cons_self
    have atEntry := List.getElem?_eq_getElem inside
    have member := List.mem_of_getElem? atEntry
    have listed : st.sched[least.2] ∈ built.sched := by
      rw [← same.sched]
      exact member
    obtain ⟨agent, found, placed⟩ := reached.entered (entered _ listed)
    have pays : 1 ≤ budget built.finish st.heap := by
      rw [heap, budget_cons]
      omega
    obtain ⟨fewer, count⟩ := Nat.exists_eq_add_of_le' pays
    rw [count, Nat.succ_mul] at allowance
    have begun : Allowance limits (fewer * bounds.records + bounds.records)
        (fewer * bounds.records + bounds.records)
        (st.chain.setTime (max least.1 st.chain.now)) := by
      refine allowance.tick (le_max_right _ _) (max_le ?_ (le_max_left _ _))
      rw [fits.finish]
      exact inTime.trans (le_max_right _ _)
    have engine : st.sched[least.2].subIdx.isSome = cfg.hardened := by
      rw [reached.engine _ member, reached.config]
    obtain ⟨woken, tape, woke, left⟩ := wake_returns bounded provided fits.gap
      (reached.roster.plays _ agent found) engine placed outside begun least.1 ⟨st.rng, []⟩
    have counted : checkedU64 (st.events + 1) = some (st.events + 1) :=
      checkedU64_eq_some.mpr ⟨by omega, rfl⟩
    rw [← reached.config, ← same.externals] at woke
    have serves : ∃ next more, st.serve = some (next, more) ∧ next.chain = woken.chain := by
      unfold RunState.serve
      simp only [heap, atEntry, found, woke, counted, Option.bind_eq_bind, Option.bind_some]
      exact ⟨_, _, rfl, rfl⟩
    obtain ⟨next, more, served, chain⟩ := serves
    obtain ⟨due', rest', again, popped, _, _, turn⟩ :=
      serve_turn same.heap due (same.finish ▸ fits.early) served
    obtain ⟨rfl, rfl⟩ := List.cons.inj (popped.symm.trans heap)
    have used := turn.budget_lt inTime
    obtain ⟨_, _, facts⟩ := serve_served served
    have recordsLe : budget built.finish next.heap * bounds.records ≤ fewer * bounds.records :=
      Nat.mul_le_mul_right _ (by omega)
    refine ⟨next, more, served, ⟨reached.serve served, ?_, ?_⟩, heap ▸ used⟩
    · rw [chain]
      exact left.mono recordsLe recordsLe
    · rw [facts.events]
      omega

/-- While wakes are due, events return; so the loop does, when nothing is due any more. -/
theorem Endures.runs (bounded : LogBounded) (provided : Provided Generator bounds personas cfg)
    (fits : limits.Fits bounds built) {fuel : Nat}
    (endures : Endures limits bounds personas cfg built first ids st)
    (enough : budget built.finish st.heap < fuel) :
    ∃ final more, runCore (nullSink Generator) fuel st () = Outcome.returned (final, ()) ∧
      Endures limits bounds personas cfg built first more final := by
  induction fuel generalizing st ids with
  | zero => exact absurd enough (Nat.not_lt_zero _)
  | succ fuel inductionHypothesis =>
    rw [runCore_succ]
    cases due : st.done with
    | true => exact ⟨st, ids, rfl, endures⟩
    | false =>
      obtain ⟨next, more, served, later, used⟩ := endures.serve bounded provided fits due
      unfold RunState.event
      rw [served]
      have less : budget built.finish next.heap < fuel := by omega
      exact inductionHypothesis later less

end Looping

/-! ### Labels and times of the records -/

/-- Every agent has its number, and every record the number of an agent and a time from the start
on. -/
structure Labelled (cfg : SimConfig) (view : View) : Prop where
  ids : ∀ index (agent : Agent), view.agents[index]? = some agent → agent.id = index
  started : cfg.startTs ≤ view.chain.clock
  records : ∀ record ∈ view.chain.ledger.records, cfg.startTs ≤ record.ts ∧
    ∃ id < view.agents.length, record.operator = some id

theorem step_labelled {cfg : SimConfig} {externals : List AccountId} {before after : View}
    (labelled : Labelled cfg before) (step : Step cfg externals before after) :
    Labelled cfg after := by
  obtain ⟨ids, started, records⟩ := labelled
  cases step with
  | tick agents chain drawn ts later => exact ⟨ids, started.trans later, records⟩
  | act agents chain drawn index agent next found move =>
    have same := move_same move
    cases move with
    | mk _ _ _ ts tx feePayer after more recorded timely emission appended =>
      have later : chain.clock ≤ ts := by
        unfold SimConfig.Timely at timely
        split at timely
        · exact timely.le
        · exact timely.ge
      have inside := (List.getElem?_eq_some_iff.mp found).1
      refine ⟨fun other agent' at_other => ?_, ?_, fun record member => ?_⟩
      · by_cases here : other = index
        · subst here
          obtain rfl := Option.some.inj ((List.getElem?_set_self inside).symm.trans at_other)
          exact same.id.trans (ids other agent found)
        · rw [List.getElem?_set_ne (Ne.symm here)] at at_other
          exact ids other agent' at_other
      · rw [record_clock appended]
        exact started.trans later
      · rw [record_eq appended] at member
        rw [List.length_set]
        rcases List.mem_append.mp member with old | new
        · exact records record old
        · rw [List.mem_singleton.mp new]
          exact ⟨started.trans later, index, inside, congrArg some (ids index agent found)⟩

theorem ReachedBy.labelled {Generator : Type} [Rng Generator] [Libm] {personas : List Persona}
    {cfg : SimConfig} {built st : RunState Generator} {first ids : List AccountId}
    (reached : ReachedBy personas cfg built st first ids) : Labelled cfg (st.view ids) := by
  refine reached.holds (fun _ view => Labelled cfg view) (fun built first fresh => ?_)
    (fun _ _ _ labelled step => step_labelled labelled step)
  refine ⟨fun index agent found => (fresh.agents index agent found).id, ?_, ?_⟩
  · show cfg.startTs ≤ built.chain.clock
    rw [fresh.chain]
    exact le_rfl
  · show ∀ record ∈ built.chain.ledger.records, _
    rw [fresh.chain]
    exact fun record member => absurd member List.not_mem_nil

theorem mem_hubsOf (agents : List Agent) (id : AgentId) :
    id ∈ (hubsOf agents).keys ↔ id ∈ agents.map (·.id) := by
  have fold (pairs : List (AgentId × AccountId)) (map : BTreeMap AgentId AccountId) :
      id ∈ (pairs.foldl (fun map pair => map.insert pair.1 pair.2) map).keys ↔
        id ∈ map.keys ∨ id ∈ pairs.map Prod.fst := by
    induction pairs generalizing map with
    | nil => simp
    | cons pair rest inductionHypothesis =>
      rw [List.foldl_cons, inductionHypothesis, BTreeMap.mem_keys_insert, List.map_cons,
        List.mem_cons]
      tauto
  unfold hubsOf BTreeMap.ofList
  rw [fold, BTreeMap.keys_empty, List.map_map]
  simp

/-! ### Funding -/

section Funding

variable {Generator : Type} [Rng Generator] {fcfg : FundingConfig}
  {hubs : BTreeMap AgentId AccountId}

theorem drawRelayers_total (policy : FundingPolicy) :
    Total (drawRelayers policy : Draw Generator (List AccountId)) := by
  cases policy with
  | operatorHub => exact total_pure []
  | dedicatedFunder => exact total_pure []
  | sharedRelayers k => exact total_mapM (fun _ => total_randomAccount)

/-- The funders of known operators can be assigned. -/
theorem assignFunders_total (fcfg : FundingConfig) (hubs : BTreeMap AgentId AccountId) :
    Total (assignFunders fcfg hubs : Draw Generator
      (List AccountId × BTreeMap AgentId (AccountId × Option AgentId))) := by
  refine Total.bind (drawRelayers_total _) (drawRelayers_yields fcfg.policy) ?_
  rintro _ relayers ⟨_, pool⟩
  refine Total.then (total_foldlM_always (fun funderOf op member => ?_) _)
    (fun funderOf => total_pure _)
  unfold assignFunder
  cases policy : fcfg.policy with
  | operatorHub =>
    obtain ⟨hub, found⟩ := Option.isSome_iff_exists.mp ((BTreeMap.mem_keys_iff hubs op).mp member)
    exact Total.then (total_checked found) (fun hub => total_pure _)
  | dedicatedFunder => exact Total.then total_randomAccount (fun funder => total_pure _)
  | sharedRelayers k =>
    have positive : 0 < relayers.length := by
      rw [pool k policy]
      exact lt_of_lt_of_le Nat.zero_lt_one (le_max_right _ _)
    dsimp only
    split
    · refine Total.then (fun tape => ?_) (fun relayer => total_pure _)
      obtain ⟨relayer, after, ran, _⟩ := choose_returns (List.length_pos_iff.mp positive) tape
      exact ⟨relayer, after, ran⟩
    · exact Total.then (total_checked (List.getElem?_eq_getElem positive))
        (fun relayer => total_pure _)

/-- A span of times, all of which are in range. -/
structure Span where
  low : Int
  high : Int
  least : i64Min ≤ low
  most : high ≤ i64Max

/-- The time of a record is in a span. -/
def Span.Holds (span : Span) (r : TxRecord) : Prop := span.low ≤ r.ts ∧ r.ts ≤ span.high

/-- A record whose fee payer can be funded: its operator is known, and so far before the record
the span does not begin. -/
structure Fundable (fcfg : FundingConfig) (hubs : BTreeMap AgentId AccountId) (span : Span)
    (r : TxRecord) : Prop where
  operator : ∀ op, r.operator = some op → op ∈ hubs.keys
  early : span.low ≤ r.ts - max fcfg.leadMaxSecs fcfg.leadMinSecs
  late : r.ts ≤ span.high

/-- The transfers added so far are in the span, and leave room for as many more. -/
def Funded (span : Span) (total left : Nat) (state : FundingEvents) : Prop :=
  state.events.length + left ≤ total ∧ ∀ event ∈ state.events, span.Holds event

/-- A record adds at most one transfer. -/
theorem fundRecord_returns {total : Nat} {span : Span} {relayers : List AccountId}
    {funderOf : BTreeMap AgentId (AccountId × Option AgentId)} {state : FundingEvents}
    {r : TxRecord} {left : Nat} (lead : 0 ≤ fcfg.leadMinSecs)
    (pool : fcfg.perEventRelayer = true → relayers ≠ [])
    (known : ∀ op ∈ hubs.keys, (funderOf.get? op).isSome) (fundable : Fundable fcfg hubs span r)
    (sourceSet : Finset AccountId) (funded : Funded span total (left + 1) state)
    (before : Tape Generator) :
    Returns (fundRecord fcfg sourceSet relayers funderOf state r) before
      (fun next _ => Funded span total left next) := by
  obtain ⟨room, timely⟩ := funded
  have same : state.events.length + left ≤ total := by omega
  unfold fundRecord
  split
  · exact returns_pure.mpr ⟨same, timely⟩
  split
  · exact returns_pure.mpr ⟨same, timely⟩
  cases operator : r.operator with
  | none => exact returns_pure.mpr ⟨same, timely⟩
  | some op =>
    have assigned : Returns (if fcfg.perEventRelayer = true
        then (fun relayer => (relayer, none)) <$> choose relayers
        else checked (funderOf.get? op) : Draw Generator (AccountId × Option AgentId)) before
          (fun _ _ => True) := by
      split
      · rename_i perEvent
        obtain ⟨relayer, after, ran, _⟩ := choose_returns (pool perEvent) before
        exact ⟨_, after, map_eq_some.mpr ⟨relayer, ran, rfl⟩, trivial⟩
      · obtain ⟨funder, found⟩ :=
          Option.isSome_iff_exists.mp (known op (fundable.operator op operator))
        exact returns_checked.mpr ⟨funder, found, trivial⟩
    refine Returns.bind assigned (fun funder tape _ => ?_)
    split
    · exact returns_pure.mpr ⟨same, timely⟩
    refine Returns.bind ((total_randomRange .i64 (le_max_right _ _)).returns
      (yields_randomRange _ _ _) tape) ?_
    rintro drawn tape ⟨least, most⟩
    refine Returns.bind (returns_randomRangeNat .u64 (le_max_right _ _) tape)
      (fun amount tape _ => ?_)
    have early := fundable.early
    have late := fundable.late
    have inRange := span.least
    have alsoInRange := span.most
    refine returns_bind.mpr (returns_checked.mpr
      ⟨_, checkedI64_eq_some.mpr ⟨⟨by omega, by omega⟩, rfl⟩, returns_pure.mpr ⟨?_, ?_⟩⟩)
    · rw [List.length_append, List.length_singleton]
      omega
    · intro event member
      rcases List.mem_append.mp member with old | new
      · exact timely event old
      · rw [List.mem_singleton.mp new]
        exact ⟨by dsimp only; omega, by dsimp only; omega⟩

/-- The funding pass returns, with at most one transfer per record and all in the span. -/
theorem fundingEvents_returns {records : List TxRecord} {span : Span}
    (lead : 0 ≤ fcfg.leadMinSecs) (fundable : ∀ r ∈ records, Fundable fcfg hubs span r)
    (before : Tape Generator) :
    Returns (fundingEvents fcfg hubs records) before
      (fun events _ => events.length ≤ records.length ∧ ∀ event ∈ events, span.Holds event) := by
  rw [fundingEvents_eq]
  obtain ⟨assigned, tape, ran⟩ := assignFunders_total fcfg hubs before
  obtain ⟨ids, _, wallets, _, _, pool, known⟩ := assignFunders_yields fcfg hubs _ _ _ ran
  refine returns_bind.mpr ⟨assigned, tape, ran, ?_⟩
  have some_relayer (perEvent : fcfg.perEventRelayer = true) : assigned.1 ≠ [] := by
    unfold FundingConfig.perEventRelayer at perEvent
    cases policy : fcfg.policy with
    | operatorHub =>
      rw [policy] at perEvent
      cases perEvent
    | dedicatedFunder =>
      rw [policy] at perEvent
      cases perEvent
    | sharedRelayers k =>
      rw [← List.length_pos_iff, pool k policy]
      exact lt_of_lt_of_le Nat.zero_lt_one (le_max_right _ _)
  have pass : Returns (records.foldlM (fundRecord fcfg (records.map (·.source)).toFinset assigned.1
      assigned.2) ⟨∅, []⟩) tape (fun state _ => Funded span records.length 0 state) := by
    refine returns_foldlM_paying (Funded span records.length) 1
      (fun left state funded r member tape => ?_)
      ⟨by simp, fun event member => absurd member List.not_mem_nil⟩ tape
    exact fundRecord_returns lead some_relayer known (fundable r member) _ funded tape
  refine Returns.bind pass (fun state tape few => returns_pure.mpr few)

end Funding

/-- Transfers are numbered while the counters have room for them. -/
theorem appendEvents_returns {sig slot : Nat} {events : List TxRecord}
    (sigs : sig + events.length ≤ u64Max) (slots : slot + events.length ≤ u64Max) :
    ∃ suffix, appendEvents sig slot events = some suffix ∧ suffix.length = events.length := by
  induction events generalizing sig slot with
  | nil => exact ⟨[], rfl, rfl⟩
  | cons event rest inductionHypothesis =>
    rw [List.length_cons] at sigs slots
    have later : ∃ suffix, appendEvents (sig + 1) (slot + 1) rest = some suffix ∧
        suffix.length = rest.length := inductionHypothesis (by omega) (by omega)
    obtain ⟨suffix, appended, length⟩ := later
    unfold appendEvents
    rw [checkedU64_eq_some.mpr ⟨by omega, rfl⟩, checkedU64_eq_some.mpr ⟨by omega, rfl⟩]
    simp only [Option.bind_eq_bind, Option.bind_some, appended]
    exact ⟨_, rfl, congrArg Nat.succ length⟩

/-! ### The simulation -/

/-- The records there can be with their funding. -/
def Bounds.total (bounds : Bounds) (cfg : SimConfig) : Nat :=
  if cfg.funding.isSome then 2 * bounds.ledger cfg else bounds.ledger cfg

/-- The capacity of a fleet: the clock has room for the gaps of all records, the counters for their
numbers and those of the events, and a transfer that funds a first record is not too early. -/
structure Capacity [Libm] (Generator : Type) [Rng Generator] (bounds : Bounds)
    (personas : List Persona) (cfg : SimConfig) : Prop where
  provided : Provided Generator bounds personas cfg
  clock : cfg.startTs + cfg.durationSecs + bounds.ledger cfg * bounds.gap < i64Max
  counters : bounds.total cfg ≤ u64Max
  events : bounds.wakes cfg ≤ u64Max
  leads : ∀ fcfg, cfg.funding = some fcfg → 0 ≤ fcfg.leadMinSecs ∧
    i64Min ≤ cfg.startTs - max fcfg.leadMaxSecs fcfg.leadMinSecs

/-- When a run within a capacity is over at the latest. -/
def Bounds.latest (bounds : Bounds) (cfg : SimConfig) : Int :=
  cfg.startTs + cfg.durationSecs + bounds.ledger cfg * bounds.gap

/-- When the first transfer of a run can be. -/
def SimConfig.earliest (cfg : SimConfig) : Int :=
  match cfg.funding with
  | none => cfg.startTs
  | some fcfg => cfg.startTs - max fcfg.leadMaxSecs fcfg.leadMinSecs

/-- The records of a ledger are within a capacity: their number, their times and their slots. -/
structure Ledger.Capped (bounds : Bounds) (cfg : SimConfig) (ledger : Ledger) : Prop where
  count : ledger.records.length ≤ bounds.total cfg
  times : ∀ r ∈ ledger.records, cfg.earliest ≤ r.ts ∧ r.ts ≤ bounds.latest cfg
  slots : ∀ r ∈ ledger.records, r.slot ≤ bounds.total cfg

section Simulation

variable {Generator : Type} [Rng Generator] [Libm] {bounds : Bounds} {personas : List Persona}
  {cfg : SimConfig}

omit [Rng Generator] [Libm] in
theorem ledger_le_total : bounds.ledger cfg ≤ bounds.total cfg := by
  unfold Bounds.total
  split <;> omega

/-- The budget of a built run is within the wakes there can be. -/
theorem eventBudget_le (bounded : LogBounded) (provided : Provided Generator bounds personas cfg)
    {built : RunState Generator} {first : List AccountId}
    (building : buildDrawing personas cfg = some (built, first)) :
    budget built.finish built.heap ≤ bounds.wakes cfg := by
  obtain ⟨few, _, entered⟩ :=
    buildDrawing_entered bounded provided.moderately provided.accounts building
  have finish : built.finish = cfg.startTs + cfg.durationSecs :=
    (buildFresh_finish (buildFresh_of_drawing building)).1
  rw [budget_eq_eventBudget (buildDrawing_heap building)]
  unfold eventBudget Bounds.wakes
  calc (built.sched.map fun entry => (built.finish - entry.nextAt + 1).toNat).sum
      ≤ (built.sched.map fun _ => cfg.durationSecs.toNat).sum := by
        refine List.sum_le_sum (fun entry member => ?_)
        have later := (entered entry member).later
        rw [finish]
        omega
    _ = built.sched.length * cfg.durationSecs.toNat := by
        rw [List.map_const', List.sum_replicate, smul_eq_mul]
    _ ≤ cfg.numAgents * bounds.accounts * cfg.durationSecs.toNat := Nat.mul_le_mul_right _ few

/-- A run within its capacity ends, with no more records than it has room for. -/
theorem finalState_endures (bounded : LogBounded)
    (capacity : Capacity Generator bounds personas cfg) (nonempty : personas ≠ [])
    (start : cfg.startTs = 1700000000) (lasting : 0 ≤ cfg.durationSecs) {fuel : Nat}
    (enough : bounds.wakes cfg < fuel) :
    ∃ (built final : RunState Generator) (first ids : List AccountId),
      finalState fuel personas cfg = Outcome.returned final ∧
      ReachedBy personas cfg built final first ids ∧
      final.chain.clock ≤ bounds.latest cfg ∧
      final.chain.ledger.records.length ≤ bounds.ledger cfg := by
  have provided := capacity.provided
  have clock := capacity.clock
  have gaps : (0 : Int) ≤ bounds.ledger cfg * bounds.gap := by positivity
  have built : ∃ built : RunState Generator, buildFresh personas cfg = some built ∧
      exactBuildFresh personas cfg = some built :=
    buildFresh_exact bounded provided.moderately nonempty start lasting (by omega)
  obtain ⟨built, building, _⟩ := built
  obtain ⟨finish, _⟩ := buildFresh_finish building
  obtain ⟨⟨other, first⟩, drawing, same⟩ := Option.map_eq_some_iff.mp building
  obtain rfl : built = other := same.symm
  have within := eventBudget_le bounded provided drawing
  let limits : Limits := {
    finish := built.finish
    gap := bounds.gap
    latest := bounds.latest cfg
    records := bounds.ledger cfg
    forward := Int.natCast_nonneg bounds.gap
    horizon := clock.le
    counters := ledger_le_total.trans capacity.counters }
  have fits : limits.Fits bounds built := ⟨rfl, rfl, by rw [finish]; omega⟩
  have fresh := buildDrawing_fresh drawing
  have supply : Allowance limits (bounds.ledger cfg) (bounds.ledger cfg) built.chain := by
    rw [fresh.chain]
    refine ⟨?_, ?_, ?_, rfl, rfl⟩
    · show i64Min ≤ cfg.startTs
      rw [start]
      decide
    · show max cfg.startTs built.finish + bounds.ledger cfg * bounds.gap ≤ bounds.latest cfg
      unfold Bounds.latest
      omega
    · exact (Nat.zero_add _).le
  have recordsLe : budget built.finish built.heap * bounds.records ≤ bounds.ledger cfg :=
    Nat.mul_le_mul_right _ within
  have endures : Endures limits bounds personas cfg built first first built := by
    refine ⟨reachedBy_built drawing, supply.mono recordsLe recordsLe, ?_⟩
    rw [fresh.events, Nat.zero_add]
    exact within.trans capacity.events
  obtain ⟨final, ids, ran, ended⟩ := endures.runs bounded provided fits (within.trans_lt enough)
  refine ⟨built, final, first, ids, ?_, ended.reached, ?_, ?_⟩
  · unfold finalState
    rw [building]
    dsimp only
    rw [Id.run, ran]
  · have room := ended.allowance.clock
    have rest : (0 : Int) ≤ ((budget built.finish final.heap * bounds.records : Nat) : Int) *
        limits.gap := mul_nonneg (Int.natCast_nonneg _) limits.forward
    show final.chain.clock ≤ limits.latest
    omega
  · exact (Nat.le_add_right _ _).trans ended.allowance.count

/-- What a run within its capacity records is. -/
theorem capped_of_reached (capacity : Capacity Generator bounds personas cfg)
    {built final : RunState Generator} {first ids : List AccountId}
    (reached : ReachedBy personas cfg built final first ids)
    (inRange : final.chain.clock ≤ bounds.latest cfg)
    (few : final.chain.ledger.records.length ≤ bounds.ledger cfg) :
    final.chain.ledger.Capped bounds cfg := by
  have earliest : cfg.earliest ≤ cfg.startTs := by
    unfold SimConfig.earliest
    split
    · exact le_refl _
    · rename_i fcfg funding
      have lead := (capacity.leads fcfg funding).1
      omega
  refine ⟨few.trans ledger_le_total, fun r member => ⟨?_, ?_⟩, fun r member => ?_⟩
  · exact earliest.trans (reached.labelled.records r member).1
  · exact (reached.ordered.timed.bounded r member).trans inRange
  · obtain ⟨index, found⟩ := List.mem_iff_getElem?.mp member
    obtain ⟨_, slot⟩ := reached.ordered.numbered.record index r found
    have inside := (List.getElem?_eq_some_iff.mp found).1
    have total : bounds.ledger cfg ≤ bounds.total cfg := ledger_le_total
    omega

/-- The funding pass over a ledger within the capacity returns one within it. -/
theorem finalizeFunding_returns (capacity : Capacity Generator bounds personas cfg)
    (start : cfg.startTs = 1700000000) {built final : RunState Generator}
    {first ids : List AccountId} (reached : ReachedBy personas cfg built final first ids)
    (inRange : final.chain.clock ≤ bounds.latest cfg)
    (few : final.chain.ledger.records.length ≤ bounds.ledger cfg) :
    ∃ ledger, finalizeFunding final cfg = some ledger ∧ ledger.Capped bounds cfg := by
  have counters := capacity.counters
  have capped := capped_of_reached capacity reached inRange few
  unfold finalizeFunding
  cases funding : cfg.funding with
  | none => exact ⟨_, rfl, capped⟩
  | some fcfg =>
    have total : bounds.total cfg = 2 * bounds.ledger cfg := by
      unfold Bounds.total
      rw [funding]
      rfl
    have earliest : cfg.earliest = cfg.startTs - max fcfg.leadMaxSecs fcfg.leadMinSecs := by
      unfold SimConfig.earliest
      rw [funding]
    dsimp only
    unfold applyFunding
    rw [funding]
    dsimp only
    split
    · exact ⟨_, rfl, capped⟩
    obtain ⟨lead, begins⟩ := capacity.leads fcfg funding
    have labelled := reached.labelled
    have ordered := reached.ordered
    let span : Span := ⟨cfg.earliest, bounds.latest cfg, by rw [earliest]; exact begins,
      capacity.clock.le⟩
    have fundable : ∀ r ∈ final.chain.ledger.records,
        Fundable fcfg (hubsOf final.agents) span r := by
      intro r member
      obtain ⟨later, id, inside, operator⟩ := labelled.records r member
      refine ⟨fun op same => ?_, ?_, (capped.times r member).2⟩
      · obtain rfl := Option.some.inj (operator.symm.trans same)
        have found : final.agents[id]? = some _ := List.getElem?_eq_getElem inside
        rw [mem_hubsOf]
        exact List.mem_map.mpr ⟨_, List.mem_of_getElem? found, labelled.ids id _ found⟩
      · show cfg.earliest ≤ _
        rw [earliest]
        omega
    obtain ⟨events, tape, paid, fewer, timely⟩ := fundingEvents_returns lead fundable
      ⟨(Rng.seedFromU64 (deriveFundingSeed cfg) : Generator), []⟩
    have sorted : (events.insertionSort fundedBefore).length = events.length :=
      List.length_insertionSort _ _
    have sigs : (final.chain.ledger.records.map (·.sig)).foldl max 0 =
        final.chain.ledger.records.length :=
      foldl_max_numbered
        (fun index record found => (ordered.numbered.record index record found).1)
    have slots : (final.chain.ledger.records.map (·.slot)).foldl max 0 =
        final.chain.ledger.records.length :=
      foldl_max_numbered
        (fun index record found => (ordered.numbered.record index record found).2)
    have room : ∃ suffix, appendEvents
        ((final.chain.ledger.records.map (·.sig)).foldl max 0)
        ((final.chain.ledger.records.map (·.slot)).foldl max 0)
        (events.insertionSort fundedBefore) = some suffix ∧
          suffix.length = (events.insertionSort fundedBefore).length := by
      rw [sigs, slots]
      exact appendEvents_returns (by omega) (by omega)
    obtain ⟨suffix, appended, length⟩ := room
    simp only [paid, appended, Option.bind_eq_bind, Option.bind_some]
    obtain ⟨unnumbered, numbered⟩ := appendEvents_spec appended
    rw [slots] at numbered
    refine ⟨_, rfl, ?_, fun r member => ?_, fun r member => ?_⟩
    · rw [List.length_append]
      omega
    · rcases List.mem_append.mp member with base | added
      · exact capped.times r base
      · -- A number changes no time.
        have still : r.unnumbered ∈ suffix.map TxRecord.unnumbered := List.mem_map_of_mem added
        rw [unnumbered] at still
        obtain ⟨event, inside, same⟩ := List.mem_map.mp still
        have times := congrArg TxRecord.ts same
        rw [show r.ts = event.ts from times.symm]
        exact timely event ((List.mem_insertionSort fundedBefore).mp inside)
    · rcases List.mem_append.mp member with base | added
      · exact capped.slots r base
      · obtain ⟨index, found⟩ := List.mem_iff_getElem?.mp added
        obtain ⟨_, slot, _⟩ := numbered index r found
        have inside := (List.getElem?_eq_some_iff.mp found).1
        omega

/-- A fleet that the command line accepts is simulated to the end, within its capacity. -/
theorem simulate_capped (bounded : LogBounded) {agents : Nat} {days : Int} {seed external : Nat}
    {base : SimConfig} (accepted : baseCfg agents days seed external = .ok base)
    (configured : ∃ mode hardenTiming hardening funding, cfg = { base with
      mode := mode
      hardenTiming := hardenTiming
      hardening := hardening
      funding := funding })
    (nonempty : personas ≠ []) (capacity : Capacity Generator bounds personas cfg) {fuel : Nat}
    (enough : bounds.wakes cfg < fuel) :
    ∃ ledger, simulate Generator fuel personas cfg = .returned ledger ∧
      ledger.Capped bounds cfg := by
  obtain ⟨mode, hardenTiming, hardening, funding, same⟩ := configured
  obtain ⟨start, lasts, positive, _⟩ := baseCfg_eq_ok accepted
  have start : cfg.startTs = 1700000000 := by
    rw [same]
    exact start
  have lasting : 0 ≤ cfg.durationSecs := by
    rw [same]
    show 0 ≤ base.durationSecs
    omega
  obtain ⟨built, final, first, ids, ended, reached, inRange, few⟩ :=
    finalState_endures bounded capacity nonempty start lasting enough
  obtain ⟨ledger, funded, capped⟩ :=
    finalizeFunding_returns capacity start reached inRange few
  refine ⟨ledger, ?_, capped⟩
  unfold simulate
  rw [ended]
  dsimp only
  rw [funded]

/-- A fleet that the command line accepts is simulated to the end, whatever is drawn, when its
personas and its configuration stay within a capacity: no wake of any engine panics, neither does
the funding pass, and the ledger is no longer than the capacity. -/
theorem simulate_returns (bounded : LogBounded) {agents : Nat} {days : Int} {seed external : Nat}
    {base : SimConfig} (accepted : baseCfg agents days seed external = .ok base)
    (configured : ∃ mode hardenTiming hardening funding, cfg = { base with
      mode := mode
      hardenTiming := hardenTiming
      hardening := hardening
      funding := funding })
    (nonempty : personas ≠ []) (capacity : Capacity Generator bounds personas cfg) (fuel : Nat)
    (enough : bounds.wakes cfg < fuel) :
    ∃ ledger, simulate Generator fuel personas cfg = .returned ledger ∧
      ledger.records.length ≤ bounds.total cfg := by
  obtain ⟨ledger, simulated, capped⟩ :=
    simulate_capped bounded accepted configured nonempty capacity enough
  exact ⟨ledger, simulated, capped.count⟩

end Simulation

/-- The bounds of a retail user: four sub-accounts, four parts and sixty-four decoys in a wake. -/
def retailBounds : Bounds := ⟨4, 68, 97, 2000000⟩

theorem retail_measured : @Persona.Measured Counter _ steppedLibm 2000000 Persona.retail := by
  refine @Persona.Measured.mk Counter _ steppedLibm _ _ (by decide)
    (SplitPolicy.validate_eq_ok.mp rfl) ?_ (by decide) (fun amount small n allowed =>
      SplitPolicy.sharesWithin_of_small (Or.inr ?_))
  · have value : F64.toU64 (F64.max (F64.round 2000000.0) 1.0) = 2000000 := by decide +kernel
    refine (Silent.map (yields_sample _)).mono ?_
    rintro amount ⟨drawn, ⟨generator, rfl⟩, rfl⟩
    exact value.le
  · have few : n ≤ 4 := allowed.2.trans (min_le_left _ _)
    have floor : Persona.retail.split.minPartLamports = 50000 := rfl
    rw [floor]
    calc (amount - 50000 * n + 1) * (n + 1) ≤ 2000001 * 5 := Nat.mul_le_mul (by omega) (by omega)
      _ < 2 ^ 53 := by decide

/-- Gaps around seven seconds are not longer than ninety-seven. -/
theorem gapOf_stepped {cfg : SimConfig} (mean : cfg.hardening.intraGapMeanSecs = 7.0)
    (unit : Float) : @gapOf steppedLibm cfg unit ≤ 97 := by
  have gaps : F64.toI64 (F64.max (-(-1.3862943611198906) * F64.max 7.0 1.0) 1.0) ≤ 97 ∧
      F64.toI64 (F64.max (-(-4.852030263919617) * F64.max 7.0 1.0) 1.0) ≤ 97 ∧
      F64.toI64 (F64.max (-(-13.815510557964274) * F64.max 7.0 1.0) 1.0) ≤ 97 ∧
      F64.toI64 (F64.max (-(-0.6931471805599453) * F64.max 7.0 1.0) 1.0) ≤ 97 ∧
      F64.toI64 (F64.max (-(0.6931471805599453) * F64.max 7.0 1.0) 1.0) ≤ 97 := by
    decide +kernel
  unfold gapOf
  rw [mean]
  unfold Libm.ln steppedLibm
  dsimp only
  split
  · exact gaps.1
  · split
    · exact gaps.2.1
    · split
      · exact gaps.2.2.1
      · split
        · exact gaps.2.2.2.1
        · exact gaps.2.2.2.2

/-- Two retail users for a day, funded from their hubs. -/
def oneDay : SimConfig :=
  { SimConfig.default with
    numAgents := 2
    durationSecs := 86400
    numExternal := 2
    funding := some (FundingConfig.new .operatorHub) }

theorem oneDay_capacity :
    @Capacity steppedLibm Counter _ retailBounds [Persona.retail] oneDay := by
  have moderately : Moderately Persona.retail :=
    (Persona.accepted_of_validate (by decide +kernel)).moderately (by decide)
  have provided : @Provided steppedLibm Counter _ retailBounds [Persona.retail] oneDay := by
    refine @Provided.mk steppedLibm Counter _ _ _ _ ?_ ?_ ?_ ?_ ?_ ?_
    · exact fun persona member => List.mem_singleton.mp member ▸ moderately
    · exact fun persona member => List.mem_singleton.mp member ▸ by decide
    · exact fun persona member => List.mem_singleton.mp member ▸ by decide
    · exact fun _ persona member => List.mem_singleton.mp member ▸ retail_measured
    · exact fun sweeps => by cases sweeps
    · exact fun _ unit _ _ => gapOf_stepped rfl unit
  refine @Capacity.mk steppedLibm Counter _ _ _ _ provided (by decide) (by decide) (by decide) ?_
  rintro fcfg same
  obtain rfl := Option.some.inj same
  decide

/-- The day of the two retail users is simulated to the end. -/
theorem simulate_returns_oneDay : ∃ ledger,
    @simulate steppedLibm Counter _ 691201 [Persona.retail] oneDay = .returned ledger ∧
      ledger.records.length ≤ 94003200 :=
  @simulate_returns Counter _ steppedLibm retailBounds [Persona.retail] oneDay steppedLibm_bounded
    2 1 1 2 _ rfl ⟨.cooker, true, .default, some (FundingConfig.new .operatorHub), rfl⟩ (by simp)
    oneDay_capacity 691201 (by decide)

end AccountCooker
