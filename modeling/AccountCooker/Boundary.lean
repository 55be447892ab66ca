/-
This file defines the reachable boundaries of a run and how to prove something
of all of them. A boundary is the freshly built state, the state after an event
at which the loop did not end, or a state restored from the checkpoint of a
boundary. Restoring changes nothing, so every boundary is reached by events.

An event shows on the agents, the chain and the identifiers drawn as steps: the
clock is set to the time of the wake, and then an agent moves. A property of
these three that holds of the built run and survives every step holds at every
boundary.
-/

import Mathlib
import AccountCooker.Emission
import AccountCooker.Checkpoint

namespace AccountCooker

open Draw

/-! ### Steps on the view of a run -/

/-- What the invariants of a run are about. -/
structure View where
  agents : List Agent
  chain : MockChain
  drawn : List AccountId

/-- The clock is set forward, or one agent writes a record. -/
inductive Step (cfg : SimConfig) (externals : List AccountId) : View → View → Prop
  | tick (agents : List Agent) (chain : MockChain) (drawn : List AccountId) (ts : Int)
    (later : chain.clock ≤ ts) :
    Step cfg externals ⟨agents, chain, drawn⟩ ⟨agents, chain.setTime ts, drawn⟩
  | act (agents : List Agent) (chain : MockChain) (drawn : List AccountId) (index : Nat)
    (agent : Agent) (next : Acting) (found : agents[index]? = some agent)
    (move : Move cfg externals ⟨chain, agent, drawn⟩ next) :
    Step cfg externals ⟨agents, chain, drawn⟩
      ⟨agents.set index next.agent, next.chain, next.drawn⟩

abbrev Steps (cfg : SimConfig) (externals : List AccountId) :=
  Relation.ReflTransGen (Step cfg externals)

/-- The moves of one agent are steps of the view. -/
theorem steps_of_moves {cfg : SimConfig} {externals : List AccountId} {agents : List Agent}
    {chain : MockChain} {drawn : List AccountId} {index : Nat} {agent : Agent} {last : Acting}
    (found : agents[index]? = some agent)
    (moves : Moves cfg externals ⟨chain, agent, drawn⟩ last) :
    Steps cfg externals ⟨agents, chain, drawn⟩
      ⟨agents.set index last.agent, last.chain, last.drawn⟩ := by
  induction moves with
  | refl =>
    obtain ⟨bound, rfl⟩ := List.getElem?_eq_some_iff.mp found
    rw [List.set_getElem_self]
  | @tail middle last _ move inductionHypothesis =>
    refine inductionHypothesis.tail ?_
    have here : (agents.set index middle.agent)[index]? = some middle.agent :=
      List.getElem?_set_self (List.getElem?_eq_some_iff.mp found).1
    have step := Step.act (agents.set index middle.agent) middle.chain middle.drawn index
      middle.agent last here move
    rwa [List.set_set] at step

/-- The identifiers drawn before play no part in a move. -/
theorem moves_shift {cfg : SimConfig} {externals : List AccountId} {before after : Acting}
    (moves : Moves cfg externals before after) (earlier : List AccountId) :
    Moves cfg externals { before with drawn := earlier ++ before.drawn }
      { after with drawn := earlier ++ after.drawn } := by
  induction moves with
  | refl => exact Relation.ReflTransGen.refl
  | tail _ move inductionHypothesis =>
    refine inductionHypothesis.tail ?_
    cases move with
    | mk chain agent drawn ts tx feePayer after ids recorded timely emission appended =>
      have shifted : Move cfg externals ⟨chain, agent, earlier ++ drawn⟩
          ⟨recorded, after, earlier ++ drawn ++ ids⟩ :=
        Move.mk chain agent (earlier ++ drawn) ts tx feePayer after ids recorded timely emission
          appended
      rwa [List.append_assoc] at shifted

/-! ### What a run never changes -/

theorem SameAgent.refl (agent : Agent) : SameAgent agent agent := ⟨rfl, rfl, rfl, rfl⟩

theorem SameAgent.trans {first second third : Agent} (before : SameAgent first second)
    (after : SameAgent second third) : SameAgent first third :=
  ⟨after.id.trans before.id, after.persona.trans before.persona,
    after.subSched.trans before.subSched, after.count.trans before.count⟩

/-- A move changes at most the accounts of its agent. -/
theorem move_same {cfg : SimConfig} {externals : List AccountId} {before after : Acting}
    (move : Move cfg externals before after) : SameAgent before.agent after.agent := by
  cases move with
  | mk chain agent drawn ts tx feePayer after ids recorded timely emission appended =>
    cases emission with
    | rotate => exact ⟨rfl, rfl, rfl, List.length_set⟩
    | _ => exact ⟨rfl, rfl, rfl, rfl⟩

theorem moves_same {cfg : SimConfig} {externals : List AccountId} {before after : Acting}
    (moves : Moves cfg externals before after) : SameAgent before.agent after.agent := by
  induction moves with
  | refl => exact SameAgent.refl _
  | tail _ move inductionHypothesis => exact inductionHypothesis.trans (move_same move)

/-- Replacing an agent by one with the same fixed parts keeps the fixed parts of all. -/
theorem forall₂_same_set {built agents : List Agent} {index : Nat} {agent next : Agent}
    (same : List.Forall₂ SameAgent built agents) (found : agents[index]? = some agent)
    (kept : SameAgent agent next) : List.Forall₂ SameAgent built (agents.set index next) := by
  induction same generalizing index with
  | nil => exact absurd found (by simp)
  | @cons first second rest others here later inductionHypothesis =>
    cases index with
    | zero =>
      obtain rfl := Option.some.inj found
      exact List.Forall₂.cons (here.trans kept) later
    | succ index => exact List.Forall₂.cons here (inductionHypothesis found)

/-! ### Events -/

section Events

variable {Generator : Type} [Rng Generator]

/-- The view of a state, under the identifiers drawn so far. -/
def RunState.view (st : RunState Generator) (drawn : List AccountId) : View :=
  ⟨st.agents, st.chain, drawn⟩

/-- The schedule has one entry per agent, or in the hardened engine one per sub-account. -/
def EngineSchedule (st : RunState Generator) : Prop :=
  ∀ entry ∈ st.sched, entry.subIdx.isSome = st.cfg.hardened

variable [Libm]

/-- A wake is a sequence of moves of its agent. -/
theorem wake_moves {cfg : SimConfig} {externals : List AccountId} {agent : Agent}
    {chain : MockChain} {subIdx : Option Nat} (best : Int)
    (engine : subIdx.isSome = cfg.hardened) :
    Yields (wake cfg externals best chain agent subIdx : Draw Generator Woken)
      (fun ids woken =>
        Moves cfg externals ⟨chain, agent, []⟩ ⟨woken.chain, woken.agent, ids⟩) := by
  have start : Moves cfg externals ⟨chain, agent, []⟩ ⟨chain, agent, []⟩ :=
    Relation.ReflTransGen.refl
  cases subIdx with
  | none =>
    refine yields_bind (performAction_moves engine.symm start)
      (fun ids acted holds => ?_)
    refine Silent.bind (nextDelaySecs_silent _ _) (fun delay _ => ?_)
    refine Yields.mono (yields_pure _) ?_
    rintro _ woken ⟨rfl, rfl⟩
    rwa [List.append_nil]
  | some k =>
    refine yields_bind (performActionHardened_moves k engine.symm start)
      (fun ids acted holds => ?_)
    refine Silent.bind (yields_checked _) (fun sub _ => ?_)
    refine Silent.bind (nextDelaySecs_silent _ _) (fun delay _ => ?_)
    refine Silent.bind (yields_checked _) (fun held _ => ?_)
    refine Yields.mono (yields_pure _) ?_
    rintro _ woken ⟨rfl, rfl⟩
    rwa [List.append_nil]

/-- Everything an event does to a state, and the identifiers it draws. -/
structure Served (st next : RunState Generator) (ids : List AccountId) (due : Due)
    (rest : List Due) : Prop where
  heap : st.heap = due :: rest
  externals : next.externals = st.externals
  sched : next.sched = st.sched
  cfg : next.cfg = st.cfg
  finish : next.finish = st.finish
  events : next.events = st.events + 1
  acted : ∃ (entry : Sched) (agent : Agent) (woken : Woken),
    st.sched[due.2]? = some entry ∧ st.agents[entry.agentIdx]? = some agent ∧
      wake st.cfg st.externals due.1 (st.chain.setTime (max due.1 st.chain.now)) agent
        entry.subIdx ⟨st.rng, []⟩ = some (woken, ⟨next.rng, ids⟩) ∧
      next.agents = st.agents.set entry.agentIdx woken.agent ∧ next.chain = woken.chain ∧
      next.heap = push rest (woken.nextAt, due.2)

theorem serve_served {st next : RunState Generator} {ids : List AccountId}
    (served : st.serve = some (next, ids)) : ∃ due rest, Served st next ids due rest := by
  unfold RunState.serve at served
  split at served
  · exact absurd served (by simp)
  · rename_i best si rest heap
    simp only [Option.bind_eq_bind, Option.bind_eq_some_iff] at served
    obtain ⟨entry, atEntry, agent, atAgent, ⟨woken, tape⟩, woke, events, counted, equal⟩ := served
    obtain ⟨rfl, rfl⟩ := Prod.mk.inj (Option.some.inj equal)
    exact ⟨(best, si), rest, heap, rfl, rfl, rfl, rfl, (checkedU64_eq_some.mp counted).2.symm,
      entry, agent, woken, atEntry, atAgent, woke, rfl, rfl, rfl⟩

/-- The moves of an event, from the chain as its wake finds it. -/
theorem served_moves {st next : RunState Generator} {ids : List AccountId}
    (engine : EngineSchedule st) (served : st.serve = some (next, ids)) :
    ∃ due rest index agent after nextAt, st.heap = due :: rest ∧ st.agents[index]? = some agent ∧
      Moves st.cfg st.externals ⟨st.chain.setTime (max due.1 st.chain.now), agent, []⟩
        ⟨next.chain, after, ids⟩ ∧
      next.agents = st.agents.set index after ∧ next.heap = push rest (nextAt, due.2) := by
  obtain ⟨due, rest, facts⟩ := serve_served served
  obtain ⟨entry, agent, woken, atEntry, atAgent, woke, agents, chain, heap⟩ := facts.acted
  obtain ⟨more, drawn, moves⟩ := wake_moves due.1 (engine entry (List.mem_of_getElem? atEntry))
    _ _ _ woke
  obtain rfl : ids = more := drawn
  rw [← chain] at moves
  exact ⟨due, rest, entry.agentIdx, agent, woken.agent, woken.nextAt, facts.heap, atAgent, moves,
    agents, heap⟩

/-- An event is a sequence of steps, which draw what it draws. -/
theorem serve_steps {st next : RunState Generator} {ids : List AccountId}
    (engine : EngineSchedule st) (served : st.serve = some (next, ids)) (drawn : List AccountId) :
    Steps st.cfg st.externals (st.view drawn) (next.view (drawn ++ ids)) := by
  obtain ⟨due, rest, index, agent, after, nextAt, _, found, moves, agents, _⟩ :=
    served_moves engine served
  have tick : Step st.cfg st.externals ⟨st.agents, st.chain, drawn⟩
      ⟨st.agents, st.chain.setTime (max due.1 st.chain.now), drawn⟩ :=
    Step.tick st.agents st.chain drawn (max due.1 st.chain.now) (le_max_right _ _)
  have acts := steps_of_moves found (moves_shift moves drawn)
  unfold RunState.view
  rw [agents]
  rw [List.append_nil] at acts
  exact Relation.ReflTransGen.head tick acts

/-- An event keeps what the run was built with. -/
theorem serve_same {built st next : RunState Generator} {ids : List AccountId}
    (same : SameRun built st) (engine : EngineSchedule st)
    (served : st.serve = some (next, ids)) : SameRun built next := by
  obtain ⟨_, _, facts⟩ := serve_served served
  obtain ⟨due, rest, index, agent, after, nextAt, popped, found, moves, agents, heap⟩ :=
    served_moves engine served
  refine ⟨?_, facts.externals.trans same.externals, facts.sched.trans same.sched,
    facts.cfg.trans same.cfg, facts.finish.trans same.finish, ?_⟩
  · rw [agents]
    exact forall₂_same_set same.agents found (moves_same moves)
  · have full := same.heap
    rw [popped] at full
    rw [heap, facts.sched]
    exact full.push_again nextAt

/-- An event leaves the schedule and the engine. -/
theorem EngineSchedule.serve {st next : RunState Generator} {ids : List AccountId}
    (engine : EngineSchedule st) (served : st.serve = some (next, ids)) : EngineSchedule next := by
  obtain ⟨due, rest, facts⟩ := serve_served served
  intro entry member
  rw [facts.sched] at member
  rw [facts.cfg]
  exact engine entry member

end Events

/-! ### The built run -/

section Building

variable {Generator : Type} [Rng Generator]

theorem freshAccounts_yields (count : Nat) :
    Yields (freshAccounts count : Draw Generator (List AccountId))
      (fun ids accounts => ids = accounts ∧ accounts.length = count) := by
  have collected (rounds : List Nat) :
      Yields (rounds.mapM (fun _ => randomAccount) : Draw Generator (List AccountId))
        (fun ids accounts => ids = accounts ∧ accounts.length = rounds.length) := by
    induction rounds with
    | nil =>
      refine Yields.mono (yields_pure _) ?_
      rintro _ accounts ⟨rfl, rfl⟩
      exact ⟨rfl, rfl⟩
    | cons round rest inductionHypothesis =>
      rw [List.mapM_cons]
      refine yields_bind yields_randomAccount ?_
      rintro _ account rfl
      refine yields_bind inductionHypothesis ?_
      rintro ids accounts ⟨rfl, length⟩
      refine Yields.mono (yields_pure _) ?_
      rintro _ all ⟨rfl, rfl⟩
      exact ⟨by rw [List.append_nil]; rfl, congrArg (· + 1) length⟩
  refine (collected (List.range count)).mono (fun ids accounts both => ?_)
  rw [List.length_range] at both
  exact both

/-- A built agent has its position as its number and its first account as its main one. -/
structure BuiltAgent (index : Nat) (agent : Agent) : Prop where
  id : agent.id = index
  main : agent.subaccounts[0]? = some agent.main

/-- The agents and the schedule built so far, and the identifiers drawn for them. -/
structure BuiltSoFar (cfg : SimConfig) (count : Nat) (ids : List AccountId) (built : Built) :
    Prop where
  count : built.agents.length = count
  ids : ids = built.agents.flatMap (·.subaccounts)
  agents : ∀ index agent, built.agents[index]? = some agent → BuiltAgent index agent
  engine : ∀ entry ∈ built.sched, entry.subIdx.isSome = cfg.hardened

variable [Libm]

theorem scheduleAgent_silent (cfg : SimConfig) (persona : Persona) (agentIdx : Nat) :
    Silent (scheduleAgent cfg persona agentIdx : Draw Generator Sched)
      (fun entry => entry.subIdx = none) := by
  refine Silent.bind (nextDelaySecs_silent _ _) (fun delay _ => ?_)
  refine Silent.bind (yields_checked _) (fun nextAt _ => ?_)
  refine (yields_pure _).mono ?_
  rintro entry rfl
  rfl

theorem buildSchedule_silent (cfg : SimConfig) (persona : Persona) (n agentIdx : Nat) :
    Silent (buildSchedule cfg persona n agentIdx : Draw Generator (List SubSched × List Sched))
      (fun schedule => ∀ entry ∈ schedule.2, entry.subIdx.isSome = cfg.hardened) := by
  unfold buildSchedule
  split
  · rename_i hardened
    refine Yields.mono (yields_foldlM (fun ids (schedule : List SubSched × List Sched) =>
      ids = [] ∧ ∀ entry ∈ schedule.2, entry.subIdx.isSome = cfg.hardened) _ _ ?_ [] _ ⟨rfl, ?_⟩)
      (fun ids schedule both => both)
    · rintro ids schedule ⟨rfl, engine⟩ k _
      refine Silent.bind (yields_randomRange _ _ _) (fun phase _ => ?_)
      refine Silent.bind (yields_checked _) (fun shifted _ => ?_)
      refine Silent.bind (nextDelaySecs_silent _ _) (fun delay _ => ?_)
      refine Silent.bind (yields_checked _) (fun held _ => ?_)
      refine Silent.bind (yields_checked _) (fun nextAt _ => ?_)
      refine (yields_pure _).mono ?_
      rintro next rfl entry member
      rcases List.mem_append.mp member with old | new
      · exact engine entry old
      · rw [List.mem_singleton.mp new, hardened]
        rfl
    · exact fun entry member => absurd member List.not_mem_nil
  · rename_i unhardened
    refine Silent.mono (Silent.map (scheduleAgent_silent cfg persona agentIdx)) ?_
    rintro schedule ⟨entry, single, rfl⟩ other member
    rw [List.mem_singleton.mp member, single, Bool.eq_false_of_not_eq_true unhardened]
    rfl

theorem buildAgent_yields {personas : List Persona} {cfg : SimConfig} {count : Nat}
    {ids : List AccountId} {built : Built} (sofar : BuiltSoFar cfg count ids built) :
    Yields (buildAgent personas cfg built count : Draw Generator Built)
      (fun more next => BuiltSoFar cfg (count + 1) (ids ++ more) next) := by
  refine Silent.bind (yields_checked _) (fun persona _ => ?_)
  refine yields_bind (freshAccounts_yields _) ?_
  rintro _ subaccounts ⟨rfl, _⟩
  refine Silent.bind (yields_checked _) (fun main first => ?_)
  refine Silent.bind (buildSchedule_silent _ _ _ _) (fun schedule engine => ?_)
  refine Yields.mono (yields_pure _) ?_
  rintro _ next ⟨rfl, rfl⟩
  refine ⟨by rw [List.length_append, sofar.count]; rfl, ?_, fun index agent found => ?_,
    fun entry member => ?_⟩
  · rw [sofar.ids, List.append_nil, List.flatMap_append]
    simp
  · rcases lt_or_ge index built.agents.length with old | new
    · rw [List.getElem?_append_left old] at found
      exact sofar.agents index agent found
    · rw [List.getElem?_append_right new] at found
      obtain ⟨bound, equal⟩ := List.getElem?_eq_some_iff.mp found
      have last : index = count := by
        rw [List.length_singleton] at bound
        have := sofar.count
        omega
      simp only [List.getElem_singleton] at equal
      rw [← equal, last]
      exact ⟨rfl, first⟩
  · exact (List.mem_append.mp member).elim (sofar.engine entry) (engine entry)

/-- A freshly built run, and the identifiers drawn for it: first the externals, then the accounts
of one agent after the other. -/
structure Fresh (cfg : SimConfig) (ids : List AccountId) (st : RunState Generator) : Prop where
  config : st.cfg = cfg
  ids : ids = st.externals ++ st.agents.flatMap (·.subaccounts)
  agents : ∀ index agent, st.agents[index]? = some agent → BuiltAgent index agent
  engine : EngineSchedule st
  heap : HeapFull st.heap st.sched.length
  chain : st.chain = MockChain.new cfg.startTs
  events : st.events = 0

/-- What a built run holds: the accounts, agents and schedule drawn for it, before any event. -/
theorem buildDrawing_eq_some {personas : List Persona} {cfg : SimConfig}
    {st : RunState Generator} {ids : List AccountId} :
    buildDrawing personas cfg = some (st, ids) ↔
      personas ≠ [] ∧ ∃ externals built tape finish,
        buildRun personas cfg ⟨(Rng.seedFromU64 (deriveSeed cfg) : Generator), []⟩ =
            some ((externals, built), tape) ∧
          checkedI64 (cfg.startTs + cfg.durationSecs) = some finish ∧ ids = tape.drawn ∧
          st = {
            agents := built.agents
            externals := externals
            sched := built.sched
            cfg := cfg
            finish := finish
            rng := tape.generator
            heap := heapOf (built.sched.map (·.nextAt))
            chain := MockChain.new cfg.startTs
            events := 0 } := by
  unfold buildDrawing
  split
  · rename_i empty
    exact ⟨fun equal => absurd equal (by simp),
      fun both => absurd (List.isEmpty_iff.mp empty) both.1⟩
  · rename_i nonempty
    simp only [Option.bind_eq_bind, Option.bind_eq_some_iff]
    constructor
    · rintro ⟨⟨⟨externals, built⟩, tape⟩, drew, finish, computed, equal⟩
      obtain ⟨rfl, rfl⟩ := Prod.mk.inj (Option.some.inj equal)
      exact ⟨fun empty => nonempty (List.isEmpty_iff.mpr empty), externals, built, tape, finish,
        drew, computed, rfl, rfl⟩
    · rintro ⟨_, externals, built, tape, finish, drew, computed, rfl, rfl⟩
      exact ⟨((externals, built), tape), drew, finish, computed, rfl⟩

theorem buildFresh_of_drawing {personas : List Persona} {cfg : SimConfig}
    {st : RunState Generator} {ids : List AccountId}
    (built : buildDrawing personas cfg = some (st, ids)) : buildFresh personas cfg = some st := by
  unfold buildFresh
  rw [built]
  rfl

omit [Rng Generator] [Libm] in
/-- The same state of a run under another configuration. -/
def RunState.under (other : SimConfig) (st : RunState Generator) : RunState Generator :=
  { st with cfg := other }

/-- Configurations that draw alike while a run is built leave the same state, each its own. -/
theorem buildDrawing_under {personas : List Persona} {cfg other : SimConfig}
    (run : (buildRun personas other : Draw Generator (List AccountId × Built)) =
      buildRun personas cfg)
    (seed : deriveSeed other = deriveSeed cfg) (startTs : other.startTs = cfg.startTs)
    (durationSecs : other.durationSecs = cfg.durationSecs) :
    (buildDrawing personas other : Option (RunState Generator × List AccountId)) =
      (buildDrawing personas cfg).map (fun built => (built.1.under other, built.2)) := by
  unfold buildDrawing
  rw [run, seed, startTs, durationSecs]
  split
  · rfl
  · show Option.bind (buildRun personas cfg ⟨Rng.seedFromU64 (deriveSeed cfg), []⟩) _ =
      Option.map _ (Option.bind (buildRun personas cfg ⟨Rng.seedFromU64 (deriveSeed cfg), []⟩) _)
    rw [Option.map_bind]
    refine congrArg (Option.bind _) (funext fun drawn => ?_)
    obtain ⟨⟨externals, built⟩, tape⟩ := drawn
    show Option.bind (checkedI64 (cfg.startTs + cfg.durationSecs)) _ =
      Option.map _ (Option.bind (checkedI64 (cfg.startTs + cfg.durationSecs)) _)
    rw [Option.map_bind]
    rfl

theorem buildDrawing_fresh {personas : List Persona} {cfg : SimConfig}
    {st : RunState Generator} {ids : List AccountId}
    (built : buildDrawing personas cfg = some (st, ids)) : Fresh cfg ids st := by
  have run : Yields (buildRun personas cfg : Draw Generator (List AccountId × Built))
      (fun ids result => ∃ more, ids = result.1 ++ more ∧
        BuiltSoFar cfg cfg.numAgents more result.2) := by
    refine yields_bind (freshAccounts_yields _) ?_
    rintro _ externals ⟨rfl, _⟩
    refine yields_bind (yields_foldlM_range (fun count ids built => BuiltSoFar cfg count ids built)
      _ cfg.numAgents (fun round ids built sofar => buildAgent_yields sofar) ⟨[], []⟩ ?_)
      (fun more agents sofar => ?_)
    · exact ⟨rfl, rfl, fun index agent found => absurd found (by simp),
        fun entry member => absurd member List.not_mem_nil⟩
    · refine Yields.mono (yields_pure _) ?_
      rintro _ result ⟨rfl, rfl⟩
      exact ⟨more, by rw [List.append_nil], sofar⟩
  obtain ⟨_, externals, agents, tape, finish, drew, _, rfl, rfl⟩ := buildDrawing_eq_some.mp built
  obtain ⟨ids, drawn, more, split, sofar⟩ := run _ _ _ drew
  refine ⟨rfl, ?_, sofar.agents, sofar.engine, ?_, rfl, rfl⟩
  · rw [drawn, split, sofar.ids]
    rfl
  · have full := heapOf_full (agents.sched.map (·.nextAt))
    rwa [List.length_map] at full

end Building

/-! ### Reached states -/

section Reached

variable {Generator : Type} [Rng Generator] [Libm] {personas : List Persona} {cfg : SimConfig}
  {built st : RunState Generator} {first ids : List AccountId}

/-- How a state is reached: from the built run, by steps. -/
structure ReachedBy (personas : List Persona) (cfg : SimConfig) (built st : RunState Generator)
    (first ids : List AccountId) : Prop where
  building : buildDrawing personas cfg = some (built, first)
  same : SameRun built st
  engine : EngineSchedule st
  steps : Steps cfg built.externals (built.view first) (st.view ids)

theorem ReachedBy.fresh (reached : ReachedBy personas cfg built st first ids) :
    Fresh cfg first built :=
  buildDrawing_fresh reached.building

theorem ReachedBy.config (reached : ReachedBy personas cfg built st first ids) : st.cfg = cfg :=
  reached.same.cfg.trans reached.fresh.config

theorem reachedBy_built (building : buildDrawing personas cfg = some (built, first)) :
    ReachedBy personas cfg built built first first := by
  have fresh := buildDrawing_fresh building
  refine ⟨building, ?_, fresh.engine, Relation.ReflTransGen.refl⟩
  exact ⟨List.forall₂_same.mpr (fun agent _ => SameAgent.refl agent), rfl, rfl, rfl, rfl,
    fresh.heap⟩

theorem ReachedBy.serve {next : RunState Generator} {more : List AccountId}
    (reached : ReachedBy personas cfg built st first ids)
    (served : st.serve = some (next, more)) :
    ReachedBy personas cfg built next first (ids ++ more) := by
  refine ⟨reached.building, serve_same reached.same reached.engine served,
    reached.engine.serve served, reached.steps.trans ?_⟩
  have later := serve_steps reached.engine served ids
  rwa [reached.config, reached.same.externals] at later

/-- A property of the built run that every step keeps holds of every reached state. -/
theorem ReachedBy.holds (reached : ReachedBy personas cfg built st first ids)
    (property : List AccountId → View → Prop)
    (start : ∀ (built : RunState Generator) first, Fresh cfg first built →
      property built.externals (built.view first))
    (step : ∀ externals before after, property externals before →
      Step cfg externals before after → property externals after) :
    property st.externals (st.view ids) := by
  have kept (view : View) (steps : Steps cfg built.externals (built.view first) view) :
      property built.externals view := by
    induction steps with
    | refl => exact start built first reached.fresh
    | tail _ last inductionHypothesis => exact step _ _ _ inductionHypothesis last
  rw [reached.same.externals]
  exact kept _ reached.steps

/-- One round of an uninterrupted loop. -/
theorem runCore_succ (fuel : Nat) (st : RunState Generator) :
    runCore (nullSink Generator) (fuel + 1) st () =
      if st.done then Outcome.returned (st, ())
      else match st.event with
        | none => Outcome.panicked
        | some next => runCore (nullSink Generator) fuel next () := by
  rw [runCore]
  rfl

/-- What every event keeps, the loop keeps. -/
theorem runCore_keeps (property : List AccountId → RunState Generator → Prop)
    (step : ∀ st next ids more, property ids st → st.done = false →
      st.serve = some (next, more) → property (ids ++ more) next)
    (fuel : Nat) {final : RunState Generator} (start : property ids st)
    (ran : runCore (nullSink Generator) fuel st () = Outcome.returned (final, ())) :
    property (ids ++ servedIds fuel st) final ∧ final.done = true := by
  induction fuel generalizing st ids with
  | zero => exact absurd ran (by simp [runCore, pure])
  | succ fuel inductionHypothesis =>
    rw [runCore_succ] at ran
    unfold servedIds
    by_cases done : st.done = true
    · rw [if_pos done] at ran ⊢
      obtain ⟨rfl, _⟩ := Prod.mk.inj (Outcome.returned.inj ran)
      rw [List.append_nil]
      exact ⟨start, done⟩
    · rw [if_neg done] at ran ⊢
      unfold RunState.event at ran
      cases served : st.serve with
      | none =>
        rw [served] at ran
        exact absurd ran (by simp)
      | some result =>
        rw [served] at ran
        have due : st.done = false := Bool.eq_false_of_not_eq_true done
        have later := inductionHypothesis
          (step st result.1 ids result.2 start due (served.trans rfl)) ran
        rwa [List.append_assoc] at later

/-- An uninterrupted run is the loop from the built state. -/
theorem finalState_ran (fuel : Nat) {final : RunState Generator}
    (ran : finalState fuel personas cfg = Outcome.returned final) :
    ∃ (built : RunState Generator) (first : List AccountId),
      buildDrawing personas cfg = some (built, first) ∧
      drawnIds Generator fuel personas cfg = first ++ servedIds fuel built ∧
      runCore (nullSink Generator) fuel built () = Outcome.returned (final, ()) := by
  unfold finalState buildFresh at ran
  unfold drawnIds
  cases building : (buildDrawing personas cfg : Option (RunState Generator × List AccountId)) with
  | none =>
    rw [building] at ran
    exact absurd ran (by simp)
  | some result =>
    rw [building] at ran
    simp only [Option.map_some] at ran
    cases outcome : runCore (nullSink Generator) fuel result.1 () with
    | returned pair =>
      rw [Id.run, outcome] at ran
      obtain rfl := Outcome.returned.inj ran
      exact ⟨result.1, result.2, rfl, rfl, outcome⟩
    | panicked =>
      rw [Id.run, outcome] at ran
      exact absurd ran (by simp)
    | running =>
      rw [Id.run, outcome] at ran
      exact absurd ran (by simp)

/-- What holds of a built run and is kept by every event holds of the state an uninterrupted run
ends in, where nothing is due any more. -/
theorem finalState_keeps (property : List AccountId → RunState Generator → Prop)
    (start : ∀ built first, buildDrawing personas cfg = some (built, first) →
      property first built)
    (step : ∀ st next ids more, property ids st → st.done = false →
      st.serve = some (next, more) → property (ids ++ more) next)
    (fuel : Nat) {final : RunState Generator}
    (ran : finalState fuel personas cfg = Outcome.returned final) :
    property (drawnIds Generator fuel personas cfg) final ∧ final.done = true := by
  obtain ⟨built, first, building, drawn, looped⟩ := finalState_ran fuel ran
  rw [drawn]
  exact runCore_keeps property step fuel (start built first building) looped

/-- The state an uninterrupted run ends in is reached, and nothing is due in it. -/
theorem finalState_reached (fuel : Nat) {final : RunState Generator}
    (ran : finalState fuel personas cfg = Outcome.returned final) :
    (∃ (built : RunState Generator) (first : List AccountId),
      ReachedBy personas cfg built final first (drawnIds Generator fuel personas cfg)) ∧
        final.done = true :=
  finalState_keeps (fun ids st => ∃ built first, ReachedBy personas cfg built st first ids)
    (fun built first building => ⟨built, first, reachedBy_built building⟩)
    (fun _ _ _ _ ⟨built, first, reached⟩ _ served => ⟨built, first, reached.serve served⟩)
    fuel ran

/-- The ledger of an unfunded simulation is that of a reached state. -/
theorem simulate_reached (fuel : Nat) {ledger : Ledger} (unfunded : cfg.funding = none)
    (simulated : simulate Generator fuel personas cfg = Outcome.returned ledger) :
    ∃ (built final : RunState Generator) (first : List AccountId),
      ReachedBy personas cfg built final first (drawnIds Generator fuel personas cfg) ∧
        final.done = true ∧ final.chain.ledger = ledger := by
  unfold simulate at simulated
  cases ended : (finalState fuel personas cfg : Outcome (RunState Generator)) with
  | returned final =>
    obtain ⟨⟨built, first, reached⟩, done⟩ := finalState_reached fuel ended
    refine ⟨built, final, first, reached, done, ?_⟩
    rw [ended] at simulated
    simp only [finalizeFunding, unfunded] at simulated
    exact Outcome.returned.inj simulated
  | panicked =>
    rw [ended] at simulated
    exact absurd simulated (by simp)
  | running =>
    rw [ended] at simulated
    exact absurd simulated (by simp)

/-! ### Boundaries -/

variable [RngState Generator]

/-- The reachable boundaries of the run of some personas and a configuration, fresh or restored
from a checkpoint taken at a boundary, with the identifiers drawn on the way. -/
inductive Boundary (personas : List Persona) (cfg : SimConfig) :
    List AccountId → RunState Generator → Prop
  | fresh (st : RunState Generator) (ids : List AccountId)
    (built : buildDrawing personas cfg = some (st, ids)) : Boundary personas cfg ids st
  | served (st next : RunState Generator) (ids more : List AccountId)
    (before : Boundary personas cfg ids st) (due : st.done = false)
    (served : st.serve = some (next, more)) : Boundary personas cfg (ids ++ more) next
  | restored (st built base : RunState Generator) (ids : List AccountId) (runId : RunId)
    (journalLenBytes : Nat) (cp : Checkpoint) (before : Boundary personas cfg ids st)
    (saved : st.snapshot runId journalLenBytes = some cp)
    (rebuilt : buildFresh personas cfg = some built)
    (restored : restoreState cp built = .ok base) :
    Boundary personas cfg ids (base.withRecords st.chain.ledger.records)

/-- Every boundary is reached from the built run; restoring a checkpoint changes nothing. -/
theorem Boundary.reached (boundary : Boundary personas cfg ids st) :
    ∃ built first, ReachedBy personas cfg built st first ids := by
  induction boundary with
  | fresh st ids built => exact ⟨st, ids, reachedBy_built built⟩
  | served st next ids more _ _ served inductionHypothesis =>
    obtain ⟨built, first, reached⟩ := inductionHypothesis
    exact ⟨built, first, reached.serve served⟩
  | restored st built base ids runId journalLenBytes cp _ saved rebuilt restored
      inductionHypothesis =>
    obtain ⟨other, first, reached⟩ := inductionHypothesis
    obtain rfl : built = other :=
      Option.some.inj (rebuilt.symm.trans (buildFresh_of_drawing reached.building))
    have back := restoreState_snapshot reached.same (List.Perm.refl _) saved
    obtain rfl := Except.ok.inj (back.symm.trans restored)
    rw [withRecords_records]
    exact ⟨built, first, reached⟩

/-- The state an uninterrupted run ends in is a boundary. -/
theorem finalState_boundary (fuel : Nat) {final : RunState Generator}
    (ran : finalState fuel personas cfg = Outcome.returned final) :
    Boundary personas cfg (drawnIds Generator fuel personas cfg) final :=
  (finalState_keeps (Boundary personas cfg) (fun built first => Boundary.fresh built first)
    (fun st next ids more before due served => Boundary.served st next ids more before due served)
    fuel ran).1

end Reached

/-- A small hardened run, of two agents for five and a half hours. -/
def smallRun : SimConfig :=
  { SimConfig.default with numAgents := 2, numExternal := 2, durationSecs := 20000 }

end AccountCooker
