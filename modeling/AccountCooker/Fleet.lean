/-
This file models the fleet orchestrator: building a run from the personas and
the configuration, the discrete-event loop, and the finished simulation.

The scheduler is a min-heap of wake times and schedule indices; the model keeps
it as the sorted list of its entries, of which the heap pops the first. The loop
hands its records to a sink and calls it at every boundary, where the state is
consistent and the heap holds every schedule entry; the sink of a durable run
is a program on files, so the loop is stated over any monad.

A loop that serves events for ever is cut off after `fuel` boundaries, which
the outcome tells apart from a return and from a panic.
-/

import Mathlib
import AccountCooker.Funding

namespace AccountCooker

open Collections Draw

/-! ### Run state -/

/-- A schedule entry: one per agent, or in the hardened engine one per sub-account. -/
structure Sched where
  agentIdx : Nat
  subIdx : Option Nat
  nextAt : Int
deriving DecidableEq

/-- A heap entry: when it is due, and which schedule entry it wakes. -/
abbrev Due := Int × Nat

/-- The order of the heap. -/
def dueBefore (first second : Due) : Prop :=
  first.1 < second.1 ∨ first.1 = second.1 ∧ first.2 ≤ second.2

instance : DecidableRel dueBefore := fun first second =>
  inferInstanceAs (Decidable (first.1 < second.1 ∨ first.1 = second.1 ∧ first.2 ≤ second.2))

/-- `heap.push(entry)`. -/
def push (heap : List Due) (entry : Due) : List Due := heap.orderedInsert dueBefore entry

/-- The heap that holds every index with its time. -/
def heapOf (times : List Int) : List Due := times.zipIdx.foldl push []

/-- The full state of a run. -/
structure RunState (Generator : Type) where
  agents : List Agent
  externals : List AccountId
  sched : List Sched
  cfg : SimConfig
  finish : Int
  rng : Generator
  heap : List Due
  chain : MockChain
  events : Nat

/-! ### Building a run -/

section Building

variable {Generator : Type} [Rng Generator] [Libm]

/-- Draw a number of fresh accounts. -/
def freshAccounts (count : Nat) : Draw Generator (List AccountId) :=
  (List.range count).mapM (fun _ => randomAccount)

/-- The agents and the schedule built so far. -/
structure Built where
  agents : List Agent
  sched : List Sched

/-- The single clock of a naive or legacy agent. -/
def scheduleAgent (cfg : SimConfig) (persona : Persona) (agentIdx : Nat) :
    Draw Generator Sched := do
  let d ← persona.circadian.nextDelaySecs (secondOfDay cfg.startTs)
  let nextAt ← checked (checkedI64 (cfg.startTs + asI64 d))
  pure ⟨agentIdx, none, nextAt⟩

/-- Hold the aggregate rate of an agent of `n` sub-accounts, where that is configured. -/
def holdRate (cfg : SimConfig) (n : Nat) (d : Int) : Option Int :=
  if cfg.hardening.holdAggregateRate then checkedI64 (d * asI64 n) else some d

/-- The phase and the clock of the `k`-th sub-account of a hardened agent. -/
def scheduleSubaccount (cfg : SimConfig) (persona : Persona) (n agentIdx : Nat)
    (built : List SubSched × List Sched) (k : Nat) :
    Draw Generator (List SubSched × List Sched) := do
  let phase ← randomRange .i32 0 86399
  let shifted ← checked (checkedI64 (cfg.startTs + phase))
  let d ← persona.circadian.nextDelaySecs (secondOfDay shifted)
  let d ← checked (holdRate cfg n (asI64 d))
  let nextAt ← checked (checkedI64 (cfg.startTs + max d 1))
  pure (built.1 ++ [⟨phase⟩], built.2 ++ [⟨agentIdx, some k, nextAt⟩])

/-- The schedule of one agent: the phases of its sub-accounts and its entries. -/
def buildSchedule (cfg : SimConfig) (persona : Persona) (n agentIdx : Nat) :
    Draw Generator (List SubSched × List Sched) :=
  if cfg.hardened then
    (List.range n).foldlM (scheduleSubaccount cfg persona n agentIdx) ([], [])
  else (fun entry => ([], [entry])) <$> scheduleAgent cfg persona agentIdx

/-- Build one agent: its accounts are drawn before its schedule, in every mode. The agent keeps its
index as its number; the cut of the source's `id as AgentId` to 32 bits is not modelled. -/
def buildAgent (personas : List Persona) (cfg : SimConfig) (built : Built) (id : Nat) :
    Draw Generator Built := do
  let persona ← checked personas[id % personas.length]?
  let n := max persona.numSubaccounts 1
  let subaccounts ← freshAccounts n
  let main ← checked subaccounts[0]?
  let schedule ← buildSchedule cfg persona n built.agents.length
  pure ⟨built.agents ++ [⟨id, persona, subaccounts, schedule.1, main⟩],
    built.sched ++ schedule.2⟩

/-- The draws that build a run. -/
def buildRun (personas : List Persona) (cfg : SimConfig) :
    Draw Generator (List AccountId × Built) := do
  let externals ← freshAccounts (max cfg.numExternal 1)
  let built ← (List.range cfg.numAgents).foldlM (buildAgent personas cfg) ⟨[], []⟩
  pure (externals, built)

/-- Build a fresh run, with the identifiers drawn for it; a run without personas panics. -/
def buildDrawing (personas : List Persona) (cfg : SimConfig) :
    Option (RunState Generator × List AccountId) :=
  if personas.isEmpty then none
  else do
    let rng : Generator := Rng.seedFromU64 (deriveSeed cfg)
    let ((externals, built), tape) ← buildRun personas cfg ⟨rng, []⟩
    let finish ← checkedI64 (cfg.startTs + cfg.durationSecs)
    pure ({
      agents := built.agents
      externals := externals
      sched := built.sched
      cfg := cfg
      finish := finish
      rng := tape.generator
      heap := heapOf (built.sched.map (·.nextAt))
      chain := MockChain.new cfg.startTs
      events := 0 }, tape.drawn)

/-- Build a fresh run. -/
def buildFresh (personas : List Persona) (cfg : SimConfig) : Option (RunState Generator) :=
  (buildDrawing personas cfg).map Prod.fst

/-! ### The loop -/

/-- What a wake leaves behind. -/
structure Woken where
  chain : MockChain
  agent : Agent
  nextAt : Int

/-- Serve a wake due at `best`, and schedule the next one from the logical time of this one. -/
def wake (cfg : SimConfig) (externals : List AccountId) (best : Int) (chain : MockChain)
    (agent : Agent) (subIdx : Option Nat) : Draw Generator Woken :=
  match subIdx with
  | none => do
    let chain ← performAction chain agent externals cfg.mode
    let d ← agent.persona.circadian.nextDelaySecs (secondOfDay best)
    pure ⟨chain, agent, saturatingI64 (best + max (asI64 d) 1)⟩
  | some k => do
    let acted ← performActionHardened chain agent k externals cfg
    let sub ← checked acted.2.subSched[k]?
    let d ← acted.2.persona.circadian.nextDelaySecs
      (secondOfDay (saturatingI64 (best + sub.phase)))
    let d ← checked (holdRate cfg acted.2.subaccounts.length (asI64 d))
    pure ⟨acted.1, acted.2, saturatingI64 (best + max d 1)⟩

namespace RunState

/-- Nothing is due any more. -/
def done (st : RunState Generator) : Bool :=
  match st.heap with
  | [] => true
  | due :: _ => st.finish < due.1

/-- Serve the first entry of the heap, with the identifiers drawn for it. Only the observable
clock is clamped to the chain's; the next wake is scheduled from the logical time. -/
def serve (st : RunState Generator) : Option (RunState Generator × List AccountId) :=
  match st.heap with
  | [] => none
  | (best, si) :: heap => do
    let entry ← st.sched[si]?
    let agent ← st.agents[entry.agentIdx]?
    let (woken, tape) ← wake st.cfg st.externals best
      (st.chain.setTime (max best st.chain.now)) agent entry.subIdx ⟨st.rng, []⟩
    let events ← checkedU64 (st.events + 1)
    pure ({ st with
      agents := st.agents.set entry.agentIdx woken.agent
      rng := tape.generator
      heap := push heap (woken.nextAt, si)
      chain := woken.chain
      events := events }, tape.drawn)

/-- One round of the loop after its boundary. -/
def event (st : RunState Generator) : Option (RunState Generator) := st.serve.map Prod.fst

end RunState

end Building

/-- How a computation that may loop or panic ends. -/
inductive Outcome (Result : Type)
  | returned (result : Result)
  | panicked
  | running
deriving DecidableEq

/-- The result of a computation that returned. -/
def Outcome.result? {Result : Type} : Outcome Result → Option Result
  | .returned result => some result
  | .panicked => none
  | .running => none

/-- What a computation returns, changed. -/
def Outcome.map {Result Next : Type} (change : Result → Next) : Outcome Result → Outcome Next
  | .returned result => .returned (change result)
  | .panicked => .panicked
  | .running => .running

theorem Outcome.result?_eq_some {Result : Type} {outcome : Outcome Result} {result : Result} :
    outcome.result? = some result ↔ outcome = .returned result := by
  cases outcome <;> simp [result?]

/-- A sink notified as a run progresses; `onBoundary` may stop the run early. -/
structure DurSink (Effect : Type → Type) (Sink Generator : Type) where
  onRecords : Sink → List TxRecord → Effect Sink
  onBoundary : Sink → RunState Generator → Bool → Effect (Sink × Bool)

/-- The sink that does nothing. -/
def nullSink (Generator : Type) : DurSink Id Unit Generator where
  onRecords _ _ := ()
  onBoundary _ _ _ := ((), false)

section Running

variable {Generator : Type} [Rng Generator] [Libm]

/-- The discrete-event loop, cut off after `fuel` boundaries. -/
def runCore {Effect : Type → Type} [Monad Effect] {Sink : Type}
    (sink : DurSink Effect Sink Generator) :
    Nat → RunState Generator → Sink → Effect (Outcome (RunState Generator × Sink))
  | 0, _, _ => pure .running
  | fuel + 1, st, state => do
    let (state, stop) ← sink.onBoundary state st st.done
    if stop || st.done then pure (.returned (st, state))
    else match st.event with
      | none => pure .panicked
      | some next => do
        let state ← sink.onRecords state
          (next.chain.ledger.records.drop st.chain.ledger.records.length)
        runCore sink fuel next state

/-- The hub of each operator. -/
def hubsOf (agents : List Agent) : BTreeMap AgentId AccountId :=
  BTreeMap.ofList (agents.map (fun agent => (agent.id, agent.main)))

/-- Apply the funding post-pass, if configured. -/
def finalizeFunding (st : RunState Generator) (cfg : SimConfig) : Option Ledger :=
  match cfg.funding with
  | none => some st.chain.ledger
  | some _ => applyFunding Generator st.chain.ledger (hubsOf st.agents) cfg

/-- The state in which an uninterrupted run ends. -/
def finalState (fuel : Nat) (personas : List Persona) (cfg : SimConfig) :
    Outcome (RunState Generator) :=
  match buildFresh personas cfg with
  | none => .panicked
  | some st =>
    match Id.run (runCore (nullSink Generator) fuel st ()) with
    | .returned (final, _) => .returned final
    | .panicked => .panicked
    | .running => .running

/-- Run the simulation and return the observable ledger. -/
def simulate (Generator : Type) [Rng Generator] (fuel : Nat) (personas : List Persona)
    (cfg : SimConfig) : Outcome Ledger :=
  match (finalState fuel personas cfg : Outcome (RunState Generator)) with
  | .returned final =>
    match finalizeFunding final cfg with
    | some ledger => .returned ledger
    | none => .panicked
  | .panicked => .panicked
  | .running => .running

/-- The identifiers drawn while the loop runs from a state. -/
def servedIds : Nat → RunState Generator → List AccountId
  | 0, _ => []
  | fuel + 1, st =>
    if st.done then []
    else match st.serve with
      | none => []
      | some (next, ids) => ids ++ servedIds fuel next

/-- All identifiers `AccountId::random` hands out in the run of some personas and a
configuration. -/
def drawnIds (Generator : Type) [Rng Generator] (fuel : Nat) (personas : List Persona)
    (cfg : SimConfig) : List AccountId :=
  match (buildDrawing personas cfg : Option (RunState Generator × List AccountId)) with
  | none => []
  | some (st, ids) => ids ++ servedIds fuel st

end Running

end AccountCooker
