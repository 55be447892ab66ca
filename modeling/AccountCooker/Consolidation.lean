/-
This file says exactly when an unfunded ledger shows a funding graph. A fee
payer of a cooker run is never paid, so its ledger shows none. A naive run pays
its fees from main accounts; nothing it does pays one of them but a
consolidation, so the graph is empty unless some wake consolidates, against what
the inference of the graph is documented to rely on.
-/

import Mathlib
import AccountCooker.FunderGraph

namespace AccountCooker

open Collections Draw

/-! ### Empty funding graphs -/

/-- The funding graph is empty when no record pays another record's fee payer from elsewhere. -/
theorem fundingEdges_eq_empty (records : List TxRecord) : fundingEdges records = ∅ ↔
    ∀ record ∈ records, ∀ payer ∈ records, record.source ≠ record.dest →
      record.dest ≠ payer.feePayer := by
  constructor
  · intro empty record member payer inRecords apart pays
    have entry := (fundingEdges_isSome records record.source).mpr
      ⟨record.dest, mem_fundees.mpr ⟨record, List.mem_toFinset.mpr member, rfl, apart, rfl, payer,
        List.mem_toFinset.mpr inRecords, pays.symm⟩⟩
    rw [empty] at entry
    exact absurd entry (by simp)
  · intro nobody
    have none : records.filter (fun record => record.source ≠ record.dest && record.dest ∈
        (records.map (·.feePayer)).toFinset) = [] := by
      refine List.filter_eq_nil_iff.mpr (fun record member looks => ?_)
      simp only [Bool.and_eq_true, decide_eq_true_eq, List.mem_toFinset, List.mem_map] at looks
      obtain ⟨apart, payer, inRecords, pays⟩ := looks
      exact nobody record member payer inRecords apart pays.symm
    unfold fundingEdges
    dsimp only
    rw [none]
    rfl

/-- The funding graph of a ledger, and with it the heuristic and the feature that walk it, shows
nothing. -/
structure NoFundingGraph (ledger : Ledger) : Prop where
  edges : fundingEdges ledger.records = ∅
  unions : ∀ order cfg, funderUnions order ledger.records cfg = []
  feature : ∀ order cfg features, Features.build order ledger cfg = some features →
    features.fundingHop = ∅

theorem noFundingGraph_iff (ledger : Ledger) :
    NoFundingGraph ledger ↔ fundingEdges ledger.records = ∅ := by
  refine ⟨NoFundingGraph.edges, fun empty => ⟨empty, fun order cfg => ?_,
    fun order cfg features built => ?_⟩⟩
  · have nothing : order.iterate [7] (∅ : HashMap AccountId (BTreeSet AccountId)) = [] :=
      (order.iterate_perm [7] ∅).eq_nil
    unfold funderUnions
    rw [empty, nothing]
    rfl
  · have nothing : order.iterate [11, 1] (∅ : HashMap AccountId (BTreeSet AccountId)) = [] :=
      (order.iterate_perm [11, 1] ∅).eq_nil
    simp only [Features.build, Option.bind_eq_bind, Option.bind_eq_some_iff, Option.pure_def,
      Option.some_inj] at built
    obtain ⟨_, _, _, _, rfl⟩ := built
    show weigh (Features.fundingHopPairs order ledger.records) = ∅
    unfold Features.fundingHopPairs
    rw [empty, nothing]
    rfl

/-- A cooker run shows no funding graph. -/
theorem Custody.fundingEdges_empty {cfg : SimConfig} {externals : List AccountId}
    {owner : AccountId → Option AgentId} {view : View}
    (custody : Custody cfg externals owner view) (cooker : cfg.mode = .cooker) :
    fundingEdges view.chain.ledger.records = ∅ :=
  (fundingEdges_eq_empty _).mpr (fun record member payer inLedger _ =>
    (custody.payers cooker payer inLedger).2.2 record member)

/-! ### Naive wakes -/

section Wakes

variable {Generator : Type} [Rng Generator] {externals : List AccountId} {agent : Agent}

/-- A record leads to an external, or back to its source. -/
def LeadsOut (externals : List AccountId) (record : TxRecord) : Prop :=
  record.dest ∈ externals ∨ record.dest = record.source

/-- One planned transfer of a naive wake leads where its plan does. -/
theorem emitWithNoise_leadsOut {chain middle : MockChain} {planned : PlannedTx}
    (outward : planned.dest ∈ externals ∨ planned.dest = planned.source)
    (sofar : Adds (LeadsOut externals) chain middle) :
    Yields (emitWithNoise agent .naive middle planned : Draw Generator MockChain)
      (fun _ next => Adds (LeadsOut externals) chain next) := by
  refine Yields.mono (yields_checked _) ?_
  rintro _ next ⟨rfl, appended⟩
  exact sofar.record appended outward

variable [Libm]

/-- A wake of the naive or the legacy engine up to its rebalancing. -/
def beforeRebalance (chain : MockChain) (agent : Agent) (externals : List AccountId)
    (mode : Mode) : Draw Generator MockChain := do
  let kind ← agent.persona.chooseAction
  let source ← choose agent.subaccounts
  let counterparty ← choose externals
  let amount ← agent.persona.sampleAmount
  let planned := (adapterFor kind).plan ⟨source, counterparty, amount⟩
  let chain ← planned.foldlM (emitWithNoise agent mode) chain
  emitDecoys agent externals mode chain

theorem performAction_eq (chain : MockChain) (agent : Agent) (externals : List AccountId)
    (mode : Mode) : (performAction chain agent externals mode : Draw Generator MockChain) =
      beforeRebalance chain agent externals mode >>= fun chain =>
        maybeRebalance chain agent mode := by
  unfold performAction beforeRebalance
  simp only [bind_assoc]

/-- Before its rebalancing a naive wake only writes records that lead out. -/
theorem beforeRebalance_leadsOut (chain : MockChain) :
    Yields (beforeRebalance chain agent externals .naive : Draw Generator MockChain)
      (fun _ next => Adds (LeadsOut externals) chain next) := by
  refine Silent.bind (Persona.chooseAction_silent _) (fun kind _ => ?_)
  refine Silent.bind (yields_choose _) (fun source _ => ?_)
  refine Silent.bind (yields_choose _) (fun counterparty outside => ?_)
  refine Silent.bind (Persona.sampleAmount_silent _) (fun amount _ => ?_)
  refine yields_bind (yields_foldlM (fun _ next => Adds (LeadsOut externals) chain next) _ _ ?_ []
    chain (Adds.refl chain)) (fun _ acted leads => ?_)
  · intro _ middle sofar planned member
    refine emitWithNoise_leadsOut ?_ sofar
    obtain ⟨here, toward⟩ := plan_shape member
    rcases toward with outward | back
    · exact Or.inl (by rw [outward]; exact outside)
    · exact Or.inr (back.1.trans here.symm)
  · refine Yields.mono (yields_pure acted) ?_
    rintro _ next ⟨_, rfl⟩
    exact leads

omit [Libm] in
/-- Every account but the main one pays into it in a consolidation, and nothing is lost. -/
theorem consolidate_records (subs : List AccountId) (chain : MockChain) :
    Yields (subs.foldlM (consolidateInto agent) chain : Draw Generator MockChain)
      (fun _ next => (∀ record ∈ chain.ledger.records, record ∈ next.ledger.records) ∧
        ((∀ sub ∈ subs, sub = agent.main) → next = chain) ∧
        ∀ sub ∈ subs, sub ≠ agent.main → ∃ record ∈ next.ledger.records,
          record.source = sub ∧ record.dest = agent.main ∧ record.feePayer = agent.main) := by
  induction subs generalizing chain with
  | nil =>
    refine Yields.mono (yields_pure chain) ?_
    rintro _ next ⟨_, rfl⟩
    exact ⟨fun record member => member, fun _ => rfl,
      fun sub member => absurd member List.not_mem_nil⟩
  | cons sub rest inductionHypothesis =>
    rw [List.foldlM_cons]
    unfold consolidateInto
    by_cases main : sub = agent.main
    · rw [if_pos main]
      refine Silent.bind (yields_pure chain) ?_
      rintro _ rfl
      refine (inductionHypothesis _).mono (fun _ next holds => ⟨holds.1, fun all => ?_, ?_⟩)
      · exact holds.2.1 (fun other member => all other (List.mem_cons_of_mem _ member))
      · intro other member different
        rcases List.mem_cons.mp member with rfl | later
        · exact absurd main different
        · exact holds.2.2 other later different
    · rw [if_neg main, bind_assoc]
      refine Silent.bind (yields_randomRangeNat _ _ _) (fun amount _ => ?_)
      refine Silent.bind (yields_checked _) (fun recorded appended => ?_)
      have written := congrArg (fun chain => chain.ledger.records) (record_eq appended)
      simp only at written
      refine (inductionHypothesis recorded).mono (fun _ next holds => ⟨fun record member => ?_,
        fun all => absurd (all sub List.mem_cons_self) main, ?_⟩)
      · exact holds.1 record (by rw [written]; exact List.mem_append_left _ member)
      · intro other member different
        rcases List.mem_cons.mp member with rfl | later
        · refine ⟨_, holds.1 _
            (by rw [written]; exact List.mem_append_right _ List.mem_cons_self), ?_⟩
          exact ⟨rfl, rfl, rfl⟩
        · exact holds.2.2 other later different

end Wakes

/-! ### Consolidating wakes -/

section Boundaries

variable {Generator : Type} [Rng Generator] [Libm] {personas : List Persona} {cfg : SimConfig}
  {st : RunState Generator}

/-- The next wake draws a consolidation, and its agent has another account than the main one. -/
def RunState.consolidates (st : RunState Generator) : Bool :=
  match st.heap with
  | [] => false
  | (best, si) :: _ => Option.getD (do
    let entry ← st.sched[si]?
    let agent ← st.agents[entry.agentIdx]?
    let (_, tape) ← beforeRebalance (st.chain.setTime (max best st.chain.now)) agent st.externals
      st.cfg.mode ⟨st.rng, []⟩
    let (unit, _) ← (random : Draw Generator Float) tape
    pure (unit < 0.12 && agent.subaccounts.any (fun sub => sub ≠ agent.main))) false

/-- A record that pays its own fee payer from elsewhere. -/
def PaysPayer (record : TxRecord) : Prop :=
  record.source ≠ record.dest ∧ record.dest = record.feePayer

/-- A naive event that does not consolidate only writes records that lead out; one that does pays
a main account that pays the fee. -/
theorem serve_consolidates {next : RunState Generator} {ids : List AccountId}
    (engine : EngineSchedule st) (naive : st.cfg.mode = .naive)
    (served : st.serve = some (next, ids)) :
    (st.consolidates = false → Adds (LeadsOut st.externals) st.chain next.chain) ∧
      (st.consolidates = true → ∃ record ∈ next.chain.ledger.records, PaysPayer record) := by
  obtain ⟨due, rest, facts⟩ := serve_served served
  obtain ⟨entry, agent, woken, atEntry, found, woke, _, chain, _⟩ := facts.acted
  have single : entry.subIdx = none := by
    have hardened := engine entry (List.mem_of_getElem? atEntry)
    rw [naive_unhardened naive] at hardened
    exact Option.not_isSome_iff_eq_none.mp (by rw [hardened]; exact Bool.false_ne_true)
  rw [single] at woke
  obtain ⟨acted, middle, ran, scheduled⟩ := bind_eq_some.mp woke
  obtain ⟨delay, _, _, finished⟩ := bind_eq_some.mp scheduled
  obtain ⟨rfl, _⟩ := pure_eq_some.mp finished
  rw [performAction_eq, naive] at ran
  obtain ⟨before, tape, began, rebalanced⟩ := bind_eq_some.mp ran
  obtain ⟨unit, later, drew, chosen⟩ := bind_eq_some.mp rebalanced
  obtain ⟨_, _, out⟩ := beforeRebalance_leadsOut _ _ _ _ began
  have decides : st.consolidates =
      (decide (unit < 0.12) && agent.subaccounts.any (fun sub => sub ≠ agent.main)) := by
    unfold RunState.consolidates
    rw [facts.heap]
    show Option.getD (Option.bind st.sched[due.2]? _) false = _
    rw [atEntry]
    show Option.getD (Option.bind st.agents[entry.agentIdx]? _) false = _
    rw [found]
    show Option.getD (Option.bind (beforeRebalance _ agent st.externals st.cfg.mode _) _) false = _
    rw [naive, began]
    simp only [Option.bind_some, Option.bind_eq_bind]
    rw [drew]
    rfl
  rw [decides, chain]
  by_cases low : unit < 0.12
  · rw [if_pos low] at chosen
    obtain ⟨_, _, _, idle, paid⟩ := consolidate_records _ _ _ _ _ chosen
    rw [decide_eq_true low, Bool.true_and]
    refine ⟨fun none => ?_, fun some => ?_⟩
    · have same : acted = before := by
        refine idle (fun sub member => ?_)
        have equal := List.any_eq_false.mp none sub member
        simpa using equal
      rw [same]
      exact out.ticked
    · obtain ⟨sub, member, different⟩ := List.any_eq_true.mp some
      have apart : sub ≠ agent.main := of_decide_eq_true different
      obtain ⟨record, inLedger, rfl, dest, feePayer⟩ := paid sub member apart
      exact ⟨record, inLedger, by rw [dest]; exact apart, dest.trans feePayer.symm⟩
  · rw [if_neg low] at chosen
    obtain ⟨rfl, _⟩ := pure_eq_some.mp chosen
    rw [decide_eq_false low, Bool.false_and]
    exact ⟨fun _ => out.ticked, fun impossible => absurd impossible Bool.false_ne_true⟩

/-- A naive run without a consolidating wake only writes records that lead out; a consolidating
wake leaves a record that pays its own fee payer. -/
theorem runCore_consolidates (fuel : Nat) {final : RunState Generator} (engine : EngineSchedule st)
    (naive : st.cfg.mode = .naive)
    (ran : runCore (nullSink Generator) fuel st () = Outcome.returned (final, ())) :
    ((∀ visited ∈ st.boundaries fuel, visited.done = false → visited.consolidates = false) →
        Adds (LeadsOut st.externals) st.chain final.chain) ∧
      ∀ visited ∈ st.boundaries fuel, visited.done = false → visited.consolidates = true →
        ∃ record ∈ final.chain.ledger.records, PaysPayer record := by
  refine (runCore_adds (fun state => EngineSchedule state ∧ state.cfg.mode = .naive ∧
    state.externals = st.externals) ?_ fuel ⟨engine, naive, rfl⟩ ran).2
  rintro visited next ids ⟨engine, naive, externals⟩ served
  obtain ⟨_, _, facts⟩ := serve_served served
  have wake := serve_consolidates engine naive served
  rw [externals] at wake
  exact ⟨⟨engine.serve served, by rw [facts.cfg]; exact naive, facts.externals.trans externals⟩,
    serve_records engine served, wake⟩

/-- The ledger of an unfunded run shows no funding graph exactly when it is a cooker run or no wake
consolidates. -/
theorem fundingEdges_unfunded (fuel : Nat) (personas : List Persona) (cfg : SimConfig)
    (ledger : Ledger) (unfunded : cfg.funding = none)
    (simulated : simulate Generator fuel personas cfg = Outcome.returned ledger)
    (distinct : (drawnIds Generator fuel personas cfg).Nodup) :
    NoFundingGraph ledger ↔ cfg.mode = .cooker ∨
      ∀ built : RunState Generator, buildFresh personas cfg = some built →
        ∀ st ∈ built.boundaries fuel, st.done = false → st.consolidates = false := by
  obtain ⟨final, ended, rfl⟩ := simulate_plain fuel simulated (Or.inl unfunded)
  obtain ⟨built, first, building, _, ran⟩ := finalState_ran fuel ended
  obtain ⟨other, owner, finished⟩ := finalState_finished fuel ended distinct
  obtain ⟨otherFirst, reached⟩ := finished.reached
  obtain ⟨rfl, _⟩ := Prod.mk.inj (Option.some.inj (building.symm.trans reached.building))
  have fresh := buildDrawing_fresh building
  have rebuilt := buildFresh_of_drawing building
  rw [noFundingGraph_iff]
  cases mode : cfg.mode with
  | cooker => exact iff_of_true (finished.custody.fundingEdges_empty mode) (Or.inl rfl)
  | naive =>
    obtain ⟨clean, found⟩ :=
      runCore_consolidates fuel fresh.engine (by rw [fresh.config]; exact mode) ran
    rw [fundingEdges_eq_empty]
    constructor
    · intro nobody
      refine Or.inr (fun again equal st member due => ?_)
      obtain rfl := Option.some.inj (rebuilt.symm.trans equal)
      refine Bool.eq_false_of_not_eq_true (fun consolidating => ?_)
      obtain ⟨record, inLedger, apart, pays⟩ := found st member due consolidating
      exact nobody record inLedger record inLedger apart pays
    · intro quiet record member payer inLedger apart pays
      have quiet := quiet.resolve_left (by simp) built rebuilt
      have sponsored := reached.sponsored mode distinct
      rcases (clean quiet).added record member with old | external | back
      · rw [fresh.chain] at old
        exact absurd old List.not_mem_nil
      · -- A main account is owned, an external is not.
        obtain ⟨index, agent, atAgent, _, feePayer, _⟩ := sponsored.records payer inLedger
        have owned := finished.custody.held index agent atAgent agent.main
          (List.mem_of_getElem? (finished.custody.agents index agent atAgent).main)
        rw [← reached.same.externals] at external
        rw [← feePayer, ← pays, finished.custody.outside _ external] at owned
        exact absurd owned (by simp)
      · exact apart back.symm

end Boundaries

/-- A naive run of one agent, whose first wakes consolidate. -/
def consolidatingRun : SimConfig :=
  { naiveRun with numAgents := 1, numExternal := 1, durationSecs := 10000 }

/-- The ledger of the consolidating run is unfunded, and still shows a funding graph, from which
the learned adversary takes a feature. -/
theorem consolidatingRun_fundingGraph : consolidatingRun.funding = none ∧
    (drawnIds Counter 4 [Persona.retail] consolidatingRun).Nodup ∧
    ∃ ledger, simulate Counter 4 [Persona.retail] consolidatingRun = Outcome.returned ledger ∧
      fundingEdges ledger.records ≠ ∅ ∧
      (∃ features, Features.build HashOrder.asWritten ledger MlConfig.standard = some features ∧
        features.fundingHop ≠ ∅) ∧
      ¬ NoFundingGraph ledger := by
  have ran : ((simulate Counter 4 [Persona.retail] consolidatingRun).result?.any (fun ledger =>
      (Features.build HashOrder.asWritten ledger MlConfig.standard).any
        (fun features => !features.fundingHop.entries.isEmpty))) = true := by decide +kernel
  obtain ⟨ledger, result, walked⟩ := (Option.any_eq_true _ _).mp ran
  obtain ⟨features, built, some⟩ := (Option.any_eq_true _ _).mp walked
  have feature : features.fundingHop ≠ ∅ := by
    intro empty
    rw [empty] at some
    exact absurd some (by decide)
  have graph : ¬ NoFundingGraph ledger := fun none => feature (none.feature _ _ features built)
  exact ⟨rfl, by decide +kernel, ledger, Outcome.result?_eq_some.mp result,
    fun empty => graph ((noFundingGraph_iff ledger).mpr empty), ⟨features, built, feature⟩, graph⟩

/-- The small naive run shows no funding graph: none of its wakes consolidates. -/
theorem fundingEdges_unfunded_naiveRun : ∃ ledger,
    simulate Counter 6 [Persona.retail] naiveRun = Outcome.returned ledger ∧
    NoFundingGraph ledger ∧
      ∀ built : RunState Counter, buildFresh [Persona.retail] naiveRun = some built →
        ∀ st ∈ built.boundaries 6, st.done = false → st.consolidates = false := by
  have ran : ((simulate Counter 6 [Persona.retail] naiveRun).result?.any (fun ledger =>
      (fundingEdges ledger.records).entries.isEmpty)) = true := by decide +kernel
  obtain ⟨ledger, result, empty⟩ := (Option.any_eq_true _ _).mp ran
  have simulated := Outcome.result?_eq_some.mp result
  have exact := fundingEdges_unfunded 6 _ _ ledger rfl simulated (by decide +kernel)
  have none : NoFundingGraph ledger := by
    rw [noFundingGraph_iff]
    exact AList.ext (List.isEmpty_iff.mp empty)
  exact ⟨ledger, simulated, none, (exact.mp none).resolve_left (by decide)⟩

end AccountCooker
