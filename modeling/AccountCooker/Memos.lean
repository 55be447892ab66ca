/-
This file follows memos into the ledger. An adapter plans a memo as a transfer
of nothing from the acting account to itself. The naive engine records what is
planned, and the hardened one keeps the source of the wake; the legacy engine
pays every part from a source of its own, but leaves the planned destination.

So a memo is a self-intent in the ledger of a run unless some wake of the legacy
engine draws another source for it, and then it is none. What the funding
post-pass appends are transfers.
-/

import Mathlib
import AccountCooker.TopUps

namespace AccountCooker

open Draw

/-! ### Self-intents -/

/-- A memo carries nothing and goes back to its source. -/
def PlannedTx.SelfIntent (tx : PlannedTx) : Prop :=
  tx.kind = .memo → tx.amount = 0 ∧ tx.dest = tx.source

/-- A record of a memo carries nothing and goes back to its source. -/
def TxRecord.SelfIntent (record : TxRecord) : Prop :=
  record.kind = .memo → record.amount = 0 ∧ record.dest = record.source

/-- The memos added to a chain are self-intents. -/
abbrev AddsIntents : MockChain → MockChain → Prop := Adds TxRecord.SelfIntent

theorem AddsIntents.record {start chain recorded : MockChain} {tx : PlannedTx}
    {feePayer : AccountId} {operator : Option AgentId} (sofar : AddsIntents start chain)
    (appended : chain.record tx feePayer operator = some recorded) (intent : tx.SelfIntent) :
    AddsIntents start recorded := Adds.record sofar appended intent

/-- Every adapter plans self-intents from the acting account, and only that of memos plans memos. -/
theorem plan_selfIntent {kind : ActionKind} {ctx : ActionContext} {planned : PlannedTx}
    (member : planned ∈ (adapterFor kind).plan ctx) :
    planned.SelfIntent ∧ (planned.kind = .memo → kind = .memo) := by
  cases kind <;> obtain rfl := List.mem_singleton.mp member
  · exact ⟨fun memo => absurd memo (by simp), fun memo => absurd memo (by simp)⟩
  · exact ⟨fun memo => absurd memo (by simp), fun memo => absurd memo (by simp)⟩
  · exact ⟨fun memo => absurd memo (by simp), fun memo => absurd memo (by simp)⟩
  · exact ⟨fun _ => ⟨rfl, rfl⟩, fun _ => rfl⟩
  · exact ⟨fun memo => absurd memo (by simp), fun memo => absurd memo (by simp)⟩
  · exact ⟨fun memo => absurd memo (by simp), fun memo => absurd memo (by simp)⟩

/-! ### Naive and legacy wakes -/

section Wakes

variable {Generator : Type} [Rng Generator] {agent : Agent} {externals : List AccountId}
  {start : MockChain}

/-- One planned transfer. The legacy engine changes its source, which matters only to a memo. -/
theorem emitWithNoise_selfIntents {mode : Mode} {chain : MockChain} {planned : PlannedTx}
    (intent : planned.SelfIntent) (other : mode = .cooker → planned.kind ≠ .memo)
    (sofar : AddsIntents start chain) :
    Yields (emitWithNoise agent mode chain planned : Draw Generator MockChain)
      (fun _ next => AddsIntents start next) := by
  cases mode with
  | naive =>
    refine Yields.mono (yields_checked _) ?_
    rintro _ next ⟨_, appended⟩
    exact sofar.record appended intent
  | cooker =>
    refine Silent.bind (partsOf_silent _ _) (fun parts _ => ?_)
    refine yields_foldlM (fun _ next => AddsIntents start next) _ _ ?_ [] chain sofar
    intro _ chain sofar part _
    refine yields_bind yields_randomAccount (fun _ feePayer _ => ?_)
    refine Silent.bind (yields_choose _) (fun source _ => ?_)
    refine Yields.mono (yields_checked _) ?_
    rintro _ next ⟨_, appended⟩
    exact sofar.record appended (fun memo => absurd memo (other rfl))

theorem maybeRebalance_selfIntents {mode : Mode} {chain : MockChain}
    (sofar : AddsIntents start chain) :
    Yields (maybeRebalance chain agent mode : Draw Generator MockChain)
      (fun _ next => AddsIntents start next) := by
  have idle : Yields (pure chain : Draw Generator MockChain)
      (fun _ next => AddsIntents start next) := by
    refine Yields.mono (yields_pure chain) ?_
    rintro _ next ⟨_, rfl⟩
    exact sofar
  cases mode with
  | naive =>
    refine Silent.bind yields_random (fun unit _ => ?_)
    split
    · refine yields_foldlM (fun _ next => AddsIntents start next) _ _ ?_ [] chain sofar
      intro _ chain sofar sub _
      unfold consolidateInto
      split
      · refine Yields.mono (yields_pure chain) ?_
        rintro _ next ⟨_, rfl⟩
        exact sofar
      · refine Silent.bind (yields_randomRangeNat _ _ _) (fun amount _ => ?_)
        refine Yields.mono (yields_checked _) ?_
        rintro _ next ⟨_, appended⟩
        exact sofar.record appended (fun memo => absurd memo (by simp))
    · exact idle
  | cooker =>
    refine Silent.bind yields_random (fun unit _ => ?_)
    split
    · refine Silent.bind (yields_choose _) (fun source _ => ?_)
      refine yields_bind yields_randomAccount (fun _ churn _ => ?_)
      refine Silent.bind (yields_randomRangeNat _ _ _) (fun amount _ => ?_)
      refine yields_bind yields_randomAccount (fun _ feePayer _ => ?_)
      refine Yields.mono (yields_checked _) ?_
      rintro _ next ⟨_, appended⟩
      exact sofar.record appended (fun memo => absurd memo (by simp))
    · exact idle

variable [Libm]

/-- The decoys are dust. -/
theorem emitDecoys_selfIntents {mode : Mode} {chain : MockChain} (sofar : AddsIntents start chain) :
    Yields (emitDecoys agent externals mode chain : Draw Generator MockChain)
      (fun _ next => AddsIntents start next) := by
  cases mode with
  | naive =>
    refine Yields.mono (yields_pure chain) ?_
    rintro _ next ⟨_, rfl⟩
    exact sofar
  | cooker =>
    refine Silent.bind (numDecoys_silent _) (fun n _ => ?_)
    refine yields_foldlM (fun _ next => AddsIntents start next) _ _ ?_ [] chain sofar
    intro _ chain sofar _ _
    refine Silent.bind (yields_choose _) (fun source _ => ?_)
    refine Silent.bind (yields_choose _) (fun dest _ => ?_)
    refine Silent.bind (dustAmount_silent _) (fun dust _ => ?_)
    exact emitWithNoise_selfIntents (fun memo => absurd memo (by simp)) (fun _ => by simp) sofar

/-- What follows the emission of a naive or a legacy wake. -/
theorem afterwards_selfIntents {mode : Mode} {chain : MockChain}
    (sofar : AddsIntents start chain) :
    Yields (emitDecoys agent externals mode chain >>= fun chain => maybeRebalance chain agent mode :
        Draw Generator MockChain)
      (fun _ next => AddsIntents start next) :=
  yields_bind (emitDecoys_selfIntents sofar) fun _ _ sofar => maybeRebalance_selfIntents sofar

/-- A naive wake. -/
theorem performAction_naive {chain : MockChain} :
    Yields (performAction chain agent externals .naive : Draw Generator MockChain)
      (fun _ next => AddsIntents chain next) := by
  refine Silent.bind (Persona.chooseAction_silent _) (fun kind _ => ?_)
  refine Silent.bind (yields_choose _) (fun source _ => ?_)
  refine Silent.bind (yields_choose _) (fun counterparty _ => ?_)
  refine Silent.bind (Persona.sampleAmount_silent _) (fun amount _ => ?_)
  refine yields_bind (yields_foldlM (fun _ next => AddsIntents chain next) _ _ ?_ [] chain
    (Adds.refl chain)) (fun _ acted sofar => afterwards_selfIntents sofar)
  intro _ next sofar planned member
  exact emitWithNoise_selfIntents (plan_selfIntent member).1 (fun cooker => by simp at cooker) sofar

/-! ### The memo of a legacy wake -/

/-- The draws of a legacy wake up to the source of its first record: whether that is the record of a
memo, and leaves from another account than the one the memo goes back to. -/
def drawStray (agent : Agent) (externals : List AccountId) : Draw Generator Bool := do
  let kind ← agent.persona.chooseAction
  let acting ← choose agent.subaccounts
  let _ ← choose externals
  let _ ← agent.persona.sampleAmount
  if kind = .memo then do
    let _ ← randomAccount
    let source ← choose agent.subaccounts
    pure (decide (source ≠ acting))
  else pure false

omit [Libm] in
/-- A memo is emitted as one part of nothing. -/
theorem emitWithNoise_memo (chain : MockChain) (acting : AccountId) :
    (emitWithNoise agent .cooker chain ⟨acting, acting, 0, .memo⟩ : Draw Generator MockChain) =
      emitPart agent ⟨acting, acting, 0, .memo⟩ chain 0 := by
  unfold emitWithNoise partsOf splitAmount
  simp only [if_true, pure_bind, List.isEmpty_nil, List.foldlM_cons, List.foldlM_nil, bind_pure]

/-- A legacy wake that draws another source for its memo leaves a memo astray; every other one only
adds self-intents. -/
theorem performAction_strays {chain acted : MockChain} {before after : Tape Generator}
    (ran : performAction chain agent externals .cooker before = some (acted, after)) :
    ∃ stray rest, drawStray agent externals before = some (stray, rest) ∧
      (stray = false → AddsIntents chain acted) ∧
      (stray = true → ∃ record ∈ acted.ledger.records, ¬ record.SelfIntent) := by
  obtain ⟨kind, _, chose, ran⟩ := bind_eq_some.mp ran
  obtain ⟨acting, _, acts, ran⟩ := bind_eq_some.mp ran
  obtain ⟨counterparty, _, toward, ran⟩ := bind_eq_some.mp ran
  obtain ⟨amount, tape, sampled, ran⟩ := bind_eq_some.mp ran
  obtain ⟨emitted, _, emission, ran⟩ := bind_eq_some.mp ran
  have later : AddsIntents emitted acted := by
    obtain ⟨_, _, kept⟩ := afterwards_selfIntents (Adds.refl emitted) _ _ _ ran
    exact kept
  by_cases memo : kind = .memo
  · subst memo
    obtain ⟨one, _, emits, nothing⟩ := bind_eq_some.mp emission
    obtain ⟨rfl, _⟩ := pure_eq_some.mp nothing
    have part : emitPart agent ⟨acting, acting, 0, .memo⟩ chain 0 _ = some (one, _) :=
      (congrFun (emitWithNoise_memo chain acting) _).symm.trans emits
    obtain ⟨feePayer, _, drew, part⟩ := bind_eq_some.mp part
    obtain ⟨source, rest, picked, part⟩ := bind_eq_some.mp part
    obtain ⟨appended, _⟩ := checked_eq_some.mp part
    have drawn : drawStray agent externals before = some (decide (source ≠ acting), rest) := by
      refine bind_eq_some.mpr ⟨_, _, chose, bind_eq_some.mpr ⟨_, _, acts, ?_⟩⟩
      refine bind_eq_some.mpr ⟨_, _, toward, bind_eq_some.mpr ⟨_, _, sampled, ?_⟩⟩
      rw [if_pos rfl]
      exact bind_eq_some.mpr ⟨_, _, drew, bind_eq_some.mpr ⟨_, _, picked, rfl⟩⟩
    refine ⟨_, _, drawn, fun stays => ?_, fun strays => ?_⟩
    · have same : source = acting := not_not.mp (of_decide_eq_false stays)
      exact ((Adds.refl chain).record appended fun _ => ⟨rfl, same.symm⟩).trans later
    · refine ⟨chain.stamp ⟨source, acting, 0, .memo⟩ feePayer (some agent.id),
        later.grown.subset ?_, fun intent => of_decide_eq_true strays (intent rfl).2.symm⟩
      rw [record_eq appended]
      exact List.mem_append_right _ List.mem_cons_self
  · have drawn : drawStray agent externals before = some (false, tape) := by
      refine bind_eq_some.mpr ⟨_, _, chose, bind_eq_some.mpr ⟨_, _, acts, ?_⟩⟩
      refine bind_eq_some.mpr ⟨_, _, toward, bind_eq_some.mpr ⟨_, _, sampled, ?_⟩⟩
      rw [if_neg memo]
      rfl
    refine ⟨false, tape, drawn, fun _ => ?_, fun impossible => absurd impossible (by simp)⟩
    have emits : Yields (((adapterFor kind).plan ⟨acting, counterparty, amount⟩).foldlM
        (emitWithNoise agent .cooker) chain : Draw Generator MockChain)
        (fun _ next => AddsIntents chain next) := by
      refine yields_foldlM (fun _ next => AddsIntents chain next) _ _ ?_ [] chain (Adds.refl chain)
      intro _ next sofar planned member
      obtain ⟨intent, only⟩ := plan_selfIntent member
      exact emitWithNoise_selfIntents intent (fun _ => mt only memo) sofar
    obtain ⟨_, _, sofar⟩ := emits _ _ _ emission
    exact sofar.trans later

/-! ### Hardened wakes -/

variable {cfg : SimConfig}

omit [Rng Generator] [Libm] in
/-- One record of a hardened wake, on the advanced clock. -/
theorem advanced_selfIntents {clocked moved : Clocked} {tx : PlannedTx} {feePayer : AccountId}
    (sofar : AddsIntents start clocked.chain)
    (advanced : moved.chain = clocked.chain.setTime moved.t)
    (intent : tx.SelfIntent) :
    Yields (moved.record agent tx feePayer : Draw Generator Clocked)
      (fun _ next => AddsIntents start next.chain) := by
  refine Silent.bind (yields_checked _) (fun recorded appended => ?_)
  refine Yields.mono (yields_pure _) ?_
  rintro _ next ⟨_, rfl⟩
  rw [advanced] at appended
  have ticked : AddsIntents start (clocked.chain.setTime moved.t) := sofar.tick moved.t
  exact ticked.record appended intent

/-- All parts of a planned transfer leave from the source of the wake. -/
theorem hardenedParts_selfIntents {clocked : Clocked} {planned : PlannedTx}
    (intent : planned.SelfIntent) (sofar : AddsIntents start clocked.chain) :
    Yields (hardenedParts cfg agent planned.source clocked planned : Draw Generator Clocked)
      (fun _ next => AddsIntents start next.chain) := by
  refine Silent.bind (partsOf_silent _ _) (fun parts shape => ?_)
  refine yields_foldlM (fun _ (next : Clocked) => AddsIntents start next.chain) _ _ ?_ [] clocked
    sofar
  intro _ clocked sofar part member
  refine Silent.bind (advance_silent clocked cfg) (fun moved advanced => ?_)
  refine yields_bind yields_randomAccount (fun _ feePayer _ => ?_)
  refine advanced_selfIntents sofar advanced.2 (fun memo => ?_)
  obtain ⟨nothing, back⟩ := intent memo
  rw [shape nothing] at member
  exact ⟨List.mem_singleton.mp member, back⟩

theorem hardenedAction_selfIntents {clocked : Clocked} {source : AccountId}
    (sofar : AddsIntents start clocked.chain) :
    Yields (hardenedAction cfg clocked agent source externals : Draw Generator Clocked)
      (fun _ next => AddsIntents start next.chain) := by
  refine Silent.bind (Persona.chooseAction_silent _) (fun kind _ => ?_)
  refine Silent.bind (yields_choose _) (fun counterparty _ => ?_)
  refine Silent.bind (Persona.sampleAmount_silent _) (fun amount _ => ?_)
  refine yields_bind (yields_foldlM (fun _ (next : Clocked) => AddsIntents start next.chain) _ _ ?_
    [] clocked sofar) (fun _ acted sofar => ?_)
  · intro _ clocked sofar planned member
    have parts : Yields (hardenedParts cfg agent planned.source clocked planned :
        Draw Generator Clocked) (fun _ next => AddsIntents start next.chain) :=
      hardenedParts_selfIntents (plan_selfIntent member).1 sofar
    rwa [(plan_shape member).1] at parts
  · refine Silent.bind (numDecoys_silent _) (fun ndec _ => ?_)
    refine yields_foldlM (fun _ (next : Clocked) => AddsIntents start next.chain) _ _ ?_ [] acted
      sofar
    intro _ clocked sofar _ _
    refine Silent.bind (advance_silent clocked cfg) (fun moved advanced => ?_)
    refine Silent.bind (yields_choose _) (fun dest _ => ?_)
    refine Silent.bind (dustAmount_silent _) (fun dust _ => ?_)
    refine yields_bind yields_randomAccount (fun _ feePayer _ => ?_)
    exact advanced_selfIntents sofar advanced.2 (fun memo => absurd memo (by simp))

/-- Rotating only transfers. -/
theorem rotateAccounts_selfIntents {clocked : Clocked} (sofar : AddsIntents start clocked.chain) :
    Yields (rotateAccounts cfg clocked agent : Draw Generator Rotating)
      (fun _ next => AddsIntents start next.clocked.chain) := by
  unfold rotateAccounts
  split
  · refine Yields.mono (yields_pure _) ?_
    rintro _ next ⟨_, rfl⟩
    exact sofar
  · refine Silent.bind (yields_checked _) (fun kmax _ => ?_)
    refine Silent.bind (yields_checked _) (fun kmin _ => ?_)
    refine Silent.bind (sweepCount_silent kmin kmax) (fun k _ => ?_)
    refine Silent.bind (sweepIndices_silent _ k) (fun idxs _ => ?_)
    refine yields_foldlM (fun _ (next : Rotating) => AddsIntents start next.clocked.chain) _ _ ?_
      [] _ sofar
    intro _ rotating sofar subIdx _
    refine Silent.bind (yields_checked _) (fun source _ => ?_)
    refine yields_bind yields_randomAccount (fun _ successor _ => ?_)
    refine Silent.bind (advance_silent rotating.clocked cfg) (fun moved advanced => ?_)
    refine Silent.bind (Persona.sampleAmount_silent _) (fun amount _ => ?_)
    refine yields_bind yields_randomAccount (fun _ feePayer _ => ?_)
    refine yields_bind (advanced_selfIntents sofar advanced.2 (fun memo => absurd memo (by simp)))
      (fun _ recorded sofar => ?_)
    refine Yields.mono (yields_pure _) ?_
    rintro _ next ⟨_, rfl⟩
    exact sofar

/-- Sweeping only transfers. -/
theorem consolidateSweep_selfIntents {clocked : Clocked} (sofar : AddsIntents start clocked.chain) :
    Yields (consolidateSweep cfg clocked agent : Draw Generator Clocked)
      (fun _ next => AddsIntents start next.chain) := by
  unfold consolidateSweep
  split
  · refine Yields.mono (yields_pure _) ?_
    rintro _ next ⟨_, rfl⟩
    exact sofar
  · refine Silent.bind (yields_checked _) (fun kmin _ => ?_)
    refine Silent.bind (sweepCount_silent kmin _) (fun k _ => ?_)
    refine Silent.bind (sweepIndices_silent _ k) (fun idxs _ => ?_)
    refine yields_foldlM (fun _ (next : Clocked) => AddsIntents start next.chain) _ _ ?_ [] _ sofar
    intro _ clocked sofar sub _
    refine Silent.bind (yields_checked _) (fun source _ => ?_)
    refine Silent.bind (advance_silent clocked cfg) (fun moved advanced => ?_)
    refine Silent.bind (Persona.sampleAmount_silent _) (fun amount _ => ?_)
    refine yields_bind yields_randomAccount (fun _ feePayer _ => ?_)
    exact advanced_selfIntents sofar advanced.2 (fun memo => absurd memo (by simp))

theorem performActionHardened_selfIntents {chain : MockChain} (subIdx : Nat)
    (sofar : AddsIntents start chain) :
    Yields (performActionHardened chain agent subIdx externals cfg :
        Draw Generator (MockChain × Agent))
      (fun _ acted => AddsIntents start acted.1) := by
  have maintained : Yields (maintain cfg ⟨chain, chain.now⟩ agent : Draw Generator Rotating)
      (fun _ next => AddsIntents start next.clocked.chain) := by
    unfold maintain
    cases cfg.hardening.rebalance with
    | rotateAccounts => exact rotateAccounts_selfIntents sofar
    | directHub => exact Yields.map (consolidateSweep_selfIntents sofar)
  refine Silent.bind (yields_checked _) (fun source _ => ?_)
  refine Silent.bind yields_random (fun unit _ => ?_)
  split
  · refine yields_bind maintained (fun _ rotated kept => ?_)
    refine Yields.mono (yields_pure _) ?_
    rintro _ acted ⟨_, rfl⟩
    exact kept
  · refine yields_bind (hardenedAction_selfIntents sofar) (fun _ acted kept => ?_)
    refine Yields.mono (yields_pure _) ?_
    rintro _ done ⟨_, rfl⟩
    exact kept

/-- A wake of the naive or the hardened engine only adds self-intents. -/
theorem wake_selfIntents {best : Int} {chain : MockChain} {subIdx : Option Nat}
    (kept : subIdx = none → cfg.mode = .naive) :
    Yields (wake cfg externals best chain agent subIdx : Draw Generator Woken)
      (fun _ woken => AddsIntents chain woken.chain) := by
  cases subIdx with
  | none =>
    have acts : Yields (performAction chain agent externals cfg.mode : Draw Generator MockChain)
        (fun _ next => AddsIntents chain next) := by
      rw [kept rfl]
      exact performAction_naive
    refine yields_bind acts (fun _ acted kept => ?_)
    refine Silent.bind (nextDelaySecs_silent _ _) (fun delay _ => ?_)
    refine Yields.mono (yields_pure _) ?_
    rintro _ woken ⟨_, rfl⟩
    exact kept
  | some k =>
    refine yields_bind (performActionHardened_selfIntents k (Adds.refl chain))
      (fun _ acted kept => ?_)
    refine Silent.bind (yields_checked _) (fun sub _ => ?_)
    refine Silent.bind (nextDelaySecs_silent _ _) (fun delay _ => ?_)
    refine Silent.bind (yields_checked _) (fun held _ => ?_)
    refine Yields.mono (yields_pure _) ?_
    rintro _ woken ⟨_, rfl⟩
    exact kept

end Wakes

/-! ### Runs -/

section Runs

variable {Generator : Type} [Rng Generator] [Libm] {personas : List Persona} {cfg : SimConfig}
  {st : RunState Generator}

/-- The next wake is one of the legacy engine that draws a memo, and another source for it than the
account it goes back to. -/
def RunState.strays (st : RunState Generator) : Bool :=
  match st.heap with
  | [] => false
  | (_, si) :: _ => Option.getD (do
    let entry ← st.sched[si]?
    let agent ← st.agents[entry.agentIdx]?
    if entry.subIdx = none ∧ st.cfg.mode = .cooker then
      Prod.fst <$> drawStray agent st.externals ⟨st.rng, []⟩
    else pure false) false

/-- An event that does not stray only adds self-intents; one that does leaves a memo astray. -/
theorem serve_strays {next : RunState Generator} {ids : List AccountId}
    (served : st.serve = some (next, ids)) :
    (st.strays = false → AddsIntents st.chain next.chain) ∧
      (st.strays = true → ∃ record ∈ next.chain.ledger.records, ¬ record.SelfIntent) := by
  obtain ⟨due, rest, facts⟩ := serve_served served
  obtain ⟨entry, agent, woken, atEntry, found, woke, _, chain, _⟩ := facts.acted
  have decides : st.strays = Option.getD
      (if entry.subIdx = none ∧ st.cfg.mode = .cooker then
        Prod.fst <$> drawStray agent st.externals ⟨st.rng, []⟩
      else some false) false := by
    unfold RunState.strays
    rw [facts.heap]
    show Option.getD (Option.bind st.sched[due.2]? _) false = _
    rw [atEntry]
    show Option.getD (Option.bind st.agents[entry.agentIdx]? _) false = _
    rw [found]
    rfl
  rw [decides, chain]
  by_cases legacy : entry.subIdx = none ∧ st.cfg.mode = .cooker
  · rw [legacy.1] at woke
    obtain ⟨acted, _, ran, scheduled⟩ := bind_eq_some.mp woke
    obtain ⟨delay, _, _, finished⟩ := bind_eq_some.mp scheduled
    obtain ⟨rfl, _⟩ := pure_eq_some.mp finished
    rw [legacy.2] at ran
    obtain ⟨stray, tape, drew, stays, leaves⟩ := performAction_strays ran
    rw [if_pos legacy, drew]
    exact ⟨fun quiet => (stays quiet).ticked, leaves⟩
  · obtain ⟨_, _, kept⟩ := wake_selfIntents (fun single => by
      cases mode : st.cfg.mode with
      | naive => rfl
      | cooker => exact absurd ⟨single, mode⟩ legacy) _ _ _ woke
    rw [if_neg legacy]
    exact ⟨fun _ => kept.ticked, fun impossible => absurd impossible Bool.false_ne_true⟩

omit [Libm] in
/-- The funding post-pass appends transfers. -/
theorem finalizeFunding_transfers {final : RunState Generator} {ledger : Ledger}
    (funded : finalizeFunding final cfg = some ledger) :
    ∃ suffix, ledger.records = final.chain.ledger.records ++ suffix ∧
      ∀ event ∈ suffix, event.kind = .transfer := by
  unfold finalizeFunding at funded
  cases funding : cfg.funding with
  | none =>
    rw [funding] at funded
    exact ⟨[], by rw [← Option.some.inj funded, List.append_nil],
      fun event member => absurd member List.not_mem_nil⟩
  | some fcfg =>
    rw [funding] at funded
    unfold applyFunding at funded
    rw [funding] at funded
    dsimp only at funded
    split at funded
    · exact ⟨[], by rw [← Option.some.inj funded, List.append_nil],
        fun event member => absurd member List.not_mem_nil⟩
    · simp only [Option.bind_eq_bind, Option.bind_eq_some_iff] at funded
      obtain ⟨⟨events, tape⟩, paid, suffix, appended, equal⟩ := funded
      refine ⟨suffix, by rw [← Option.some.inj equal], fun event member => ?_⟩
      rw [fundingEvents_eq] at paid
      obtain ⟨assigned, middle, _, rest⟩ := bind_eq_some.mp paid
      obtain ⟨state, last, looped, finished⟩ := bind_eq_some.mp rest
      obtain ⟨rfl, rfl⟩ := pure_eq_some.mp finished
      obtain ⟨_, _, _, transfers⟩ :=
        fundRecords_silent fcfg _ assigned.1 assigned.2 _ _ _ _ looped
      have same : event.unnumbered ∈
          (state.events.insertionSort fundedBefore).map TxRecord.unnumbered := by
        rw [← (appendEvents_spec appended).1]
        exact List.mem_map_of_mem member
      obtain ⟨topUp, sorted, equal⟩ := List.mem_map.mp same
      have kinds : event.unnumbered.kind = topUp.unnumbered.kind :=
        congrArg TxRecord.kind equal.symm
      exact kinds.trans (transfers topUp ((List.mem_insertionSort fundedBefore).mp sorted))

/-- Every memo in the ledger of a run carries nothing and goes back to its source exactly when no
wake of the run strays. -/
theorem simulate_memos (Generator : Type) [Rng Generator] (fuel : Nat) (personas : List Persona)
    (cfg : SimConfig) (ledger : Ledger)
    (simulated : simulate Generator fuel personas cfg = Outcome.returned ledger) :
    (∀ record ∈ ledger.records, record.kind = .memo →
        record.amount = 0 ∧ record.dest = record.source) ↔
      ∀ built : RunState Generator, buildFresh personas cfg = some built →
        ∀ st ∈ built.boundaries fuel, st.done = false → st.strays = false := by
  obtain ⟨final, ended, funded⟩ := simulate_final fuel simulated
  obtain ⟨suffix, records, transfers⟩ := finalizeFunding_transfers funded
  obtain ⟨built, first, building, _, ran⟩ := finalState_ran fuel ended
  have fresh := buildDrawing_fresh building
  have rebuilt := buildFresh_of_drawing building
  obtain ⟨_, stays, leaves⟩ := runCore_adds EngineSchedule (fun st next ids engine served =>
    ⟨engine.serve served, serve_records engine served, serve_strays served⟩) fuel fresh.engine ran
  constructor
  · intro memos again equal st member due
    obtain rfl := Option.some.inj (rebuilt.symm.trans equal)
    refine Bool.eq_false_of_not_eq_true (fun strays => ?_)
    obtain ⟨record, inFinal, astray⟩ := leaves st member due strays
    exact astray (memos record (records ▸ List.mem_append_left _ inFinal))
  · intro quiet record member memo
    rw [records] at member
    rcases List.mem_append.mp member with base | added
    · rcases (stays (quiet built rebuilt)).added record base with old | intent
      · rw [fresh.chain] at old
        exact absurd old List.not_mem_nil
      · exact intent memo
    · exact absurd ((transfers record added).symm.trans memo) (by simp)

end Runs

/-- A retail user with three accounts. -/
def threeAccounts : Persona := { Persona.retail with numSubaccounts := 3 }

/-- A run whose first wake writes a memo, in either engine. -/
def memoRun : SimConfig :=
  { SimConfig.default with numAgents := 1, numExternal := 6, durationSecs := 13000 }

theorem simulate_memos_memoRun : ∃ ledger,
    simulate Counter 2 [threeAccounts] memoRun = Outcome.returned ledger ∧
      (∃ record ∈ ledger.records, record.kind = .memo) ∧
      ∀ built : RunState Counter, buildFresh [threeAccounts] memoRun = some built →
        ∀ st ∈ built.boundaries 2, st.done = false → st.strays = false := by
  have ran : ((simulate Counter 2 [threeAccounts] memoRun).result?).any (fun ledger =>
      ledger.records.any (fun record => record.kind = .memo) &&
        ledger.records.all (fun record => record.kind = .memo →
          record.amount = 0 ∧ record.dest = record.source)) = true := by decide +kernel
  obtain ⟨ledger, returned, memos⟩ := (Option.any_eq_true _ _).mp ran
  have simulated := Outcome.result?_eq_some.mp returned
  obtain ⟨some, all⟩ := Bool.and_eq_true_iff.mp memos
  obtain ⟨record, member, kind⟩ := List.any_eq_true.mp some
  exact ⟨ledger, simulated, ⟨record, member, of_decide_eq_true kind⟩,
    (simulate_memos Counter 2 [threeAccounts] memoRun ledger simulated).mp fun record member =>
      of_decide_eq_true (List.all_eq_true.mp all record member)⟩

/-- A memo of the legacy engine leaves from another account than it goes back to. -/
theorem legacy_memo_astray : ∃ ledger,
    simulate Counter 2 [threeAccounts] { memoRun with hardenTiming := false } =
      Outcome.returned ledger ∧
    ∃ record ∈ ledger.records, record.kind = .memo ∧ record.dest ≠ record.source := by
  have ran : ((simulate Counter 2 [threeAccounts]
      { memoRun with hardenTiming := false }).result?).any (fun ledger =>
        ledger.records.any (fun record =>
          record.kind = .memo && record.dest ≠ record.source)) = true := by decide +kernel
  obtain ⟨ledger, returned, memo⟩ := (Option.any_eq_true _ _).mp ran
  obtain ⟨record, member, astray⟩ := List.any_eq_true.mp memo
  obtain ⟨kind, differs⟩ := Bool.and_eq_true_iff.mp astray
  exact ⟨ledger, Outcome.result?_eq_some.mp returned, record, member, of_decide_eq_true kind,
    of_decide_eq_true differs⟩

end AccountCooker
