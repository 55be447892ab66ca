/-
This file says once what a wake can write. `Emission` has one constructor for
each kind of record the three engines make; a `Move` stamps and appends one such
record, and every wake is a sequence of moves. The invariants of a run are
proved per kind of record from here on, and never unfold an engine again.

The states of these relations carry the identifiers drawn so far. They are
bookkeeping: no engine reads them, and a move appends exactly what it drew.
-/

import Mathlib
import AccountCooker.Fleet

namespace AccountCooker

open Draw

/-! ### Kinds of records -/

/-- One record of an agent: its transfer, its fee payer, the agent after it, and the identifiers
that were drawn for it. -/
inductive Emission (cfg : SimConfig) (externals : List AccountId) (agent : Agent) :
    PlannedTx → AccountId → Agent → List AccountId → Prop
  | naivePay (source dest : AccountId) (amount : Nat) (kind : ActionKind)
    (naive : cfg.mode = .naive) (own : source ∈ agent.subaccounts)
    (outward : dest ∈ externals ∨ dest = source) :
    Emission cfg externals agent ⟨source, dest, amount, kind⟩ agent.main agent []
  | naiveConsolidate (source : AccountId) (amount : Nat) (naive : cfg.mode = .naive)
    (own : source ∈ agent.subaccounts) (notMain : source ≠ agent.main) :
    Emission cfg externals agent ⟨source, agent.main, amount, .consolidate⟩ agent.main agent []
  | legacyPay (source dest : AccountId) (amount : Nat) (kind : ActionKind) (feePayer : AccountId)
    (cooker : cfg.mode = .cooker) (legacy : cfg.hardened = false)
    (own : source ∈ agent.subaccounts)
    (outward : dest ∈ externals ∨ dest ∈ agent.subaccounts ∧ amount = 0) :
    Emission cfg externals agent ⟨source, dest, amount, kind⟩ feePayer agent [feePayer]
  | legacyChurn (source churn : AccountId) (amount : Nat) (feePayer : AccountId)
    (cooker : cfg.mode = .cooker) (legacy : cfg.hardened = false)
    (own : source ∈ agent.subaccounts) :
    Emission cfg externals agent ⟨source, churn, amount, .transfer⟩ feePayer agent
      [churn, feePayer]
  | pay (source dest : AccountId) (amount : Nat) (kind : ActionKind) (feePayer : AccountId)
    (hardened : cfg.hardened = true) (own : source ∈ agent.subaccounts)
    (outward : dest ∈ externals ∨ dest = source ∧ amount = 0) :
    Emission cfg externals agent ⟨source, dest, amount, kind⟩ feePayer agent [feePayer]
  | rotate (subIdx : Nat) (source successor : AccountId) (amount : Nat) (feePayer : AccountId)
    (hardened : cfg.hardened = true) (strategy : cfg.hardening.rebalance = .rotateAccounts)
    (operational : 0 < subIdx) (found : agent.subaccounts[subIdx]? = some source)
    (positive : 1 ≤ amount) :
    Emission cfg externals agent ⟨source, successor, amount, .transfer⟩ feePayer
      { agent with subaccounts := agent.subaccounts.set subIdx successor } [successor, feePayer]
  | sweep (subIdx : Nat) (source : AccountId) (amount : Nat) (feePayer : AccountId)
    (hardened : cfg.hardened = true) (strategy : cfg.hardening.rebalance = .directHub)
    (operational : 0 < subIdx) (found : agent.subaccounts[subIdx]? = some source) :
    Emission cfg externals agent ⟨source, agent.main, amount, .transfer⟩ feePayer agent [feePayer]

/-- When a record may be stamped: later than the clock in the hardened engine, else at the
clock. -/
def SimConfig.Timely (cfg : SimConfig) (clock ts : Int) : Prop :=
  if cfg.hardened then clock < ts else ts = clock

/-- The chain and the acting agent within a wake, and the identifiers drawn so far. -/
structure Acting where
  chain : MockChain
  agent : Agent
  drawn : List AccountId

/-- One record. -/
inductive Move (cfg : SimConfig) (externals : List AccountId) : Acting → Acting → Prop
  | mk (chain : MockChain) (agent : Agent) (drawn : List AccountId) (ts : Int) (tx : PlannedTx)
    (feePayer : AccountId) (after : Agent) (ids : List AccountId) (recorded : MockChain)
    (timely : cfg.Timely chain.clock ts)
    (emission : Emission cfg externals agent tx feePayer after ids)
    (appended : (chain.setTime ts).record tx feePayer (some agent.id) = some recorded) :
    Move cfg externals ⟨chain, agent, drawn⟩ ⟨recorded, after, drawn ++ ids⟩

/-- A sequence of records. -/
abbrev Moves (cfg : SimConfig) (externals : List AccountId) :=
  Relation.ReflTransGen (Move cfg externals)

theorem record_clock {chain recorded : MockChain} {tx : PlannedTx} {feePayer : AccountId}
    {operator : Option AgentId} (appended : chain.record tx feePayer operator = some recorded) :
    recorded.clock = chain.clock := by
  simp only [MockChain.record, Option.bind_eq_bind, Option.bind_eq_some_iff] at appended
  obtain ⟨sig, _, slot, _, equal⟩ := appended
  rw [← Option.some.inj equal]

theorem setTime_clock (chain : MockChain) : chain.setTime chain.clock = chain := rfl

/-! ### Records of the naive and legacy wakes -/

section Wakes

variable {Generator : Type} [Rng Generator] {cfg : SimConfig} {externals : List AccountId}
  {start : Acting} {agent : Agent}

/-- Nothing splits into one part of nothing. -/
theorem partsOf_silent (amount : Nat) (policy : SplitPolicy) :
    Silent (partsOf amount policy : Draw Generator (List Nat))
      (fun parts => amount = 0 → parts = [0]) := by
  refine Silent.bind (splitAmount_silent amount policy) (fun parts shape => ?_)
  refine (yields_pure _).mono ?_
  rintro kept rfl zero
  rw [shape zero, zero]
  rfl

/-- A record at the clock of the chain is one move of the naive and the legacy engine. -/
theorem unhardened_record {chain recorded : MockChain} {drawn ids : List AccountId}
    {tx : PlannedTx} {feePayer : AccountId} (unhardened : cfg.hardened = false)
    (reached : Moves cfg externals start ⟨chain, agent, drawn⟩)
    (emission : Emission cfg externals agent tx feePayer agent ids)
    (appended : chain.record tx feePayer (some agent.id) = some recorded) :
    Moves cfg externals start ⟨recorded, agent, drawn ++ ids⟩ := by
  refine reached.tail (Move.mk chain agent drawn chain.clock tx feePayer agent ids recorded
    ?_ emission ?_)
  · unfold SimConfig.Timely
    rw [unhardened]
    exact rfl
  · rw [setTime_clock]
    exact appended

theorem naive_unhardened (naive : cfg.mode = .naive) : cfg.hardened = false := by
  unfold SimConfig.hardened
  rw [naive]
  rfl

theorem emitPart_moves {chain : MockChain} {drawn : List AccountId} {planned : PlannedTx}
    {part : Nat} (cooker : cfg.mode = .cooker) (legacy : cfg.hardened = false)
    (outward : planned.dest ∈ externals ∨ planned.dest ∈ agent.subaccounts ∧ part = 0)
    (reached : Moves cfg externals start ⟨chain, agent, drawn⟩) :
    Yields (emitPart agent planned chain part : Draw Generator MockChain)
      (fun ids next => Moves cfg externals start ⟨next, agent, drawn ++ ids⟩) := by
  refine yields_bind yields_randomAccount ?_
  rintro _ feePayer rfl
  refine Silent.bind (yields_choose _) (fun source own => ?_)
  refine Yields.mono (yields_checked _) ?_
  rintro _ next ⟨rfl, appended⟩
  rw [List.append_nil]
  exact unhardened_record legacy reached
    (Emission.legacyPay source planned.dest part planned.kind feePayer cooker legacy own outward)
    appended

/-- One planned transfer of a naive or legacy wake. -/
theorem emitWithNoise_moves {chain : MockChain} {drawn : List AccountId} {planned : PlannedTx}
    (unhardened : cfg.hardened = false) (own : planned.source ∈ agent.subaccounts)
    (outward : planned.dest ∈ externals ∨ planned.dest = planned.source ∧ planned.amount = 0)
    (reached : Moves cfg externals start ⟨chain, agent, drawn⟩) :
    Yields (emitWithNoise agent cfg.mode chain planned : Draw Generator MockChain)
      (fun ids next => Moves cfg externals start ⟨next, agent, drawn ++ ids⟩) := by
  cases mode : cfg.mode with
  | naive =>
    refine Yields.mono (yields_checked _) ?_
    rintro _ next ⟨rfl, appended⟩
    exact unhardened_record unhardened reached
      (Emission.naivePay planned.source planned.dest planned.amount planned.kind mode own
        (outward.imp_right And.left)) appended
  | cooker =>
    refine Silent.bind (partsOf_silent _ _) (fun parts shape => ?_)
    refine yields_foldlM
      (fun ids next => Moves cfg externals start ⟨next, agent, drawn ++ ids⟩) _ _ ?_ [] chain
      (by rwa [List.append_nil])
    intro ids next holds part member
    refine (emitPart_moves mode unhardened ?_ holds).mono (fun more last concluded => ?_)
    · refine outward.imp_right (fun back => ⟨by rw [back.1]; exact own, ?_⟩)
      rw [shape back.2] at member
      exact List.mem_singleton.mp member
    · rwa [List.append_assoc] at concluded

theorem consolidateInto_moves {chain : MockChain} {drawn : List AccountId} {sub : AccountId}
    (naive : cfg.mode = .naive) (own : sub ∈ agent.subaccounts)
    (reached : Moves cfg externals start ⟨chain, agent, drawn⟩) :
    Yields (consolidateInto agent chain sub : Draw Generator MockChain)
      (fun ids next => Moves cfg externals start ⟨next, agent, drawn ++ ids⟩) := by
  unfold consolidateInto
  split
  · refine Yields.mono (yields_pure _) ?_
    rintro _ next ⟨rfl, rfl⟩
    rwa [List.append_nil]
  · rename_i notMain
    refine Silent.bind (yields_randomRangeNat _ _ _) (fun amount _ => ?_)
    refine Yields.mono (yields_checked _) ?_
    rintro _ next ⟨rfl, appended⟩
    exact unhardened_record (naive_unhardened naive) reached
      (Emission.naiveConsolidate sub amount naive own notMain) appended

theorem maybeRebalance_moves {chain : MockChain} {drawn : List AccountId}
    (unhardened : cfg.hardened = false)
    (reached : Moves cfg externals start ⟨chain, agent, drawn⟩) :
    Yields (maybeRebalance chain agent cfg.mode : Draw Generator MockChain)
      (fun ids next => Moves cfg externals start ⟨next, agent, drawn ++ ids⟩) := by
  have idle : Yields (pure chain : Draw Generator MockChain)
      (fun ids next => Moves cfg externals start ⟨next, agent, drawn ++ ids⟩) := by
    refine Yields.mono (yields_pure _) ?_
    rintro _ next ⟨rfl, rfl⟩
    rwa [List.append_nil]
  cases mode : cfg.mode with
  | naive =>
    refine Silent.bind yields_random (fun unit _ => ?_)
    split
    · refine yields_foldlM
        (fun ids next => Moves cfg externals start ⟨next, agent, drawn ++ ids⟩) _ _ ?_ [] chain
        (by rwa [List.append_nil])
      intro ids next holds sub member
      refine (consolidateInto_moves mode member holds).mono (fun more last concluded => ?_)
      rwa [List.append_assoc] at concluded
    · exact idle
  | cooker =>
    refine Silent.bind yields_random (fun unit _ => ?_)
    split
    · refine Silent.bind (yields_choose _) (fun source own => ?_)
      refine yields_bind yields_randomAccount ?_
      rintro _ churn rfl
      refine Silent.bind (yields_randomRangeNat _ _ _) (fun amount _ => ?_)
      refine yields_bind yields_randomAccount ?_
      rintro _ feePayer rfl
      refine Yields.mono (yields_checked _) ?_
      rintro _ next ⟨rfl, appended⟩
      exact unhardened_record unhardened reached
        (Emission.legacyChurn source churn amount feePayer mode unhardened own) appended
    · exact idle

/-! ### Clocks and shuffles of the hardened wakes -/

/-- A hardened wake has reached this point, with its clock in step with the chain's. -/
structure Reached (cfg : SimConfig) (externals : List AccountId) (start : Acting)
    (clocked : Clocked) (agent : Agent) (drawn : List AccountId) : Prop where
  moves : Moves cfg externals start ⟨clocked.chain, agent, drawn⟩
  synced : clocked.t = clocked.chain.clock

omit [Rng Generator] in
/-- Recording on an advanced clock is one move of the hardened engine. -/
theorem advanced_record {clocked moved : Clocked} {after : Agent} {drawn ids : List AccountId}
    {tx : PlannedTx} {feePayer : AccountId} (hardened : cfg.hardened = true)
    (reached : Reached cfg externals start clocked agent drawn)
    (advanced : clocked.t < moved.t ∧ moved.chain = clocked.chain.setTime moved.t)
    (emission : Emission cfg externals agent tx feePayer after ids) :
    Silent (moved.record agent tx feePayer : Draw Generator Clocked)
      (fun next => Reached cfg externals start next after (drawn ++ ids)) := by
  refine Silent.bind (yields_checked _) (fun recorded appended => ?_)
  refine (yields_pure _).mono ?_
  rintro next rfl
  have clock := record_clock appended
  rw [advanced.2] at appended clock
  refine ⟨reached.moves.tail (Move.mk clocked.chain agent drawn moved.t tx feePayer after ids
    recorded ?_ emission appended), clock.symm⟩
  unfold SimConfig.Timely
  rw [hardened, ← reached.synced]
  exact advanced.1

theorem mem_swap {Item : Type} {items swapped : List Item} {i j : Nat} {item : Item}
    (exchanged : swap items i j = some swapped) (member : item ∈ swapped) : item ∈ items := by
  simp only [swap, Option.bind_eq_bind, Option.bind_eq_some_iff] at exchanged
  obtain ⟨first, atFirst, second, atSecond, equal⟩ := exchanged
  rw [← Option.some.inj equal] at member
  rcases List.mem_or_eq_of_mem_set member with inner | rfl
  · rcases List.mem_or_eq_of_mem_set inner with old | rfl
    · exact old
    · exact List.mem_of_getElem? atSecond
  · exact List.mem_of_getElem? atFirst

theorem sweepCount_silent (kmin kmax : Nat) :
    Silent (sweepCount kmin kmax : Draw Generator Nat) (fun _ => True) := by
  unfold sweepCount
  split
  · exact (yields_pure _).mono (fun _ _ => trivial)
  · exact (yields_randomRangeNat _ _ _).mono (fun _ _ => trivial)

/-- The shuffle only ever picks operational indices. -/
theorem sweepIndices_silent (n k : Nat) :
    Silent (sweepIndices n k : Draw Generator (List Nat)) (fun idxs => ∀ idx ∈ idxs, 0 < idx) := by
  have shuffled : Silent
      ((List.range k).foldlM (shuffleStep (n - 1)) (List.range' 1 (n - 1)) :
        Draw Generator (List Nat)) (fun idxs => ∀ idx ∈ idxs, 0 < idx) := by
    refine Yields.mono (yields_foldlM
      (fun ids idxs => ids = [] ∧ ∀ idx ∈ idxs, 0 < idx) _ _ ?_ [] _ ⟨rfl, ?_⟩)
      (fun ids idxs both => both)
    · rintro ids idxs ⟨rfl, positive⟩ i _
      refine Silent.bind (yields_checked _) (fun left _ => ?_)
      refine Silent.bind (yields_randomIndex left) (fun offset _ => ?_)
      exact (yields_checked _).mono
        (fun swapped exchanged idx member => positive idx (mem_swap exchanged member))
    · intro idx member
      exact (List.mem_range'_1.mp member).1
  refine Silent.bind shuffled (fun idxs positive => ?_)
  refine (yields_pure _).mono ?_
  rintro taken rfl idx member
  exact positive idx (List.mem_of_mem_take member)

/-! ### Wakes are moves -/

variable [Libm]

theorem emitDecoys_moves {chain : MockChain} {drawn : List AccountId}
    (unhardened : cfg.hardened = false)
    (reached : Moves cfg externals start ⟨chain, agent, drawn⟩) :
    Yields (emitDecoys agent externals cfg.mode chain : Draw Generator MockChain)
      (fun ids next => Moves cfg externals start ⟨next, agent, drawn ++ ids⟩) := by
  cases mode : cfg.mode with
  | naive =>
    refine Yields.mono (yields_pure _) ?_
    rintro _ next ⟨rfl, rfl⟩
    rwa [List.append_nil]
  | cooker =>
    refine Silent.bind (numDecoys_silent _) (fun n _ => ?_)
    refine yields_foldlM
      (fun ids next => Moves cfg externals start ⟨next, agent, drawn ++ ids⟩) _ _ ?_ [] chain
      (by rwa [List.append_nil])
    intro ids next holds _ _
    refine Silent.bind (yields_choose _) (fun source own => ?_)
    refine Silent.bind (yields_choose _) (fun dest outside => ?_)
    refine Silent.bind (dustAmount_silent _) (fun dust _ => ?_)
    rw [← mode]
    refine (emitWithNoise_moves unhardened own (Or.inl outside) holds).mono
      (fun more last concluded => ?_)
    rwa [List.append_assoc] at concluded

/-- A wake of the naive or the legacy engine is a sequence of moves. -/
theorem performAction_moves {chain : MockChain} {drawn : List AccountId}
    (unhardened : cfg.hardened = false)
    (reached : Moves cfg externals start ⟨chain, agent, drawn⟩) :
    Yields (performAction chain agent externals cfg.mode : Draw Generator MockChain)
      (fun ids next => Moves cfg externals start ⟨next, agent, drawn ++ ids⟩) := by
  refine Silent.bind (Persona.chooseAction_silent _) (fun kind _ => ?_)
  refine Silent.bind (yields_choose _) (fun source own => ?_)
  refine Silent.bind (yields_choose _) (fun counterparty outside => ?_)
  refine Silent.bind (Persona.sampleAmount_silent _) (fun amount _ => ?_)
  refine yields_bind (yields_foldlM
    (fun ids next => Moves cfg externals start ⟨next, agent, drawn ++ ids⟩) _ _ ?_ [] chain
    (by rwa [List.append_nil])) ?_
  · intro ids next holds planned member
    obtain ⟨from', toward⟩ := plan_shape member
    refine (emitWithNoise_moves unhardened (by rw [from']; exact own) ?_ holds).mono
      (fun more last concluded => ?_)
    · rcases toward with outward | ⟨back, nothing⟩
      · exact Or.inl (by rw [outward]; exact outside)
      · exact Or.inr ⟨back.trans from'.symm, nothing⟩
    · rwa [List.append_assoc] at concluded
  · intro ids acted holds
    refine yields_bind (emitDecoys_moves unhardened holds) (fun more decoyed later => ?_)
    refine (maybeRebalance_moves unhardened later).mono (fun last final concluded => ?_)
    simpa only [List.nil_append, List.append_assoc] using concluded

theorem intraGap_silent (cfg : SimConfig) :
    Silent (intraGap cfg : Draw Generator Int) (fun gap => 1 ≤ gap) := by
  refine Silent.bind yields_random (fun unit _ => ?_)
  refine (yields_pure _).mono ?_
  rintro gap rfl
  exact F64.one_le_toI64_max_one _

theorem advance_silent (clocked : Clocked) (cfg : SimConfig) :
    Silent (clocked.advance cfg : Draw Generator Clocked)
      (fun next => clocked.t < next.t ∧ next.chain = clocked.chain.setTime next.t) := by
  refine Silent.bind (intraGap_silent cfg) (fun gap positive => ?_)
  refine Silent.bind (yields_checked _) (fun t checked => ?_)
  refine (yields_pure _).mono ?_
  rintro next rfl
  refine ⟨?_, rfl⟩
  rw [← (checkedI64_eq_some.mp checked).2]
  exact lt_add_of_pos_right _ positive

theorem hardenedPart_moves {clocked : Clocked} {drawn : List AccountId} {source : AccountId}
    {planned : PlannedTx} {part : Nat} (hardened : cfg.hardened = true)
    (own : source ∈ agent.subaccounts)
    (outward : planned.dest ∈ externals ∨ planned.dest = source ∧ part = 0)
    (reached : Reached cfg externals start clocked agent drawn) :
    Yields (hardenedPart cfg agent source planned clocked part : Draw Generator Clocked)
      (fun ids next => Reached cfg externals start next agent (drawn ++ ids)) := by
  refine Silent.bind (advance_silent clocked cfg) (fun moved advanced => ?_)
  refine yields_bind yields_randomAccount ?_
  rintro _ feePayer rfl
  refine Yields.mono (advanced_record hardened reached advanced
    (Emission.pay source planned.dest part planned.kind feePayer hardened own outward)) ?_
  rintro _ next ⟨rfl, holds⟩
  exact holds

theorem hardenedParts_moves {clocked : Clocked} {drawn : List AccountId} {source : AccountId}
    {planned : PlannedTx} (hardened : cfg.hardened = true) (own : source ∈ agent.subaccounts)
    (outward : planned.dest ∈ externals ∨ planned.dest = source ∧ planned.amount = 0)
    (reached : Reached cfg externals start clocked agent drawn) :
    Yields (hardenedParts cfg agent source clocked planned : Draw Generator Clocked)
      (fun ids next => Reached cfg externals start next agent (drawn ++ ids)) := by
  refine Silent.bind (partsOf_silent _ _) (fun parts shape => ?_)
  refine yields_foldlM
    (fun ids next => Reached cfg externals start next agent (drawn ++ ids)) _ _ ?_ [] clocked
    (by rwa [List.append_nil])
  intro ids next holds part member
  refine (hardenedPart_moves hardened own ?_ holds).mono (fun more last concluded => ?_)
  · refine outward.imp_right (fun back => ⟨back.1, ?_⟩)
    rw [shape back.2] at member
    exact List.mem_singleton.mp member
  · rwa [List.append_assoc] at concluded

theorem hardenedDecoy_moves {clocked : Clocked} {drawn : List AccountId} {source : AccountId}
    (round : Nat) (hardened : cfg.hardened = true) (own : source ∈ agent.subaccounts)
    (reached : Reached cfg externals start clocked agent drawn) :
    Yields (hardenedDecoy cfg agent source externals clocked round : Draw Generator Clocked)
      (fun ids next => Reached cfg externals start next agent (drawn ++ ids)) := by
  refine Silent.bind (advance_silent clocked cfg) (fun moved advanced => ?_)
  refine Silent.bind (yields_choose _) (fun dest outside => ?_)
  refine Silent.bind (dustAmount_silent _) (fun dust _ => ?_)
  refine yields_bind yields_randomAccount ?_
  rintro _ feePayer rfl
  refine Yields.mono (advanced_record hardened reached advanced
    (Emission.pay source dest dust .dust feePayer hardened own (Or.inl outside))) ?_
  rintro _ next ⟨rfl, holds⟩
  exact holds

theorem hardenedAction_moves {clocked : Clocked} {drawn : List AccountId} {source : AccountId}
    (hardened : cfg.hardened = true) (own : source ∈ agent.subaccounts)
    (reached : Reached cfg externals start clocked agent drawn) :
    Yields (hardenedAction cfg clocked agent source externals : Draw Generator Clocked)
      (fun ids next => Reached cfg externals start next agent (drawn ++ ids)) := by
  refine Silent.bind (Persona.chooseAction_silent _) (fun kind _ => ?_)
  refine Silent.bind (yields_choose _) (fun counterparty outside => ?_)
  refine Silent.bind (Persona.sampleAmount_silent _) (fun amount _ => ?_)
  refine yields_bind (yields_foldlM
    (fun ids next => Reached cfg externals start next agent (drawn ++ ids)) _ _ ?_ [] clocked
    (by rwa [List.append_nil])) ?_
  · intro ids next holds planned member
    refine (hardenedParts_moves hardened own ?_ holds).mono (fun more last concluded => ?_)
    · exact (plan_shape member).2.imp_left (fun outward => by rw [outward]; exact outside)
    · rwa [List.append_assoc] at concluded
  · intro ids acted holds
    refine Silent.bind (numDecoys_silent _) (fun ndec _ => ?_)
    refine (yields_foldlM
      (fun more next => Reached cfg externals start next agent (drawn ++ ids ++ more)) _ _ ?_ []
      acted (by rwa [List.append_nil])).mono (fun more last concluded => ?_)
    · intro more next later round _
      refine (hardenedDecoy_moves round hardened own later).mono (fun last final concluded => ?_)
      rwa [List.append_assoc] at concluded
    · simpa only [List.nil_append, List.append_assoc] using concluded

theorem rotateOne_moves {rotating : Rotating} {drawn : List AccountId} {subIdx : Nat}
    (hardened : cfg.hardened = true) (strategy : cfg.hardening.rebalance = .rotateAccounts)
    (operational : 0 < subIdx)
    (reached : Reached cfg externals start rotating.clocked rotating.agent drawn) :
    Yields (rotateOne cfg rotating subIdx : Draw Generator Rotating)
      (fun ids next => Reached cfg externals start next.clocked next.agent (drawn ++ ids)) := by
  refine Silent.bind (yields_checked _) (fun source found => ?_)
  refine yields_bind yields_randomAccount ?_
  rintro _ successor rfl
  refine Silent.bind (advance_silent rotating.clocked cfg) (fun moved advanced => ?_)
  refine Silent.bind (Persona.sampleAmount_silent _) (fun amount positive => ?_)
  refine yields_bind yields_randomAccount ?_
  rintro _ feePayer rfl
  refine Silent.bind (advanced_record hardened reached advanced
    (Emission.rotate subIdx source successor amount feePayer hardened strategy operational found
      positive)) (fun recorded holds => ?_)
  refine Yields.mono (yields_pure _) ?_
  rintro _ next ⟨rfl, rfl⟩
  exact holds

theorem rotateAccounts_moves {clocked : Clocked} {drawn : List AccountId}
    (hardened : cfg.hardened = true) (strategy : cfg.hardening.rebalance = .rotateAccounts)
    (reached : Reached cfg externals start clocked agent drawn) :
    Yields (rotateAccounts cfg clocked agent : Draw Generator Rotating)
      (fun ids next => Reached cfg externals start next.clocked next.agent (drawn ++ ids)) := by
  unfold rotateAccounts
  split
  · refine Yields.mono (yields_pure _) ?_
    rintro _ next ⟨rfl, rfl⟩
    rwa [List.append_nil]
  · refine Silent.bind (yields_checked _) (fun kmax _ => ?_)
    refine Silent.bind (yields_checked _) (fun kmin _ => ?_)
    refine Silent.bind (sweepCount_silent kmin kmax) (fun k _ => ?_)
    refine Silent.bind (sweepIndices_silent _ k) (fun idxs positive => ?_)
    refine yields_foldlM (fun ids (next : Rotating) =>
      Reached cfg externals start next.clocked next.agent (drawn ++ ids)) _ _ ?_ [] _
      (by rwa [List.append_nil])
    intro ids next holds subIdx member
    refine (rotateOne_moves hardened strategy (positive subIdx member) holds).mono
      (fun more last concluded => ?_)
    rwa [List.append_assoc] at concluded

theorem sweepOne_moves {clocked : Clocked} {drawn : List AccountId} {sub : Nat}
    (hardened : cfg.hardened = true) (strategy : cfg.hardening.rebalance = .directHub)
    (operational : 0 < sub) (reached : Reached cfg externals start clocked agent drawn) :
    Yields (sweepOne cfg agent clocked sub : Draw Generator Clocked)
      (fun ids next => Reached cfg externals start next agent (drawn ++ ids)) := by
  refine Silent.bind (yields_checked _) (fun source found => ?_)
  refine Silent.bind (advance_silent clocked cfg) (fun moved advanced => ?_)
  refine Silent.bind (Persona.sampleAmount_silent _) (fun amount _ => ?_)
  refine yields_bind yields_randomAccount ?_
  rintro _ feePayer rfl
  refine Yields.mono (advanced_record hardened reached advanced
    (Emission.sweep sub source amount feePayer hardened strategy operational found)) ?_
  rintro _ next ⟨rfl, holds⟩
  exact holds

theorem consolidateSweep_moves {clocked : Clocked} {drawn : List AccountId}
    (hardened : cfg.hardened = true) (strategy : cfg.hardening.rebalance = .directHub)
    (reached : Reached cfg externals start clocked agent drawn) :
    Yields (consolidateSweep cfg clocked agent : Draw Generator Clocked)
      (fun ids next => Reached cfg externals start next agent (drawn ++ ids)) := by
  unfold consolidateSweep
  split
  · refine Yields.mono (yields_pure _) ?_
    rintro _ next ⟨rfl, rfl⟩
    rwa [List.append_nil]
  · refine Silent.bind (yields_checked _) (fun kmin _ => ?_)
    refine Silent.bind (sweepCount_silent kmin _) (fun k _ => ?_)
    refine Silent.bind (sweepIndices_silent _ k) (fun idxs positive => ?_)
    refine yields_foldlM
      (fun ids next => Reached cfg externals start next agent (drawn ++ ids)) _ _ ?_ [] _
      (by rwa [List.append_nil])
    intro ids next holds sub member
    refine (sweepOne_moves hardened strategy (positive sub member) holds).mono
      (fun more last concluded => ?_)
    rwa [List.append_assoc] at concluded

theorem maintain_moves {clocked : Clocked} {drawn : List AccountId}
    (hardened : cfg.hardened = true)
    (reached : Reached cfg externals start clocked agent drawn) :
    Yields (maintain cfg clocked agent : Draw Generator Rotating)
      (fun ids next => Reached cfg externals start next.clocked next.agent (drawn ++ ids)) := by
  unfold maintain
  cases strategy : cfg.hardening.rebalance with
  | rotateAccounts => exact rotateAccounts_moves hardened strategy reached
  | directHub =>
    exact Yields.map (consolidateSweep_moves hardened strategy reached)

/-- A wake of the hardened engine is a sequence of moves. -/
theorem performActionHardened_moves {chain : MockChain} {drawn : List AccountId} (subIdx : Nat)
    (hardened : cfg.hardened = true)
    (reached : Moves cfg externals start ⟨chain, agent, drawn⟩) :
    Yields (performActionHardened chain agent subIdx externals cfg :
        Draw Generator (MockChain × Agent))
      (fun ids acted => Moves cfg externals start ⟨acted.1, acted.2, drawn ++ ids⟩) := by
  have clocked : Reached cfg externals start ⟨chain, chain.now⟩ agent drawn := ⟨reached, rfl⟩
  refine Silent.bind (yields_checked _) (fun source found => ?_)
  refine Silent.bind yields_random (fun unit _ => ?_)
  split
  · refine yields_bind (maintain_moves hardened clocked) (fun ids rotated holds => ?_)
    refine Yields.mono (yields_pure _) ?_
    rintro _ acted ⟨rfl, rfl⟩
    rw [List.append_nil]
    exact holds.moves
  · refine yields_bind (hardenedAction_moves hardened (List.mem_of_getElem? found) clocked)
      (fun ids acted holds => ?_)
    refine Yields.mono (yields_pure _) ?_
    rintro _ acted ⟨rfl, rfl⟩
    rw [List.append_nil]
    exact holds.moves

end Wakes

end AccountCooker
