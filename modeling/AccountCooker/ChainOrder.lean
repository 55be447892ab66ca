/-
This file proves the order an observer of an unfunded run sees. Wakes of
different agents overlap in logical time, and a wake writes several records; the
clock of the chain is only ever set forward, and every record is stamped with
it. So signatures, slots and positions agree, timestamps never fall, and none
is ahead of the clock. The hardened engine moves the clock before each record,
so its timestamps rise strictly and every record is a burst of its own.
-/

import Mathlib
import AccountCooker.Boundary
import AccountCooker.Grouping

namespace AccountCooker

/-! ### The appended record -/

/-- The record a chain appends. -/
def MockChain.stamp (chain : MockChain) (tx : PlannedTx) (feePayer : AccountId)
    (operator : Option AgentId) : TxRecord where
  sig := chain.sig + 1
  slot := chain.slot + 1
  ts := chain.clock
  feePayer := feePayer
  source := tx.source
  dest := tx.dest
  amount := tx.amount
  kind := tx.kind
  operator := operator

/-- Recording appends the stamped record and counts it. -/
theorem record_eq {chain recorded : MockChain} {tx : PlannedTx} {feePayer : AccountId}
    {operator : Option AgentId} (appended : chain.record tx feePayer operator = some recorded) :
    recorded = { chain with
      sig := chain.sig + 1
      slot := chain.slot + 1
      ledger := ⟨chain.ledger.records ++ [chain.stamp tx feePayer operator]⟩ } := by
  simp only [MockChain.record, Option.bind_eq_bind, Option.bind_eq_some_iff] at appended
  obtain ⟨sig, countedSig, slot, countedSlot, equal⟩ := appended
  rw [← (checkedU64_eq_some.mp countedSig).2, ← (checkedU64_eq_some.mp countedSlot).2] at equal
  exact (Option.some.inj equal).symm

/-! ### The invariant -/

/-- The counters agree with the records, and the records with their positions. -/
structure Numbered (chain : MockChain) : Prop where
  sig : chain.sig = chain.ledger.records.length
  slot : chain.slot = chain.ledger.records.length
  record : ∀ index record, chain.ledger.records[index]? = some record →
    record.sig = index + 1 ∧ record.slot = index + 1

/-- Timestamps never fall and are never ahead of the clock; in the hardened engine they rise. -/
structure Timed (cfg : SimConfig) (chain : MockChain) : Prop where
  bounded : ∀ record ∈ chain.ledger.records, record.ts ≤ chain.clock
  monotone : chain.ledger.records.Pairwise (fun first second => first.ts ≤ second.ts)
  strict : cfg.hardened = true →
    chain.ledger.records.Pairwise (fun first second => first.ts < second.ts)

theorem record_numbered {chain recorded : MockChain} {tx : PlannedTx} {feePayer : AccountId}
    {operator : Option AgentId} (numbered : Numbered chain)
    (appended : chain.record tx feePayer operator = some recorded) : Numbered recorded := by
  rw [record_eq appended]
  refine ⟨?_, ?_, fun index record found => ?_⟩
  · rw [List.length_append, numbered.sig]
    rfl
  · rw [List.length_append, numbered.slot]
    rfl
  · rcases lt_or_ge index chain.ledger.records.length with old | new
    · rw [List.getElem?_append_left old] at found
      exact numbered.record index record found
    · rw [List.getElem?_append_right new] at found
      obtain ⟨bound, equal⟩ := List.getElem?_eq_some_iff.mp found
      have last : index = chain.ledger.records.length := by
        rw [List.length_singleton] at bound
        omega
      rw [List.getElem_singleton] at equal
      rw [← equal, last, ← numbered.sig]
      exact ⟨rfl, by rw [numbered.sig, ← numbered.slot]; rfl⟩

theorem record_timed {cfg : SimConfig} {chain recorded : MockChain} {ts : Int} {tx : PlannedTx}
    {feePayer : AccountId} {operator : Option AgentId} (timed : Timed cfg chain)
    (timely : cfg.Timely chain.clock ts)
    (appended : (chain.setTime ts).record tx feePayer operator = some recorded) :
    Timed cfg recorded := by
  have later : chain.clock ≤ ts := by
    unfold SimConfig.Timely at timely
    split at timely
    · exact timely.le
    · exact timely.ge
  rw [record_eq appended]
  refine ⟨fun record member => ?_, ?_, fun hardened => ?_⟩
  · rcases List.mem_append.mp member with old | new
    · exact (timed.bounded record old).trans later
    · rw [List.mem_singleton.mp new]
      exact le_rfl
  · refine List.pairwise_append.mpr ⟨timed.monotone, List.pairwise_singleton _ _, ?_⟩
    intro first old second new
    rw [List.mem_singleton.mp new]
    exact (timed.bounded first old).trans later
  · refine List.pairwise_append.mpr ⟨timed.strict hardened, List.pairwise_singleton _ _, ?_⟩
    intro first old second new
    rw [List.mem_singleton.mp new]
    unfold SimConfig.Timely at timely
    rw [if_pos hardened] at timely
    exact (timed.bounded first old).trans_lt timely

/-- The observable order of a chain. -/
structure Ordered (cfg : SimConfig) (chain : MockChain) : Prop where
  numbered : Numbered chain
  timed : Timed cfg chain

theorem new_ordered (cfg : SimConfig) (startTs : Int) : Ordered cfg (MockChain.new startTs) :=
  ⟨⟨rfl, rfl, fun index record found => absurd found (by simp [MockChain.new])⟩,
    ⟨fun record member => absurd member List.not_mem_nil, List.Pairwise.nil,
      fun _ => List.Pairwise.nil⟩⟩

theorem step_ordered {cfg : SimConfig} {externals : List AccountId} {before after : View}
    (ordered : Ordered cfg before.chain) (step : Step cfg externals before after) :
    Ordered cfg after.chain := by
  cases step with
  | tick agents chain drawn ts later =>
    exact ⟨⟨ordered.numbered.sig, ordered.numbered.slot, ordered.numbered.record⟩,
      ⟨fun record member => (ordered.timed.bounded record member).trans later,
        ordered.timed.monotone, ordered.timed.strict⟩⟩
  | act agents chain drawn index agent next found move =>
    cases move with
    | mk chain agent drawn ts tx feePayer after ids recorded timely emission appended =>
      have set : Numbered (chain.setTime ts) :=
        ⟨ordered.numbered.sig, ordered.numbered.slot, ordered.numbered.record⟩
      exact ⟨record_numbered set appended, record_timed ordered.timed timely appended⟩

theorem Numbered.slots_le {chain : MockChain} (numbered : Numbered chain) :
    chain.ledger.records.Pairwise (fun first second => first.slot ≤ second.slot) := by
  rw [List.pairwise_iff_getElem]
  intro first second firstBound secondBound before
  rw [(numbered.record first _ (List.getElem?_eq_getElem firstBound)).2,
    (numbered.record second _ (List.getElem?_eq_getElem secondBound)).2]
  omega

/-! ### Every boundary -/

/-- Steps only add records. -/
theorem steps_records {cfg : SimConfig} {externals : List AccountId} {before after : View}
    (steps : Steps cfg externals before after) :
    before.chain.ledger.records <+: after.chain.ledger.records := by
  induction steps with
  | refl => exact List.prefix_rfl
  | tail _ step inductionHypothesis =>
    refine inductionHypothesis.trans ?_
    cases step with
    | tick agents chain drawn ts later => exact List.prefix_rfl
    | act agents chain drawn index agent next found move =>
      cases move with
      | mk chain agent drawn ts tx feePayer after ids recorded timely emission appended =>
        rw [record_eq appended]
        exact List.prefix_append _ _

section Boundaries

variable {Generator : Type} [Rng Generator] [Libm]

theorem serve_records {st next : RunState Generator} {ids : List AccountId}
    (engine : EngineSchedule st) (served : st.serve = some (next, ids)) :
    st.chain.ledger.records <+: next.chain.ledger.records :=
  steps_records (serve_steps engine served [])

theorem ReachedBy.ordered {personas : List Persona} {cfg : SimConfig}
    {built st : RunState Generator} {first ids : List AccountId}
    (reached : ReachedBy personas cfg built st first ids) : Ordered cfg st.chain := by
  refine reached.holds (fun _ view => Ordered cfg view.chain) (fun built first fresh => ?_)
    (fun externals before after ordered step => step_ordered ordered step)
  show Ordered cfg built.chain
  rw [fresh.chain]
  exact new_ordered cfg cfg.startTs

/-- At every boundary, fresh or restored: the counters are the number of records, the records
carry their positions, their timestamps never fall and are never ahead of the clock, and those
of the hardened engine rise strictly, each record a burst of its own. -/
theorem boundary_order [RngState Generator] (personas : List Persona) (cfg : SimConfig)
    (ids : List AccountId) (st : RunState Generator)
    (boundary : Boundary personas cfg ids st) :
    (st.chain.sig = st.chain.ledger.records.length ∧
      st.chain.slot = st.chain.ledger.records.length) ∧
    (∀ index record, st.chain.ledger.records[index]? = some record →
      record.sig = index + 1 ∧ record.slot = index + 1) ∧
    st.chain.ledger.records.Pairwise (fun first second => first.ts ≤ second.ts) ∧
    (∀ record ∈ st.chain.ledger.records, record.ts ≤ st.chain.clock) ∧
    (cfg.hardened = true →
      st.chain.ledger.records.Pairwise (fun first second => first.ts < second.ts) ∧
      burstGroups st.chain.ledger.records =
        some (st.chain.ledger.records.map (fun record => [record]))) := by
  obtain ⟨built, first, reached⟩ := boundary.reached
  have ordered := reached.ordered
  refine ⟨⟨ordered.numbered.sig, ordered.numbered.slot⟩, ordered.numbered.record,
    ordered.timed.monotone, ordered.timed.bounded, fun hardened => ?_⟩
  have strict := ordered.timed.strict hardened
  exact ⟨strict, burstGroups_singletons ordered.numbered.slots_le strict⟩

end Boundaries

/-- A memo and two rotations of a small run. -/
theorem boundary_order_smallRun : ∃ st : RunState Counter,
    finalState 3 [Persona.retail] smallRun = Outcome.returned st ∧
    st.chain.ledger.records.length = 3 ∧ st.chain.sig = 3 ∧
    st.chain.ledger.records.Pairwise (fun first second => first.ts < second.ts) := by
  have returned : ((finalState 3 [Persona.retail] smallRun :
      Outcome (RunState Counter)).result?.map (fun st => st.chain.ledger.records.length)) =
      some 3 := by decide +kernel
  obtain ⟨st, result, length⟩ := Option.map_eq_some_iff.mp returned
  have ran := Outcome.result?_eq_some.mp result
  have order := boundary_order _ _ _ st (finalState_boundary 3 ran)
  exact ⟨st, ran, length, order.1.1.trans length, (order.2.2.2.2 (by decide +kernel)).1⟩

end AccountCooker
