/-
This file compares the future of a boundary with that of the state rebuilt from
its snapshot. What the snapshot leaves out is what a run never changes, so the
rebuilt state is the boundary itself, and no sink can tell the two apart: the
loop makes the same calls, serves the same wakes and ends in the same state.

The heap keeps its entries in an array whose order the pops do not fix. The
snapshot reads it in that order, whatever it is, and files each time under its
schedule index; the restored heap is filled in the order of the indices.
-/

import Mathlib
import AccountCooker.Boundary

namespace AccountCooker

open Collections Draw

/-! ### Rebuilding -/

section Rebuilding

variable {Generator : Type} [Rng Generator] [RngState Generator] [Libm]

/-- The state a run is resumed from: the checkpoint is restored onto the freshly built run, under
the first records of the journal. -/
def rebuild (personas : List Persona) (cfg : SimConfig) (cp : Checkpoint)
    (journal : List TxRecord) : Option (Except IoError (RunState Generator)) :=
  (buildFresh personas cfg).map fun built => do
    let st ← restoreState cp built
    pure (st.withRecords (journal.take cp.recordsEmitted))

variable {personas : List Persona} {cfg : SimConfig} {st : RunState Generator}
  {ids : List AccountId} {layout : List Due} {runId : RunId} {journalLenBytes : Nat}
  {cp : Checkpoint} {journal : List TxRecord}

omit [Rng Generator] [Libm] in
theorem snapshot_recordsEmitted (saved : st.snapshot runId journalLenBytes = some cp) :
    cp.recordsEmitted = st.chain.ledger.records.length := by
  simp only [RunState.snapshot, Option.bind_eq_bind, Option.bind_eq_some_iff] at saved
  obtain ⟨_, _, equal⟩ := saved
  rw [← Option.some.inj equal]

/-- The state rebuilt from the snapshot of a boundary is the boundary. -/
theorem Boundary.rebuild (boundary : Boundary personas cfg ids st)
    (entries : layout.Perm st.heap)
    (saved : ({ st with heap := layout } : RunState Generator).snapshot runId journalLenBytes =
      some cp)
    (emitted : st.chain.ledger.records <+: journal) :
    rebuild personas cfg cp journal = some (.ok st) := by
  obtain ⟨built, first, reached⟩ := boundary.reached
  have building := buildFresh_of_drawing reached.building
  have kept : journal.take cp.recordsEmitted = st.chain.ledger.records := by
    rw [snapshot_recordsEmitted saved]
    exact (List.prefix_iff_eq_take.mp emitted).symm
  unfold AccountCooker.rebuild
  rw [building, Option.map_some, restoreState_snapshot reached.same entries saved, kept]
  rfl

/-- The snapshot of a boundary fails only on a wake at the placeholder time. -/
theorem Boundary.snapshot_eq_none (boundary : Boundary personas cfg ids st)
    (entries : layout.Perm st.heap) :
    ({ st with heap := layout } : RunState Generator).snapshot runId journalLenBytes = none ↔
      ∃ due ∈ st.heap, due.1 = i64Min := by
  obtain ⟨built, first, reached⟩ := boundary.reached
  have indices := (entries.map Prod.snd).trans reached.same.heap.indices
  have read := nextTimes_eq_none indices
  simp only [entries.mem_iff] at read
  rw [← read]
  unfold RunState.snapshot
  cases nextTimes layout st.sched.length with
  | none => exact ⟨fun _ => rfl, fun _ => rfl⟩
  | some times => exact ⟨fun none => absurd none (by simp), fun none => absurd none (by simp)⟩

end Rebuilding

/-! ### The future of a state -/

/-- What a sink can see of a run: at a boundary the wake that is due, whether the run is over and
the snapshot under any identity and journal length; after an event its records. -/
inductive Observation
  | boundary (due : Option Due) (done : Bool) (snapshot : RunId → Nat → Option Checkpoint)
  | records (new : List TxRecord)

section Future

variable {Generator : Type} [RngState Generator]

/-- The sink that writes down everything it sees. -/
def recorder : DurSink (StateM (List Observation)) Unit Generator where
  onRecords _ new := modify (· ++ [.records new])
  onBoundary _ st done := do
    modify (· ++ [.boundary st.heap.head? done st.snapshot])
    pure ((), false)

variable [Rng Generator] [Libm]

/-- Everything that can be seen of a run from a state on, and its funded ledger. -/
def future (fuel : Nat) (cfg : SimConfig) (st : RunState Generator) :
    List Observation × Outcome Ledger :=
  let (outcome, seen) := (runCore recorder fuel st ()).run []
  match outcome with
  | .returned (final, _) =>
    match finalizeFunding final cfg with
    | some ledger => (seen, .returned ledger)
    | none => (seen, .panicked)
  | .panicked => (seen, .panicked)
  | .running => (seen, .running)

/-- The snapshot of a boundary, read off the heap in any order, fails only on a wake at the
placeholder time. The state rebuilt from it and from the first records of the journal has the
future of the boundary: every sink sees the same wakes, records and snapshots, the run ends the
same way, and it is funded the same way. -/
theorem restore_bisimulation (personas : List Persona) (cfg : SimConfig) (ids : List AccountId)
    (st : RunState Generator) (boundary : Boundary personas cfg ids st) (layout : List Due)
    (entries : layout.Perm st.heap) (runId : RunId) (journalLenBytes : Nat)
    (journal : List TxRecord) (emitted : st.chain.ledger.records <+: journal) :
    (({ st with heap := layout } : RunState Generator).snapshot runId journalLenBytes = none ↔
      ∃ due ∈ st.heap, due.1 = i64Min) ∧
    ∀ cp, ({ st with heap := layout } : RunState Generator).snapshot runId journalLenBytes =
        some cp →
      ∃ restored : RunState Generator,
        rebuild personas cfg cp journal = some (.ok restored) ∧
        (∀ fuel, future fuel cfg restored = future fuel cfg st) ∧
        ∀ (Effect : Type → Type) [Monad Effect] (Sink : Type)
          (sink : DurSink Effect Sink Generator) (fuel : Nat) (state : Sink),
          runCore sink fuel restored state = runCore sink fuel st state := by
  refine ⟨boundary.snapshot_eq_none entries, fun cp saved => ?_⟩
  refine ⟨st, boundary.rebuild entries saved emitted, fun fuel => rfl, ?_⟩
  exact fun Effect _ Sink sink fuel state => rfl

end Future

/-- The small run after its last event, its heap read from the back, and a journal that runs
beyond it. -/
theorem restore_bisimulation_smallRun : ∃ (st : RunState Counter) (cp : Checkpoint)
    (beyond : TxRecord) (restored : RunState Counter),
    finalState 3 [Persona.retail] smallRun = Outcome.returned st ∧
    rebuild [Persona.retail] smallRun cp (st.chain.ledger.records ++ [beyond]) =
      some (.ok restored) ∧
    ∀ fuel, future fuel smallRun restored = future fuel smallRun st := by
  have returned : ((finalState 3 [Persona.retail] smallRun :
      Outcome (RunState Counter)).result?.map
        (fun st => (st.heap.all (·.1 ≠ i64Min), st.chain.ledger.records.length))) =
      some (true, 3) := by decide +kernel
  obtain ⟨st, result, facts⟩ := Option.map_eq_some_iff.mp returned
  have ran := Outcome.result?_eq_some.mp result
  obtain ⟨timed, length⟩ := Prod.mk.inj facts
  have positive : 0 < st.chain.ledger.records.length := length ▸ Nat.succ_pos 2
  obtain ⟨beyond, _⟩ := List.exists_mem_of_length_pos positive
  obtain ⟨failed, restores⟩ := restore_bisimulation _ _ _ st (finalState_boundary 3 ran)
    st.heap.reverse (List.reverse_perm st.heap)
    (RunId.mk checkpointFormat smallRun.seed smallRun.mode smallRun.numAgents
      smallRun.durationSecs smallRun.startTs smallRun.numExternal smallRun.hardenTiming [])
    0 _ (List.prefix_append st.chain.ledger.records [beyond])
  cases saved : ({ st with heap := st.heap.reverse } : RunState Counter).snapshot
      (RunId.mk checkpointFormat smallRun.seed smallRun.mode smallRun.numAgents
        smallRun.durationSecs smallRun.startTs smallRun.numExternal smallRun.hardenTiming []) 0 with
  | none =>
    obtain ⟨due, member, least⟩ := failed.mp saved
    exact absurd least (of_decide_eq_true (List.all_eq_true.mp timed due member))
  | some cp =>
    obtain ⟨restored, rebuilt, futures, _⟩ := restores cp saved
    exact ⟨st, cp, beyond, restored, ran, rebuilt, futures⟩

end AccountCooker
