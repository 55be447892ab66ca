/-
This file proves what a run directory commits to. A checkpoint that is there is
complete, and the front of the journal holds the records of the boundary it was
taken at. Everything the durable runner does keeps this, in every instant: the
journal is only extended behind the committed part, a checkpoint is published
after its records were flushed, and a fresh run removes the checkpoint before it
touches the journal.

The loop of the durable runner is the uninterrupted loop, and at each of its
boundaries the file and the buffer together hold the records so far.
-/

import Mathlib
import AccountCooker.Sink

namespace AccountCooker

open Collections Crash

section Committing

/-! ### What a directory commits to -/

variable (serde : Serde) (Generator : Type) [Rng Generator] [RngState Generator] [Libm]
  (allowed : Attempt → Prop)

/-- A checkpoint of a run, the boundary it was taken at, and a journal in which the records of the
boundary come first. -/
structure Commitment (attempt : Attempt) (cp : Checkpoint) (st : RunState Generator)
    (journal : Bytes) : Prop where
  runId : cp.runId = RunId.derive serde attempt.personas attempt.cfg
  boundary : boundaryAt Generator attempt.personas attempt.cfg cp.events = some st
  snapshot : st.snapshot cp.runId cp.journalLenBytes = some cp
  length : cp.journalLenBytes = (journalOf serde st.chain.ledger.records).length
  journal : journalOf serde st.chain.ledger.records <+: journal

/-- A checkpoint that is there is complete, and the journal keeps what it counts. -/
def Committed (dir : RunDir) : Prop :=
  ∀ contents, dir.checkpoint = some contents →
    ∃ attempt cp st journal, allowed attempt ∧ contents = serde.checkpointText cp ∧
      dir.ledger = some journal ∧ Commitment serde Generator attempt cp st journal

/-- The panics of a durable run: those of the run itself, and the assertion of a snapshot. -/
def Panics (attempt : Attempt) (fault : Fault) : Prop :=
  fault = .panicked ∧
    ((∃ fuel, simulate Generator fuel attempt.personas attempt.cfg = .panicked) ∨
      ∃ events st, boundaryAt Generator attempt.personas attempt.cfg events = some st ∧
        ∃ due ∈ st.heap, due.1 = i64Min)

variable {serde Generator allowed} {dir after : RunDir} {attempt : Attempt} {cp : Checkpoint}
  {st : RunState Generator} {sink : DurableSink} {buffer : Journal} {bytes : Bytes} {events : Nat}

theorem committed_of_none (absent : dir.checkpoint = none) :
    Committed serde Generator allowed dir := by
  intro contents found
  rw [absent] at found
  cases found

/-- What is written behind the journal leaves the commitment, and so does the temporary file. -/
theorem Committed.bears (committed : Committed serde Generator allowed dir)
    (holds : buffer.Holds bytes dir) {more : Bytes} (longer : bytes <+: more) :
    buffer.Bears more (Committed serde Generator allowed) dir := by
  intro reached tmp beyond _ contents present
  obtain ⟨attempt, cp, st, journal, permitted, complete, there, commitment⟩ :=
    committed contents present
  obtain rfl : bytes.take buffer.position = journal :=
    Option.some.inj (holds.flushed.symm.trans there)
  have same : more.take buffer.position = bytes.take buffer.position := by
    rw [List.prefix_iff_eq_take.mp longer, List.take_take, Nat.min_eq_left holds.position]
  exact ⟨attempt, cp, st, reached, permitted, complete, rfl, commitment.runId,
    commitment.boundary, commitment.snapshot, commitment.length,
    commitment.journal.trans (same ▸ beyond)⟩

omit [Rng Generator] [Libm] in
theorem snapshot_fields {runId : RunId} {journalLenBytes : Nat}
    (saved : st.snapshot runId journalLenBytes = some cp) :
    cp.format = checkpointFormat ∧ cp.runId = runId ∧ cp.journalLenBytes = journalLenBytes ∧
      cp.events = st.events ∧ cp.sig = st.chain.sig ∧ cp.slot = st.chain.slot := by
  simp only [RunState.snapshot, Option.bind_eq_bind, Option.bind_eq_some_iff] at saved
  obtain ⟨_, _, equal⟩ := saved
  rw [← Option.some.inj equal]
  exact ⟨rfl, rfl, rfl, rfl, rfl, rfl⟩

/-- The snapshot of a boundary commits to it. -/
theorem commitment_of_snapshot
    (found : boundaryAt Generator attempt.personas attempt.cfg events = some st)
    (saved : st.snapshot (RunId.derive serde attempt.personas attempt.cfg)
      (journalOf serde st.chain.ledger.records).length = some cp) :
    Commitment serde Generator attempt cp st (journalOf serde st.chain.ledger.records) := by
  obtain ⟨_, runId, length, counted, _⟩ := snapshot_fields saved
  refine ⟨runId, ?_, ?_, length, List.prefix_rfl⟩
  · rw [counted, boundaryAt_events found]
    exact found
  · rw [runId, length]
    exact saved

/-! ### The loop -/

/-- The loop of the durable runner goes on from a boundary as the uninterrupted loop, and keeps the
commitment. -/
theorem meets_runCore {fuel : Nat} (permitted : allowed attempt)
    (found : boundaryAt Generator attempt.personas attempt.cfg events = some st)
    (committed : Committed serde Generator allowed dir)
    (ready : sink.Ready serde (RunId.derive serde attempt.personas attempt.cfg) st dir) :
    Meets (Committed serde Generator allowed) (Panics Generator attempt)
      (EndsAs fuel st fun _ _ => True)
      (runCore (durableSink serde Generator) fuel st sink) dir := by
  refine meets_loop (fun st sink dir =>
      (∃ events, boundaryAt Generator attempt.personas attempt.cfg events = some st) ∧
        Committed serde Generator allowed dir ∧
        sink.Ready serde (RunId.derive serde attempt.personas attempt.cfg) st dir)
    (fun _ _ => True) (fun _ _ _ kept => kept.2.1) ?_ fuel ⟨⟨events, found⟩, committed, ready⟩
  rintro st sink dir ⟨⟨events, found⟩, committed, ready⟩
  have panics {length : Nat} (unsaved : st.snapshot sink.runId length = none) :
      Panics Generator attempt .panicked := by
    obtain ⟨ids, boundary⟩ := boundaryAt_boundary found
    exact ⟨rfl, Or.inr ⟨events, st, found,
      (boundary.snapshot_eq_none (List.Perm.refl _)).mp unsaved⟩⟩
  refine meets_mono (meets_sinkBoundary st.done ready.journal
    (committed.bears ready.journal List.prefix_rfl) panics ?_) (fun _ stopped => stopped) ?_
  · intro cp saved contents present
    exact ⟨attempt, cp, st, _, permitted, (Option.some.inj present).symm, rfl,
      commitment_of_snapshot found (ready.runId ▸ saved)⟩
  · rintro ⟨passed, stop⟩ final committed ⟨going, passes⟩
    refine ⟨going, fun _ => trivial, fun next due moved => ?_⟩
    have later := boundaryAt_event found due moved
    have grown := event_records found moved
    refine ⟨grown, passes.holds ready, committed.bears (passes.holds ready) ?_, fun journal held =>
      ⟨⟨events + 1, later⟩, committed, passes.ready ready ?_ held⟩⟩
    · rw [← List.prefix_iff_eq_append.mp grown, journalOf_append]
      exact List.prefix_append _ _
    · rw [boundaryAt_events found, boundaryAt_events later]
      exact Nat.lt_succ_self events

end Committing

end AccountCooker
