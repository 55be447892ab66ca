/-
This file is about how far a run directory gets ahead of its checkpoint. The
sink publishes a checkpoint at every boundary whose number of events its cadence
divides, so between two of them the journal gains the records of no more events
than the cadence has. What a resume cuts off, and redoes, is bounded by that, in
whatever instant the process before it was killed.
-/

import Mathlib
import AccountCooker.Recovery

namespace AccountCooker

open Collections Crash

/-! ### Ahead of the checkpoint -/

section Cadence

variable (serde : Serde) (Generator : Type) [Rng Generator] [RngState Generator] [Libm]

/-- A journal holds no more than the records of a boundary at most so many events after the one a
checkpoint of the run was taken at. -/
def Ahead (most : Nat) (attempt : Attempt) (contents journal : Bytes) : Prop :=
  ∃ cp ahead, ∃ later : RunState Generator, contents = serde.checkpointText cp ∧
    cp.runId = RunId.derive serde attempt.personas attempt.cfg ∧ ahead ≤ cp.events + most ∧
    boundaryAt Generator attempt.personas attempt.cfg ahead = some later ∧
    journal <+: journalOf serde later.chain.ledger.records

/-- The journal of a directory with a checkpoint is at most so many events ahead of it. -/
def Near (allowed : Attempt → Prop) (most : Nat) (dir : RunDir) : Prop :=
  ∀ contents, dir.checkpoint = some contents → ∃ attempt journal, allowed attempt ∧
    dir.ledger = some journal ∧ Ahead serde Generator most attempt contents journal

/-- No boundary between the one of the checkpoint and this one was due for a checkpoint. -/
def Paced (every : Nat) (attempt : Attempt) (events : Nat) (checkpoint : Option Bytes) : Prop :=
  ∀ contents, checkpoint = some contents → ∃ cp, contents = serde.checkpointText cp ∧
    cp.runId = RunId.derive serde attempt.personas attempt.cfg ∧
    ∀ between, cp.events < between → between < events → ¬ every ∣ between

variable {serde Generator} {allowed : Attempt → Prop} {attempt : Attempt}
  {most every events fuel : Nat} {st : RunState Generator} {dir : RunDir} {sink : DurableSink}
  {cp : Checkpoint} {contents journal : Bytes} {failed : Fault → Prop}

omit [RngState Generator] in
theorem Ahead.shorter {fewer : Bytes} (ahead : Ahead serde Generator most attempt contents journal)
    (within : fewer <+: journal) : Ahead serde Generator most attempt contents fewer := by
  obtain ⟨cp, ahead, later, same, runId, near, found, whole⟩ := ahead
  exact ⟨cp, ahead, later, same, runId, near, found, within.trans whole⟩

omit [Libm] in
/-- Among as many numbers as a cadence has, one after the other, it divides one. -/
theorem exists_dvd_after (base : Nat) (positive : 0 < every) :
    ∃ due, base < due ∧ due ≤ base + every ∧ every ∣ due := by
  refine ⟨every * (base / every + 1), ?_, ?_, Nat.dvd_mul_right _ _⟩
  · exact Nat.lt_mul_div_succ base positive
  · rw [Nat.mul_succ]
    exact Nat.add_le_add_right (Nat.mul_div_le base every) every

omit [RngState Generator] in
/-- A boundary with none due before it is at most a cadence away. -/
theorem Paced.ahead (paced : Paced serde every attempt events (some contents))
    (positive : 0 < every) (within : every ≤ most)
    (found : boundaryAt Generator attempt.personas attempt.cfg events = some st) :
    Ahead serde Generator most attempt contents (journalOf serde st.chain.ledger.records) := by
  obtain ⟨cp, same, runId, none⟩ := paced contents rfl
  obtain ⟨due, after, near, divides⟩ := exists_dvd_after cp.events positive
  have before : events ≤ due := by
    by_contra beyond
    exact none due after (Nat.lt_of_not_le beyond) divides
  exact ⟨cp, events, st, same, runId, by omega, found, List.prefix_rfl⟩

variable (serde most) in
/-- The sink of a run at a boundary; no checkpoint was missed. -/
structure DurableSink.Keeps (sink : DurableSink) (attempt : Attempt) (st : RunState Generator)
    (dir : RunDir) : Prop where
  ready : sink.Ready serde (RunId.derive serde attempt.personas attempt.cfg) st dir
  positive : 0 < sink.every
  within : sink.every ≤ most
  paced : Paced serde sink.every attempt st.events dir.checkpoint

omit [RngState Generator] in
/-- Until a boundary, a directory with some of its records is near its checkpoint. -/
theorem Paced.bears (permitted : allowed attempt) (positive : 0 < every) (within : every ≤ most)
    (paced : Paced serde every attempt events dir.checkpoint)
    (found : boundaryAt Generator attempt.personas attempt.cfg events = some st)
    (buffer : Journal) :
    buffer.Bears (journalOf serde st.chain.ledger.records) (Near serde Generator allowed most)
      dir := by
  intro reached tmp _ before contents present
  rw [show dir.checkpoint = some contents from present] at paced
  exact ⟨attempt, reached, permitted, rfl, (paced.ahead positive within found).shorter before⟩

omit [Rng Generator] [Libm] in
/-- The checkpoint that a boundary leaves is its own, or none was due there. -/
theorem DurableSink.Passes.paced {after : DurableSink} {final : RunDir} {done : Bool}
    (passes : sink.Passes serde st done dir after final) (keeps : sink.Keeps serde most attempt st
      dir) (counting : st.events ≠ u64Max) :
    after.every = sink.every ∧
      Paced serde sink.every attempt (st.events + 1) final.checkpoint := by
  cases passes with
  | published cp due saved =>
    refine ⟨rfl, fun contents present => ?_⟩
    obtain ⟨_, runId, _, counted, _⟩ := snapshot_fields saved
    refine ⟨cp, (Option.some.inj present).symm, runId.trans keeps.ready.runId, ?_⟩
    intro between after before
    omega
  | idle idle =>
    refine ⟨rfl, fun contents present => ?_⟩
    obtain ⟨cp, same, runId, none⟩ := keeps.paced contents present
    refine ⟨cp, same, runId, fun between after before divides => ?_⟩
    rcases Nat.lt_succ_iff_lt_or_eq.mp before with earlier | rfl
    · exact none between after earlier divides
    · have unsaved : sink.lastSnapshotEvents ≠ st.events := by
        have earlier := keeps.ready.last
        omega
      exact idle ⟨Or.inr ⟨Nat.ne_zero_of_lt after, divides⟩, unsaved⟩

omit [RngState Generator] in
/-- A counter at its limit counts no further event. -/
theorem event_counted {next : RunState Generator} (moved : st.event = some next) :
    st.events ≠ u64Max := by
  obtain ⟨⟨next, ids⟩, served, rfl⟩ := Option.map_eq_some_iff.mp moved
  unfold RunState.serve at served
  split at served
  · exact absurd served (by simp)
  · simp only [Option.bind_eq_bind, Option.bind_eq_some_iff] at served
    obtain ⟨_, _, _, _, _, _, _, counted, _⟩ := served
    have room := (checkedU64_eq_some.mp counted).1
    omega

/-- The loop keeps near its checkpoint, and settles the directory when it returns. -/
theorem keeps_runCore (permitted : allowed attempt) (panics : failed .panicked)
    (found : boundaryAt Generator attempt.personas attempt.cfg events = some st)
    (near : Near serde Generator allowed most dir) (keeps : sink.Keeps serde most attempt st dir) :
    Meets (Near serde Generator allowed most) failed
      (EndsAs fuel st fun last final => last.events ≠ u64Max →
        final.Settled serde (RunId.derive serde attempt.personas attempt.cfg) last)
      (runCore (durableSink serde Generator) fuel st sink) dir := by
  refine meets_loop (fun st sink dir =>
      (∃ events, boundaryAt Generator attempt.personas attempt.cfg events = some st) ∧
        Near serde Generator allowed most dir ∧ sink.Keeps serde most attempt st dir)
    _ (fun _ _ _ kept => kept.2.1) ?_ fuel ⟨⟨events, found⟩, near, keeps⟩
  rintro st sink dir ⟨⟨events, found⟩, near, keeps⟩
  obtain rfl := boundaryAt_events found
  refine meets_mono (meets_sinkBoundary st.done keeps.ready.journal
    (keeps.paced.bears permitted keeps.positive keeps.within found sink.journal) (fun _ => panics)
    ?_) (fun _ stopped => stopped) ?_
  · intro cp saved contents present
    obtain ⟨_, runId, _, counted, _⟩ := snapshot_fields saved
    refine ⟨attempt, _, permitted, rfl, cp, cp.events, st, (Option.some.inj present).symm,
      runId.trans keeps.ready.runId, Nat.le_add_right _ _, ?_, List.prefix_rfl⟩
    rw [counted]
    exact found
  rintro ⟨after, stop⟩ final near ⟨going, passes⟩
  refine ⟨going, fun finished counting => passes.settled keeps.ready finished counting,
    fun next due moved => ?_⟩
  obtain ⟨every, paced⟩ := passes.paced keeps (event_counted moved)
  have later := boundaryAt_event found due moved
  have counted := boundaryAt_events later
  refine ⟨event_records found moved, passes.holds keeps.ready,
    paced.bears permitted keeps.positive keeps.within later after.journal, fun journal held =>
      ⟨⟨st.events + 1, later⟩, near, passes.ready keeps.ready ?_ held, ?_, ?_, ?_⟩⟩
  · rw [counted]
    exact Nat.lt_succ_self _
  · rw [every]
    exact keeps.positive
  · rw [every]
    exact keeps.within
  · rw [every, counted]
    exact paced

/-! ### One process -/

variable (serde Generator) in
/-- An attempt that returns a ledger has come to the last boundary of its run and has funded it; the
directory is settled there, unless the last boundary has exhausted the counter of events. -/
def Settles (attempt : Attempt) (result : Outcome Ledger) (dir : RunDir) : Prop :=
  ∀ ledger, result = .returned ledger → ∃ total, ∃ last : RunState Generator,
    boundaryAt Generator attempt.personas attempt.cfg total = some last ∧ last.done = true ∧
      finalizeFunding last attempt.cfg = some ledger ∧
      (total ≠ u64Max →
        dir.Settled serde (RunId.derive serde attempt.personas attempt.cfg) last)

/-- From a boundary on, an attempt keeps near its checkpoint and settles. -/
theorem keeps_runFrom (permitted : allowed attempt) (panics : failed .panicked)
    {opts : DurabilityOpts} (within : max opts.snapshotEveryEvents 1 ≤ most)
    (found : boundaryAt Generator attempt.personas attempt.cfg events = some st)
    (near : Near serde Generator allowed most dir)
    (flushed : dir.ledger = some (journalOf serde st.chain.ledger.records))
    (paced : Paced serde (max opts.snapshotEveryEvents 1) attempt st.events dir.checkpoint) :
    Meets (Near serde Generator allowed most) failed (Settles serde Generator attempt)
      (runFrom serde fuel attempt.personas attempt.cfg opts st) dir := by
  have positive : 0 < max opts.snapshotEveryEvents 1 :=
    lt_of_lt_of_le Nat.zero_lt_one (le_max_right _ _)
  refine meets_mono (meets_finished (keeps_runCore permitted panics found near
    ⟨ready_opened flushed, positive, within, paced⟩) fun _ => panics) (fun _ stopped => stopped) ?_
  rintro result final _ ⟨same, settled⟩ ledger returned
  obtain ⟨last, ended, funded⟩ := exists_last_of_conclude (same.symm.trans returned)
  obtain ⟨total, reached, done⟩ := loopFrom_returned found ended
  refine ⟨total, last, reached, done, funded, fun counting => settled last ended ?_⟩
  rw [boundaryAt_events reached]
  exact counting

omit [RngState Generator] in
theorem near_of_none (absent : dir.checkpoint = none) : Near serde Generator allowed most dir := by
  intro contents present
  cases absent.symm.trans present

/-- Every process leaves its directory near the checkpoint, in every instant, and settled when it
returns. -/
theorem keeps_runDurable (decodes : serde.Decodes) (noCollision : NoCollision serde allowed)
    (apart : ToldApart serde allowed) (permitted : allowed attempt)
    (within : max attempt.opts.snapshotEveryEvents 1 ≤ most)
    (committed : Committed serde Generator allowed dir)
    (near : Near serde Generator allowed most dir) :
    Meets (Near serde Generator allowed most) (fun _ => True) (Settles serde Generator attempt)
      (runDurable serde Generator attempt) dir := by
  refine meets_attempt decodes noCollision apart permitted committed near (fun _ _ _ => trivial) ?_
    fun cp st journal present there commitment => ?_
  · refine meets_simulated near (fun _ _ => near_of_none rfl) (fun _ => trivial)
      fun st building => ?_
    have found : boundaryAt Generator attempt.personas attempt.cfg 0 = some st := building
    exact keeps_runFrom permitted trivial within found (near_of_none rfl) rfl
      fun contents present => by cases present
  · have cut : Near serde Generator allowed most
        { dir with ledger := some (journalOf serde st.chain.ledger.records) } := by
      intro contents found
      refine ⟨attempt, _, permitted, rfl, cp, cp.events, st, ?_, commitment.runId,
        Nat.le_add_right _ _, commitment.boundary, List.prefix_rfl⟩
      exact Option.some.inj (found.symm.trans present)
    refine meets_resumed decodes present there commitment.resumesAt near cut
      (keeps_runFrom permitted trivial within commitment.boundary cut rfl fun contents found => ?_)
    refine ⟨cp, Option.some.inj (found.symm.trans present), commitment.runId, ?_⟩
    rw [boundaryAt_events commitment.boundary]
    intro between after before
    omega

/-! ### Histories -/

variable (serde Generator allowed most) in
/-- What holds of the directory in every instant of a history. -/
structure Tracked (dir : RunDir) : Prop where
  committed : Committed serde Generator allowed dir
  near : Near serde Generator allowed most dir

theorem Found.tracked (decodes : serde.Decodes) (noCollision : NoCollision serde allowed)
    (apart : ToldApart serde allowed)
    (cadence : ∀ attempt, allowed attempt → max attempt.opts.snapshotEveryEvents 1 ≤ most)
    (found : Found serde Generator allowed dir) : Tracked serde Generator allowed most dir := by
  refine History.invariant ⟨committed_of_none rfl, near_of_none rfl⟩ ?_ found
  rintro attempt dir permitted tracked cut reached
  exact ⟨(meets_runDurable decodes noCollision apart permitted tracked.committed).safe cut
    reached, (keeps_runDurable decodes noCollision apart permitted (cadence attempt permitted)
      tracked.committed tracked.near).safe cut reached⟩

/-- Wherever the processes before were killed, the journal lies between two boundaries of the run
the checkpoint is of: the one it was taken at and one at most a cadence of events later. What a
resume cuts off and redoes is the work of no more events than that. -/
theorem redone_within_cadence (decodes : serde.Decodes) (noCollision : NoCollision serde allowed)
    (apart : ToldApart serde allowed)
    (cadence : ∀ attempt, allowed attempt → max attempt.opts.snapshotEveryEvents 1 ≤ most)
    (found : Found serde Generator allowed dir) (permitted : allowed attempt)
    (present : dir.checkpoint = some (serde.checkpointText cp))
    (own : cp.runId = RunId.derive serde attempt.personas attempt.cfg) :
    ∃ journal ahead, ∃ saved later : RunState Generator, dir.ledger = some journal ∧
      boundaryAt Generator attempt.personas attempt.cfg cp.events = some saved ∧
      boundaryAt Generator attempt.personas attempt.cfg ahead = some later ∧
      ahead ≤ cp.events + most ∧
      cp.journalLenBytes = (journalOf serde saved.chain.ledger.records).length ∧
      journalOf serde saved.chain.ledger.records <+: journal ∧
      journal <+: journalOf serde later.chain.ledger.records := by
  obtain ⟨committed, near⟩ := found.tracked decodes noCollision apart cadence
  have decoded {other : Checkpoint} (same : serde.checkpointText cp = serde.checkpointText other) :
      other = cp := by
    have parsed := decodes.checkpoint cp
    rw [same, decodes.checkpoint] at parsed
    exact Except.ok.inj parsed
  obtain ⟨first, other, saved, journal, firstPermitted, same, there, commitment⟩ :=
    committed _ present
  obtain rfl := decoded same
  have matching := commitment.matching noCollision apart permitted firstPermitted own
  obtain ⟨second, _, secondPermitted, again, other, ahead, later, same, runId, few, reached,
    whole⟩ := near _ present
  obtain rfl := decoded same
  obtain rfl : journal = _ := Option.some.inj (there.symm.trans again)
  have inputs := inputs_of_derive (noCollision second attempt secondPermitted permitted)
    (apart second attempt secondPermitted permitted) (runId.symm.trans own)
  rw [inputs.1, inputs.2] at reached
  exact ⟨journal, ahead, saved, later, there, matching.boundary, reached, few, matching.length,
    matching.journal, whole⟩

end Cadence

/-- An attempt at the small funded run that takes a checkpoint after every event. -/
def AfterEveryEvent (attempt : Attempt) : Prop :=
  AtJournaledRun attempt ∧ max attempt.opts.snapshotEveryEvents 1 ≤ 1

/-- The killed attempt has written no more than one event beyond its checkpoint. -/
theorem redone_within_cadence_killed : ∃ cp journal ahead, ∃ later : RunState Counter,
    killedDir.checkpoint = some (directorySerde.checkpointText cp) ∧
    killedDir.ledger = some journal ∧ ahead ≤ cp.events + 1 ∧
    boundaryAt Counter [Persona.retail] journaledRun ahead = some later ∧
    journal <+: journalOf directorySerde later.chain.ledger.records := by
  obtain ⟨contents, present⟩ := Option.isSome_iff_exists.mp killedDir_checkpoint
  obtain ⟨_, cp, _, _, _, rfl, _, _⟩ := killedDir_found.committed directorySerde_decodes
    journaledRun_noCollision journaledRun_apart _ present
  have found : Found directorySerde Counter AfterEveryEvent killedDir :=
    History.run RunDir.empty killedDir killedAttempt .start ⟨⟨rfl, rfl⟩, le_rfl⟩
      (List.mem_append_right _ List.mem_cons_self)
  have atRun (attempt : Attempt) (permitted : AfterEveryEvent attempt) :
      attempt.personas = [Persona.retail] ∧ attempt.cfg = journaledRun := permitted.1
  obtain ⟨journal, ahead, _, later, there, _, reached, few, _, _, whole⟩ :=
    redone_within_cadence directorySerde_decodes (noCollision_of_run atRun)
      (toldApart_of_run atRun) (fun _ atRun => atRun.2) found
      (⟨⟨rfl, rfl⟩, le_rfl⟩ : AfterEveryEvent killedAttempt) present (killedDir_own cp present)
  exact ⟨cp, journal, ahead, later, present, there, few, reached, whole⟩

end AccountCooker
