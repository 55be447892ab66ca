/-
This file is about run directories after a run has returned. The directory then
holds the journal of all records of the run, a checkpoint of its last boundary
and nothing else, whatever was killed before. Resumes of the run write the same
bytes again: wherever they are killed in turn, the journal and the checkpoint
stay as they are, and each that is not killed returns the same ledger.
-/

import Mathlib
import AccountCooker.Cadence

namespace AccountCooker

open Collections Crash

section Settlement

variable {serde : Serde} {Generator : Type} [Rng Generator] [RngState Generator] [Libm]
  {allowed : Attempt → Prop} {attempt again : Attempt} {most fewer events fuel : Nat}
  {st : RunState Generator} {dir : RunDir} {sink : DurableSink} {cp : Checkpoint} {ledger : Ledger}

/-! ### A settled directory -/

/-- The journal and the checkpoint of one directory are those of another. -/
def RunDir.Agrees (settled dir : RunDir) : Prop :=
  dir.ledger = settled.ledger ∧ dir.checkpoint = settled.checkpoint

/-- A resume of a run. -/
structure Resumes (attempt again : Attempt) : Prop where
  personas : again.personas = attempt.personas
  cfg : again.cfg = attempt.cfg
  resume : again.resume = true

/-- The loop that goes on at the last boundary writes what is there. -/
theorem settled_runCore {runId : RunId} (done : st.done = true) (counting : st.events ≠ u64Max)
    (saved : st.snapshot runId (journalOf serde st.chain.ledger.records).length = some cp)
    (ready : sink.Ready serde runId st dir)
    (present : dir.checkpoint = some (serde.checkpointText cp))
    (there : dir.ledger = some (journalOf serde st.chain.ledger.records))
    (ended : sink.journal.position = (journalOf serde st.chain.ledger.records).length) :
    Meets (RunDir.Agrees ⟨some (journalOf serde st.chain.ledger.records),
        some (serde.checkpointText cp), none⟩) (fun _ => False)
      (EndsAs fuel st fun last final => final.Settled serde runId last)
      (runCore (durableSink serde Generator) fuel st sink) dir := by
  refine meets_loop (fun here sink dir => here = st ∧ sink.Ready serde runId st dir ∧
      RunDir.Agrees ⟨some (journalOf serde st.chain.ledger.records),
        some (serde.checkpointText cp), none⟩ dir ∧
      sink.journal.position = (journalOf serde st.chain.ledger.records).length)
    _ (fun _ _ _ kept => kept.2.2.1) ?_ fuel ⟨rfl, ready, ⟨there, present⟩, ended⟩
  rintro _ sink dir ⟨rfl, ready, ⟨_, present⟩, ended⟩
  refine meets_mono (meets_sinkBoundary _ ready.journal ?_ ?_ ?_) (fun _ stopped => stopped) ?_
  · intro reached tmp after before
    rw [ended, List.take_length] at after
    obtain rfl := before.eq_of_length_le after.length_le
    exact ⟨rfl, present⟩
  · intro unsaved
    rw [ready.runId, saved] at unsaved
    exact Option.some_ne_none cp unsaved
  · intro other again
    rw [ready.runId, saved] at again
    rw [← Option.some.inj again]
    exact ⟨rfl, rfl⟩
  rintro ⟨after, stop⟩ final _ ⟨going, passes⟩
  exact ⟨going, fun finished => passes.settled ready finished counting,
    fun next running _ => absurd (running.symm.trans done) Bool.false_ne_true⟩

/-- A resume of a finished run keeps what is there; once it runs, it returns the ledger of the run
and leaves the settled directory. -/
theorem settled_runDurable (decodes : serde.Decodes)
    (found : boundaryAt Generator attempt.personas attempt.cfg events = some st)
    (done : st.done = true) (counting : st.events ≠ u64Max)
    (funded : finalizeFunding st attempt.cfg = some ledger)
    (saved : st.snapshot (RunId.derive serde attempt.personas attempt.cfg)
      (journalOf serde st.chain.ledger.records).length = some cp)
    (kept : RunDir.Agrees ⟨some (journalOf serde st.chain.ledger.records),
      some (serde.checkpointText cp), none⟩ dir)
    (resumes : Resumes attempt again) :
    Meets (RunDir.Agrees ⟨some (journalOf serde st.chain.ledger.records),
        some (serde.checkpointText cp), none⟩) (fun _ => False)
      (fun result final => 0 < again.fuel → result = .returned ledger ∧
        final = ⟨some (journalOf serde st.chain.ledger.records), some (serde.checkpointText cp),
          none⟩)
      (runDurable serde Generator again) dir := by
  obtain ⟨there, present⟩ := kept
  refine meets_dispatch ⟨there, present⟩ (fun neither => ?_) fun _ _ _ => ?_
  · exact neither.elim (fun unasked => by cases resumes.resume.symm.trans unasked)
      fun missing => by cases missing.symm.trans present
  rw [resumes.personas, resumes.cfg]
  refine meets_resumed decodes present there (commitment_of_snapshot found saved).resumesAt
    ⟨there, present⟩ ⟨rfl, present⟩ ?_
  refine meets_mono (meets_finished (settled_runCore done counting saved (ready_opened rfl) present
    rfl rfl) fun panicked => ?_) (fun _ stopped => stopped) ?_
  · cases fuel : again.fuel with
    | zero =>
      rw [fuel, loopFrom_zero] at panicked
      cases panicked
    | succ rounds =>
      rw [fuel, loopFrom_succ, if_pos done, conclude, funded] at panicked
      cases panicked
  rintro result final _ ⟨same, settled⟩ positive
  obtain ⟨rounds, fuel⟩ := Nat.exists_eq_add_one_of_ne_zero positive.ne'
  have ran : loopFrom again.fuel st = .returned st := by rw [fuel, loopFrom_succ, if_pos done]
  refine ⟨?_, ?_⟩
  · rw [same, ran, conclude, funded]
  · obtain ⟨other, again, left⟩ := settled st ran
    rw [left, Option.some.inj (again.symm.trans saved)]

/-! ### Every returned run -/

omit [RngState Generator] in
theorem Near.mono (near : Near serde Generator allowed fewer dir) (within : fewer ≤ most) :
    Near serde Generator allowed most dir := by
  intro contents present
  obtain ⟨attempt, journal, permitted, there, cp, ahead, later, same, runId, few, reached, whole⟩ :=
    near contents present
  exact ⟨attempt, journal, permitted, there, cp, ahead, later, same, runId, by omega, reached,
    whole⟩

/-- Only so many processes have run on a directory, so their cadences have a bound. -/
theorem Found.exists_tracked (decodes : serde.Decodes) (noCollision : NoCollision serde allowed)
    (apart : ToldApart serde allowed) (found : Found serde Generator allowed dir) :
    ∃ most, Tracked serde Generator allowed most dir := by
  induction found with
  | start => exact ⟨0, committed_of_none rfl, near_of_none rfl⟩
  | run state cut task _ permitted reached inductionHypothesis =>
    obtain ⟨most, tracked⟩ := inductionHypothesis
    have wider := tracked.near.mono (le_max_left most (max task.opts.snapshotEveryEvents 1))
    exact ⟨_, (meets_runDurable decodes noCollision apart permitted tracked.committed).safe cut
      reached, (keeps_runDurable decodes noCollision apart permitted (le_max_right _ _)
        tracked.committed wider).safe cut reached⟩

/-- Whatever ran on the directory before and wherever it was killed: an attempt that returns leaves
the journal of all records of its run, the checkpoint of its last boundary, and no temporary file.
Whatever resumes of the run follow and wherever they are killed, the journal and the checkpoint stay
as they are, and a resume that runs returns the same ledger and leaves the same directory. -/
theorem runDurable_settled (decodes : serde.Decodes) (noCollision : NoCollision serde allowed)
    (apart : ToldApart serde allowed) (found : Found serde Generator allowed dir)
    (permitted : allowed attempt)
    (returned : (runDurable serde Generator attempt dir).outcome = .ok (.returned ledger))
    (short : boundaryAt Generator attempt.personas attempt.cfg u64Max = none) :
    ∃ cp, ∃ last : RunState Generator,
      boundaryAt Generator attempt.personas attempt.cfg cp.events = some last ∧
      last.done = true ∧ finalizeFunding last attempt.cfg = some ledger ∧
      last.snapshot (RunId.derive serde attempt.personas attempt.cfg)
        (journalOf serde last.chain.ledger.records).length = some cp ∧
      let settled := (runDurable serde Generator attempt dir).final
      settled = ⟨some (journalOf serde last.chain.ledger.records),
        some (serde.checkpointText cp), none⟩ ∧
      ∀ left, History (Resumes attempt)
          (fun again dir => (runDurable serde Generator again dir).instants) settled left →
        settled.Agrees left ∧ ∀ again, Resumes attempt again → 0 < again.fuel →
          (runDurable serde Generator again left).outcome = .ok (.returned ledger) ∧
            (runDurable serde Generator again left).final = settled := by
  obtain ⟨most, tracked⟩ := found.exists_tracked decodes noCollision apart
  have near := tracked.near.mono (le_max_left most (max attempt.opts.snapshotEveryEvents 1))
  obtain ⟨total, last, reached, done, funded, settled⟩ :=
    (keeps_runDurable decodes noCollision apart permitted (le_max_right _ _)
      tracked.committed near).done _ returned ledger rfl
  have few : total ≠ u64Max := by
    rintro rfl
    cases short.symm.trans reached
  obtain ⟨cp, saved, left⟩ := settled few
  obtain ⟨_, _, _, counted, _⟩ := snapshot_fields saved
  have counting : last.events ≠ u64Max := by
    rw [boundaryAt_events reached]
    exact few
  refine ⟨cp, last, ?_, done, funded, saved, left, ?_⟩
  · rw [counted, boundaryAt_events reached]
    exact reached
  rw [left]
  intro dir history
  have kept := History.invariant ⟨rfl, rfl⟩ (fun again dir resumes kept =>
    (settled_runDurable decodes reached done counting funded saved kept resumes).safe) history
  refine ⟨kept, fun again resumes positive => ?_⟩
  obtain ⟨result, ended, whole⟩ :=
    (settled_runDurable decodes reached done counting funded saved kept resumes).returned
  obtain ⟨rfl, same⟩ := whole positive
  exact ⟨ended, same⟩

end Settlement

/-- The resumed attempt at the small run settles what the killed one left, and resuming it again
changes nothing. -/
theorem runDurable_settled_resumed : ∃ cp ledger journal,
    let settled := (runDurable directorySerde Counter resumedAttempt killedDir).final
    settled = ⟨some journal, some (directorySerde.checkpointText cp), none⟩ ∧
    let resumed := runDurable directorySerde Counter resumedAttempt settled
    resumed.outcome = .ok (.returned ledger) ∧ resumed.final = settled := by
  have returns : (simulate Counter 3 [Persona.retail] journaledRun).result?.isSome = true := by
    decide +kernel
  obtain ⟨ledger, result⟩ := Option.isSome_iff_exists.mp returns
  have returned := runDurable_returns directorySerde_decodes journaledRun_noCollision
    journaledRun_apart killedDir_found (⟨rfl, rfl⟩ : AtJournaledRun resumedAttempt)
    (fun _ => killedDir_own) journaledRun_timed (by decide : 3 ≤ resumedAttempt.fuel)
    (Outcome.result?_eq_some.mp result)
  have last : boundaryAt Counter [Persona.retail] journaledRun 3 = none := by
    rw [← Option.isNone_iff_eq_none]
    decide +kernel
  have few : 3 ≤ u64Max := by
    unfold u64Max
    omega
  obtain ⟨cp, last, _, _, _, _, left, again⟩ := runDurable_settled directorySerde_decodes
    journaledRun_noCollision journaledRun_apart killedDir_found
    (⟨rfl, rfl⟩ : AtJournaledRun resumedAttempt) returned (boundaryAt_none last few)
  obtain ⟨_, whole⟩ := again _ .start
  obtain ⟨ended, same⟩ := whole resumedAttempt ⟨rfl, rfl, rfl⟩ (by decide)
  exact ⟨cp, ledger, _, left, ended, same⟩

end AccountCooker
