/-
This file is about the histories of a run directory. Processes run on it one
after the other, each for its own personas and configuration, fresh or resuming,
with its own cadence, and each can be killed in any instant. Every directory
they leave behind is committed, and so a process that resumes goes on at a
boundary of its run: whichever process is the first to return, it returns the
ledger of the uninterrupted simulation.

A run is named by its texts. This holds of histories whose inputs have different
texts where they differ; floats that are not finite have one text, and the last
sections mix two runs that differ in such a float.
-/

import Mathlib
import AccountCooker.Texts

namespace AccountCooker

open Collections Crash

section Apart

variable {serde : Serde} {allowed : Attempt → Prop} {tokens : Tokens} {personas : List Persona}
  {cfg : SimConfig}

/-! ### Telling runs apart -/

variable (serde allowed) in
/-- No two texts of the inputs of some attempts have one digest. -/
def NoCollision : Prop :=
  ∀ first second, allowed first → allowed second →
    serde.sha256 (inputsText serde first.personas first.cfg) =
      serde.sha256 (inputsText serde second.personas second.cfg) →
    inputsText serde first.personas first.cfg = inputsText serde second.personas second.cfg

variable (serde allowed) in
/-- Different inputs of some attempts have different texts. -/
def ToldApart : Prop :=
  ∀ first second, allowed first → allowed second →
    inputsText serde first.personas first.cfg = inputsText serde second.personas second.cfg →
    first.personas = second.personas ∧ first.cfg.hardening = second.cfg.hardening ∧
      first.cfg.funding = second.cfg.funding

/-- Inputs are told apart where all of their floats are finite. -/
theorem toldApart_of_finite (distinct : tokens.Distinct) (writes : serde.Writes tokens)
    (finite : ∀ attempt, allowed attempt → FiniteInputs attempt.personas attempt.cfg) :
    ToldApart serde allowed :=
  fun first second permitted permitted' same => inputsText_inj distinct writes
    (finite first permitted) (finite second permitted') same

/-- Attempts at one run have one text. -/
theorem noCollision_of_run
    (run : ∀ attempt, allowed attempt → attempt.personas = personas ∧ attempt.cfg = cfg) :
    NoCollision serde allowed := by
  intro first second permitted permitted' _
  rw [(run first permitted).1, (run first permitted).2, (run second permitted').1,
    (run second permitted').2]

theorem toldApart_of_run
    (run : ∀ attempt, allowed attempt → attempt.personas = personas ∧ attempt.cfg = cfg) :
    ToldApart serde allowed := by
  intro first second permitted permitted' _
  rw [(run first permitted).1, (run first permitted).2, (run second permitted').1,
    (run second permitted').2]
  exact ⟨rfl, rfl, rfl⟩

end Apart

/-! ### One process -/

section Process

variable {serde : Serde} {Generator : Type} [Rng Generator] [RngState Generator] [Libm]
  {personas : List Persona} {cfg : SimConfig} {opts : DurabilityOpts} {fuel : Nat} {dir : RunDir}
  {cp : Checkpoint} {st : RunState Generator} {journal : Bytes} {safe : RunDir → Prop}
  {failed : Fault → Prop} {finished : Outcome Ledger → RunDir → Prop}

/-- The sink that writes on behind so many bytes of the journal. -/
def DurableSink.opened (runId : RunId) (opts : DurabilityOpts) (journalLenBytes : Nat) :
    DurableSink :=
  ⟨⟨journalLenBytes, []⟩, runId, max opts.snapshotEveryEvents 1, opts.fsync, u64Max⟩

omit [Rng Generator] [RngState Generator] [Libm] in
theorem ready_opened {runId : RunId}
    (flushed : dir.ledger = some (journalOf serde st.chain.ledger.records)) :
    (DurableSink.opened runId opts (journalOf serde st.chain.ledger.records).length).Ready serde
      runId st dir := ⟨rfl, holds_flushed flushed, Or.inl rfl⟩

variable (serde) in
/-- What fresh and resumed attempts have in common: the loop from a state whose records are those of
the journal, and the funding post-pass. -/
def runFrom (fuel : Nat) (personas : List Persona) (cfg : SimConfig) (opts : DurabilityOpts)
    (st : RunState Generator) : Disk (Outcome Ledger) :=
  runCore (durableSink serde Generator) fuel st (.opened (RunId.derive serde personas cfg) opts
      (journalOf serde st.chain.ledger.records).length) >>= finish cfg

/-- A fresh attempt clears the directory, the checkpoint first, and runs from what it builds. -/
theorem meets_simulated (start : safe dir) (cleared : ∀ ledger tmp, safe ⟨ledger, none, tmp⟩)
    (unbuilt : (buildFresh personas cfg : Option (RunState Generator)) = none → failed .panicked)
    (rest : ∀ st : RunState Generator, buildFresh personas cfg = some st →
      Meets safe failed finished (runFrom serde fuel personas cfg opts st)
        ⟨some (journalOf serde st.chain.ledger.records), none, none⟩) :
    Meets safe failed finished (simulateDurable serde Generator fuel personas cfg opts) dir := by
  unfold simulateDurable DurableSink.create
  refine meets_bind (meets_orPanic start unbuilt fun st building => ?_)
  have empty : st.chain.ledger.records = [] := by
    obtain ⟨⟨st, ids⟩, drawing, rfl⟩ := Option.map_eq_some_iff.mp building
    rw [(buildDrawing_fresh drawing).chain]
    rfl
  have running := rest st building
  unfold runFrom at running
  rw [empty] at running
  refine meets_bind (meets_bind (meets_atOnce start (cleared _ _) ?_))
  refine meets_bind (meets_atOnce (cleared _ _) (cleared _ _) ?_)
  refine meets_bind (meets_atOnce (cleared _ _) (cleared _ _) ?_)
  exact meets_pure (cleared _ _) running

variable (serde) in
/-- A checkpoint from which an attempt goes on: it names its run and was taken at a state of it, and
the records of the state come first in the journal. -/
structure ResumesAt (personas : List Persona) (cfg : SimConfig) (cp : Checkpoint)
    (st : RunState Generator) (journal : Bytes) : Prop where
  runId : cp.runId = RunId.derive serde personas cfg
  built : ∃ built, buildFresh personas cfg = some built ∧ SameRun built st
  snapshot : st.snapshot cp.runId cp.journalLenBytes = some cp
  length : cp.journalLenBytes = (journalOf serde st.chain.ledger.records).length
  journal : journalOf serde st.chain.ledger.records <+: journal

/-- A resumed attempt cuts the journal to the records of the checkpoint and runs on from there. -/
theorem meets_resumed (decodes : serde.Decodes)
    (present : dir.checkpoint = some (serde.checkpointText cp)) (there : dir.ledger = some journal)
    (resumes : ResumesAt serde personas cfg cp st journal) (start : safe dir)
    (kept : safe { dir with ledger := some (journalOf serde st.chain.ledger.records) })
    (rest : Meets safe failed finished (runFrom serde fuel personas cfg opts st)
      { dir with ledger := some (journalOf serde st.chain.ledger.records) }) :
    Meets safe failed finished (resumeDurable serde Generator fuel personas cfg opts) dir := by
  obtain ⟨built, building, same⟩ := resumes.built
  have restored := restoreState_snapshot same (List.Perm.refl _) resumes.snapshot
  have long : cp.journalLenBytes ≤ journal.length := by
    rw [resumes.length]
    exact resumes.journal.length_le
  have cut : dir.cutLedger cp.journalLenBytes =
      { dir with ledger := some (journalOf serde st.chain.ledger.records) } := by
    rw [RunDir.cutLedger, there, Option.map_some, setLen_of_le long, resumes.length,
      ← List.prefix_iff_eq_take.mp resumes.journal]
  have settable : Settable cp.journalLenBytes journal :=
    (Int.ofNat_le.mpr long).trans (le_max_right _ _)
  unfold resumeDurable readCheckpoint
  refine meets_bind (meets_bind (meets_readFile start present ?_))
  rw [decodes.checkpoint]
  refine meets_bind (meets_pure start ?_)
  rw [if_neg (not_not.mpr (snapshot_fields resumes.snapshot).1),
    if_neg (not_not.mpr resumes.runId)]
  refine meets_pure start ?_
  rw [building]
  refine meets_bind (meets_pure start ?_)
  rw [restored]
  refine meets_bind (meets_pure start ?_)
  rw [loadJournalPrefix_eq]
  refine meets_bind (meets_bind (meets_readFile start there ?_))
  rw [if_neg (not_lt.mpr settable)]
  refine meets_bind (meets_atOnce start (cut ▸ kept) ?_)
  rw [cut]
  refine meets_bind (meets_readFile kept rfl ?_)
  rw [snapshot_recordsEmitted resumes.snapshot, loadRecords_journalOf decodes]
  refine meets_bind (meets_pure kept ?_)
  rw [if_neg (not_not.mpr rfl)]
  refine meets_pure kept ?_
  refine meets_bind (meets_bind (meets_readFile kept rfl (meets_pure kept ?_)))
  rw [withRecords_records, resumes.runId, resumes.length]
  exact rest

end Process

section Recovering

variable {serde : Serde} {Generator : Type} [Rng Generator] [RngState Generator] [Libm]
  {allowed : Attempt → Prop} {attempt : Attempt} {dir : RunDir} {cp : Checkpoint}
  {st : RunState Generator} {journal : Bytes} {safe : RunDir → Prop} {failed : Fault → Prop}
  {finished : Outcome Ledger → RunDir → Prop} {tokens : Tokens} {opts : DurabilityOpts}
  {fuel events : Nat}

/-! ### Attempts -/

theorem Commitment.resumesAt (commitment : Commitment serde Generator attempt cp st journal) :
    ResumesAt serde attempt.personas attempt.cfg cp st journal :=
  ⟨commitment.runId, boundaryAt_same commitment.boundary, commitment.snapshot, commitment.length,
    commitment.journal⟩

/-- A commitment to a run is one to every attempt at it. -/
theorem Commitment.matching (noCollision : NoCollision serde allowed)
    (apart : ToldApart serde allowed) {other : Attempt} (permitted : allowed attempt)
    (otherPermitted : allowed other) (commitment : Commitment serde Generator other cp st journal)
    (same : cp.runId = RunId.derive serde attempt.personas attempt.cfg) :
    Commitment serde Generator attempt cp st journal := by
  have inputs := inputs_of_derive (noCollision other attempt otherPermitted permitted)
    (apart other attempt otherPermitted permitted) (commitment.runId.symm.trans same)
  have boundary := commitment.boundary
  rw [inputs.1, inputs.2] at boundary
  exact ⟨same, boundary, commitment.snapshot, commitment.length, commitment.journal⟩

variable (serde) in
/-- The checkpoint that is there is of another run, and this is how resuming it is refused. -/
def Mismatch (attempt : Attempt) (dir : RunDir) (fault : Fault) : Prop :=
  (∃ cp, dir.checkpoint = some (serde.checkpointText cp) ∧
    cp.runId ≠ RunId.derive serde attempt.personas attempt.cfg) ∧
  fault = .io (invalidData "checkpoint (personas, cfg) mismatch — refusing to resume")

/-- A resume of another run is refused before it touches anything. -/
theorem meets_refused (decodes : serde.Decodes) (start : safe dir)
    (present : dir.checkpoint = some (serde.checkpointText cp))
    (format : cp.format = checkpointFormat)
    (mismatch : cp.runId ≠ RunId.derive serde attempt.personas attempt.cfg)
    (refused : ∀ fault, Mismatch serde attempt dir fault → failed fault) :
    Meets safe failed finished
      (resumeDurable serde Generator fuel attempt.personas attempt.cfg opts) dir := by
  unfold resumeDurable readCheckpoint
  refine meets_bind (meets_bind (meets_readFile start present ?_))
  rw [decodes.checkpoint]
  refine meets_bind (meets_pure start ?_)
  rw [if_neg (not_not.mpr format), if_pos mismatch]
  exact meets_fail start (refused _ ⟨⟨cp, present, mismatch⟩, rfl⟩)

/-- An attempt resumes if it was asked to and there is a checkpoint, and else starts afresh. -/
theorem meets_dispatch (start : safe dir)
    (fresh : attempt.resume = false ∨ dir.checkpoint = none →
      Meets safe failed finished (simulateDurable serde Generator attempt.fuel attempt.personas
        attempt.cfg attempt.opts) dir)
    (resumed : attempt.resume = true → ∀ contents, dir.checkpoint = some contents →
      Meets safe failed finished (resumeDurable serde Generator attempt.fuel attempt.personas
        attempt.cfg attempt.opts) dir) :
    Meets safe failed finished (runDurable serde Generator attempt) dir := by
  refine meets_bind (meets_inspect start (fun failure stopped => by cases stopped)
    fun found read => ?_)
  obtain rfl : dir.checkpoint.isSome = found := Except.ok.inj read
  split
  · rename_i both
    obtain ⟨asked, isThere⟩ := Bool.and_eq_true_iff.mp both
    obtain ⟨contents, present⟩ := Option.isSome_iff_exists.mp isThere
    exact resumed asked contents present
  · rename_i either
    rw [Bool.not_eq_true, Bool.and_eq_false_iff] at either
    exact fresh (either.imp_right fun missing =>
      Option.isNone_iff_eq_none.mp (Option.isSome_eq_false_iff.mp missing))

/-- On a committed directory an attempt is fresh, or goes on at the boundary of the checkpoint, or
is refused. -/
theorem meets_attempt (decodes : serde.Decodes) (noCollision : NoCollision serde allowed)
    (apart : ToldApart serde allowed) (permitted : allowed attempt)
    (committed : Committed serde Generator allowed dir) (start : safe dir)
    (refused : ∀ fault, attempt.resume = true → Mismatch serde attempt dir fault → failed fault)
    (fresh : Meets safe failed finished (simulateDurable serde Generator attempt.fuel
      attempt.personas attempt.cfg attempt.opts) dir)
    (resumed : ∀ cp st journal, dir.checkpoint = some (serde.checkpointText cp) →
      dir.ledger = some journal → Commitment serde Generator attempt cp st journal →
      Meets safe failed finished (resumeDurable serde Generator attempt.fuel attempt.personas
        attempt.cfg attempt.opts) dir) :
    Meets safe failed finished (runDurable serde Generator attempt) dir := by
  refine meets_dispatch start (fun _ => fresh) fun asked contents present => ?_
  obtain ⟨other, cp, st, journal, otherPermitted, rfl, there, commitment⟩ :=
    committed contents present
  by_cases same : cp.runId = RunId.derive serde attempt.personas attempt.cfg
  · exact resumed cp st journal present there
      (commitment.matching noCollision apart permitted otherPermitted same)
  · exact meets_refused decodes start present (snapshot_fields commitment.snapshot).1 same
      fun fault mismatch => refused fault asked mismatch

/-! ### Committed directories -/

/-- The journal is cut to what the checkpoint counts. -/
theorem committed_cut (permitted : allowed attempt)
    (present : dir.checkpoint = some (serde.checkpointText cp))
    (commitment : Commitment serde Generator attempt cp st journal) :
    Committed serde Generator allowed
      { dir with ledger := some (journalOf serde st.chain.ledger.records) } := by
  intro contents found
  exact ⟨attempt, cp, st, _, permitted, Option.some.inj (found.symm.trans present), rfl,
    commitment.runId, commitment.boundary, commitment.snapshot, commitment.length,
    List.prefix_rfl⟩

/-- From a boundary on, an attempt ends as the uninterrupted simulation. -/
theorem meets_runFrom (permitted : allowed attempt)
    (found : boundaryAt Generator attempt.personas attempt.cfg events = some st)
    (committed : Committed serde Generator allowed dir)
    (flushed : dir.ledger = some (journalOf serde st.chain.ledger.records)) :
    Meets (Committed serde Generator allowed) (Panics Generator attempt)
      (fun result _ => ∃ events, result =
        simulate Generator (events + fuel) attempt.personas attempt.cfg)
      (runFrom serde fuel attempt.personas attempt.cfg opts st) dir := by
  have simulated : simulate Generator (events + fuel) attempt.personas attempt.cfg =
      conclude attempt.cfg (loopFrom fuel st) := simulate_boundaryAt found
  refine meets_mono (meets_finished (meets_runCore permitted found committed (ready_opened flushed))
    fun panicked => ⟨rfl, Or.inl ⟨_, simulated.trans panicked⟩⟩) (fun _ stopped => stopped) ?_
  rintro result final _ ⟨same, _⟩
  exact ⟨events, same.trans simulated.symm⟩

/-- A resume of the run the checkpoint is of goes on at the boundary it was taken at. -/
theorem meets_resumeDurable (decodes : serde.Decodes) (permitted : allowed attempt)
    (committed : Committed serde Generator allowed dir)
    (present : dir.checkpoint = some (serde.checkpointText cp))
    (there : dir.ledger = some journal)
    (commitment : Commitment serde Generator attempt cp st journal) :
    Meets (Committed serde Generator allowed) (Panics Generator attempt)
      (fun result _ => ∃ events, result =
        simulate Generator (events + fuel) attempt.personas attempt.cfg)
      (resumeDurable serde Generator fuel attempt.personas attempt.cfg opts) dir := by
  have kept := committed_cut permitted present commitment
  exact meets_resumed decodes present there commitment.resumesAt committed kept
    (meets_runFrom permitted commitment.boundary kept rfl)

/-- An attempt fails only as its run does, or by resuming another run; and what it ends with is what
the uninterrupted simulation ends with, given as many rounds and those of the run before. -/
theorem meets_runDurable (decodes : serde.Decodes) (noCollision : NoCollision serde allowed)
    (apart : ToldApart serde allowed) (permitted : allowed attempt)
    (committed : Committed serde Generator allowed dir) :
    Meets (Committed serde Generator allowed)
      (fun fault => Panics Generator attempt fault ∨
        attempt.resume = true ∧ Mismatch serde attempt dir fault)
      (fun result _ => ∃ events, result =
        simulate Generator (events + attempt.fuel) attempt.personas attempt.cfg)
      (runDurable serde Generator attempt) dir := by
  refine meets_attempt decodes noCollision apart permitted committed committed
    (fun fault asked mismatch => Or.inr ⟨asked, mismatch⟩) ?_
    fun cp st journal present there commitment => ?_
  · refine meets_simulated committed (fun _ _ => committed_of_none rfl)
      (fun unbuilt => Or.inl ⟨rfl, Or.inl ⟨0, simulate_not_built unbuilt⟩⟩) fun st building => ?_
    have found : boundaryAt Generator attempt.personas attempt.cfg 0 = some st := building
    exact meets_mono (meets_runFrom permitted found (committed_of_none rfl) rfl)
      (fun _ panicked => Or.inl panicked) fun _ _ _ simulated => simulated
  · exact meets_mono (meets_resumeDurable decodes permitted committed present there commitment)
      (fun _ panicked => Or.inl panicked) fun _ _ _ simulated => simulated

/-! ### Histories -/

variable (serde Generator allowed) in
/-- The directories found after processes that start from an empty one, each on what the one before
it left and each killed in any of its instants. -/
def Found : RunDir → Prop :=
  History allowed (fun attempt dir => (runDurable serde Generator attempt dir).instants)
    RunDir.empty

/-- Every directory the program leaves behind is committed. -/
theorem Found.committed (decodes : serde.Decodes) (noCollision : NoCollision serde allowed)
    (apart : ToldApart serde allowed) (found : Found serde Generator allowed dir) :
    Committed serde Generator allowed dir :=
  History.invariant (committed_of_none rfl)
    (fun _ _ permitted committed cut reached =>
      (meets_runDurable decodes noCollision apart permitted committed).safe cut reached) found

/-- An attempt with as many rounds as the simulation needs returns, wherever the processes before it
were killed, unless it resumes another run or a snapshot meets a wake at the placeholder time. -/
theorem runDurable_returns (decodes : serde.Decodes) (noCollision : NoCollision serde allowed)
    (apart : ToldApart serde allowed) (found : Found serde Generator allowed dir)
    (permitted : allowed attempt)
    (own : attempt.resume = true → ∀ cp, dir.checkpoint = some (serde.checkpointText cp) →
      cp.runId = RunId.derive serde attempt.personas attempt.cfg)
    (timed : ∀ events st, boundaryAt Generator attempt.personas attempt.cfg events = some st →
      ∀ due ∈ st.heap, due.1 ≠ i64Min) {fuel : Nat} (enough : fuel ≤ attempt.fuel)
    {ledger : Ledger}
    (returned : simulate Generator fuel attempt.personas attempt.cfg = .returned ledger) :
    (runDurable serde Generator attempt dir).outcome = .ok (.returned ledger) := by
  have meets := meets_runDurable decodes noCollision apart permitted
    (found.committed decodes noCollision apart)
  cases ended : (runDurable serde Generator attempt dir).outcome with
  | error fault =>
    rcases meets.failed fault ended with ⟨_, ⟨other, panicked⟩ | ⟨events, st, there, due, member,
      least⟩⟩ | ⟨asked, ⟨cp, present, mismatch⟩, _⟩
    · exact absurd panicked (simulate_not_panicked returned other)
    · exact absurd least (timed events st there due member)
    · exact absurd (own asked cp present) mismatch
  | ok result =>
    obtain ⟨events, simulated⟩ := meets.done result ended
    rw [simulated, simulate_ended (fun running => by cases returned.symm.trans running)
      (enough.trans (Nat.le_add_left _ _)), returned]

/-- In every directory the program leaves behind, in whatever instant: a checkpoint that is there is
complete; the journal is at least as long as it says, and its front of that length holds, line by
line, the records the run named by the checkpoint had emitted after the events it counts, as many as
it says, which is also what its counters say. A resume of that run fails with no error. -/
theorem committed_prefix (decodes : serde.Decodes) (noCollision : NoCollision serde allowed)
    (apart : ToldApart serde allowed) (found : Found serde Generator allowed dir)
    {contents : Bytes} (present : dir.checkpoint = some contents) :
    ∃ (cp : Checkpoint) (journal : Bytes), contents = serde.checkpointText cp ∧
      dir.ledger = some journal ∧ cp.journalLenBytes ≤ journal.length ∧
      cp.sig = cp.recordsEmitted ∧ cp.slot = cp.recordsEmitted ∧
      (∃ attempt, allowed attempt ∧
        cp.runId = RunId.derive serde attempt.personas attempt.cfg) ∧
      ∀ attempt, allowed attempt →
        cp.runId = RunId.derive serde attempt.personas attempt.cfg →
        (∃ st, boundaryAt Generator attempt.personas attempt.cfg cp.events = some st ∧
          st.chain.ledger.records.length = cp.recordsEmitted ∧
          journal.take cp.journalLenBytes = journalOf serde st.chain.ledger.records) ∧
        ∀ fuel opts error,
          (resumeDurable serde Generator fuel attempt.personas attempt.cfg opts dir).outcome ≠
            .error (.io error) := by
  have committed := found.committed decodes noCollision apart
  obtain ⟨other, cp, st, journal, otherPermitted, rfl, there, commitment⟩ :=
    committed contents present
  have emitted := snapshot_recordsEmitted commitment.snapshot
  obtain ⟨_, _, _, _, sig, slot⟩ := snapshot_fields commitment.snapshot
  have numbered : Numbered st.chain := by
    obtain ⟨ids, boundary⟩ := boundaryAt_boundary commitment.boundary
    obtain ⟨built, first, reached⟩ := boundary.reached
    exact reached.ordered.numbered
  refine ⟨cp, journal, rfl, there, ?_, ?_, ?_, ⟨other, otherPermitted, commitment.runId⟩, ?_⟩
  · rw [commitment.length]
    exact commitment.journal.length_le
  · rw [sig, numbered.sig, emitted]
  · rw [slot, numbered.slot, emitted]
  intro attempt permitted same
  have matching := commitment.matching noCollision apart permitted otherPermitted same
  refine ⟨⟨st, matching.boundary, emitted.symm, ?_⟩, fun fuel opts error stopped => ?_⟩
  · rw [commitment.length]
    exact (List.prefix_iff_eq_take.mp commitment.journal).symm
  · have panicked := (meets_resumeDurable decodes permitted committed present there
      matching).failed _ stopped
    cases panicked.1

end Recovering

/-! ### A killed run -/

/-- The small run with a funding. -/
def journaledRun : SimConfig := { smallRun with funding := some (.new .operatorHub) }

/-- Any attempt at the small funded run of retail users. -/
def AtJournaledRun (attempt : Attempt) : Prop :=
  attempt.personas = [Persona.retail] ∧ attempt.cfg = journaledRun

/-- An attempt that is killed after its second boundary, before its journal is flushed again. -/
def killedAttempt : Attempt := ⟨[Persona.retail], journaledRun, ⟨1, true⟩, false, 2⟩

/-- An attempt to resume, with another cadence. -/
def resumedAttempt : Attempt := ⟨[Persona.retail], journaledRun, ⟨1000, true⟩, true, 10⟩

/-- What the killed attempt leaves behind. -/
def killedDir : RunDir := (runDurable directorySerde Counter killedAttempt RunDir.empty).final

theorem killedDir_found : Found directorySerde Counter AtJournaledRun killedDir :=
  History.run RunDir.empty killedDir killedAttempt .start ⟨rfl, rfl⟩
    (List.mem_append_right _ List.mem_cons_self)

theorem journaledRun_noCollision : NoCollision directorySerde AtJournaledRun :=
  noCollision_of_run fun _ atRun => atRun

theorem journaledRun_apart : ToldApart directorySerde AtJournaledRun :=
  toldApart_of_run fun _ atRun => atRun

theorem killedDir_checkpoint : killedDir.checkpoint.isSome = true := by decide +kernel

/-- The front of the journal of the killed attempt is what its checkpoint counts, and nothing stands
in the way of a resume. -/
theorem committed_prefix_killed : ∃ cp journal,
    killedDir.checkpoint = some (directorySerde.checkpointText cp) ∧
    killedDir.ledger = some journal ∧ cp.journalLenBytes ≤ journal.length ∧
    ∀ error, (resumeDurable directorySerde Counter 10 [Persona.retail] journaledRun ⟨1000, true⟩
      killedDir).outcome ≠ .error (.io error) := by
  obtain ⟨contents, present⟩ := Option.isSome_iff_exists.mp killedDir_checkpoint
  obtain ⟨cp, journal, rfl, there, long, _, _, ⟨attempt, atRun, named⟩, runs⟩ :=
    committed_prefix directorySerde_decodes journaledRun_noCollision journaledRun_apart
      killedDir_found present
  rw [atRun.1, atRun.2] at named
  exact ⟨cp, journal, present, there, long,
    (runs resumedAttempt ⟨rfl, rfl⟩ named).2 10 ⟨1000, true⟩⟩

/-! ### Exact recovery -/

section Exactness

variable {serde : Serde} {Generator : Type} [Rng Generator] [RngState Generator] [Libm]
  {allowed : Attempt → Prop} {attempt : Attempt} {dir : RunDir}

/-- Whatever processes ran on the directory before and wherever they were killed: an attempt that
returns a ledger returns that of the uninterrupted simulation. -/
theorem runDurable_exact (decodes : serde.Decodes) (noCollision : NoCollision serde allowed)
    (apart : ToldApart serde allowed) (found : Found serde Generator allowed dir)
    (permitted : allowed attempt) {ledger : Ledger}
    (returned : (runDurable serde Generator attempt dir).outcome = .ok (.returned ledger)) :
    ∃ fuel, ∀ more, fuel ≤ more →
      simulate Generator more attempt.personas attempt.cfg = .returned ledger := by
  have committed := found.committed decodes noCollision apart
  obtain ⟨events, simulated⟩ := (meets_runDurable decodes noCollision apart permitted
    committed).done _ returned
  refine ⟨events + attempt.fuel, fun more longer => ?_⟩
  rw [simulate_ended (fun running => by cases simulated.trans running) longer, ← simulated]

end Exactness

/-- No wake of the small funded run is due at the placeholder time. -/
theorem journaledRun_timed (events : Nat) (st : RunState Counter)
    (found : boundaryAt Counter [Persona.retail] journaledRun events = some st) :
    ∀ due ∈ st.heap, due.1 ≠ i64Min := by
  have last : (boundaryAt Counter [Persona.retail] journaledRun 3).isNone = true := by
    decide +kernel
  have timed : ∀ events < 3, ((boundaryAt Counter [Persona.retail] journaledRun events).all
      fun st => st.heap.all fun due => decide (due.1 ≠ i64Min)) = true := by decide +kernel
  have before : events < 3 := by
    by_contra later
    have missing := boundaryAt_none (Option.isNone_iff_eq_none.mp last) (Nat.le_of_not_lt later)
    cases missing.symm.trans found
  have here := timed events before
  rw [found, Option.all_some] at here
  exact fun due member => of_decide_eq_true (List.all_eq_true.mp here due member)

theorem killedDir_own (cp : Checkpoint)
    (present : killedDir.checkpoint = some (directorySerde.checkpointText cp)) :
    cp.runId = RunId.derive directorySerde [Persona.retail] journaledRun := by
  have committed := killedDir_found.committed directorySerde_decodes journaledRun_noCollision
    journaledRun_apart
  obtain ⟨attempt, other, st, journal, atRun, same, _, commitment⟩ := committed _ present
  have parsed := directorySerde_decodes.checkpoint cp
  rw [same, directorySerde_decodes.checkpoint other] at parsed
  rw [← Except.ok.inj parsed, commitment.runId, atRun.1, atRun.2]

/-- The attempt after the killed one returns the ledger of the run that nothing interrupts. -/
theorem runDurable_exact_resumed : ∃ ledger fuel,
    (runDurable directorySerde Counter resumedAttempt killedDir).outcome = .ok (.returned ledger) ∧
    ∀ more, fuel ≤ more →
      simulate Counter more [Persona.retail] journaledRun = .returned ledger := by
  have returns : (simulate Counter 3 [Persona.retail] journaledRun).result?.isSome = true := by
    decide +kernel
  obtain ⟨ledger, result⟩ := Option.isSome_iff_exists.mp returns
  have returned := runDurable_returns directorySerde_decodes journaledRun_noCollision
    journaledRun_apart killedDir_found (⟨rfl, rfl⟩ : AtJournaledRun resumedAttempt)
    (fun _ => killedDir_own) journaledRun_timed (by decide : 3 ≤ resumedAttempt.fuel)
    (Outcome.result?_eq_some.mp result)
  obtain ⟨fuel, exact⟩ := runDurable_exact directorySerde_decodes journaledRun_noCollision
    journaledRun_apart killedDir_found (⟨rfl, rfl⟩ : AtJournaledRun resumedAttempt) returned
  exact ⟨ledger, fuel, returned, exact⟩

/-! ### Two runs with one text -/

/-- A run that never consolidates: nothing is below a probability that is no number. -/
def nanRun : SimConfig :=
  { smallRun with hardening := { HardeningConfig.default with consolidationProb := 0.0 / 0.0 } }

/-- A run that consolidates at every wake. -/
def infiniteRun : SimConfig :=
  { smallRun with hardening := { HardeningConfig.default with consolidationProb := 1.0 / 0.0 } }

/-- Both probabilities are written as `null`. -/
theorem infiniteRun_text : inputsText directorySerde [Persona.retail] infiniteRun =
    inputsText directorySerde [Persona.retail] nanRun := by decide +kernel

theorem infiniteRun_identity : RunId.derive directorySerde [Persona.retail] infiniteRun =
    RunId.derive directorySerde [Persona.retail] nanRun := by
  unfold RunId.derive
  rw [infiniteRun_text]
  rfl

/-- Of the hardening, a run is built from whether the aggregate rate is held. -/
theorem buildRun_hardening {Generator : Type} [Rng Generator] [Libm] (personas : List Persona)
    (cfg : SimConfig) (hardening : HardeningConfig)
    (held : hardening.holdAggregateRate = cfg.hardening.holdAggregateRate) :
    (buildRun personas { cfg with hardening := hardening } :
      Draw Generator (List AccountId × Built)) = buildRun personas cfg := by
  have rates : holdRate { cfg with hardening := hardening } = holdRate cfg := by
    funext n d
    unfold holdRate
    rw [← held]
  have schedules : (scheduleSubaccount { cfg with hardening := hardening } :
      Persona → Nat → Nat → List SubSched × List Sched → Nat →
        Draw Generator (List SubSched × List Sched)) = scheduleSubaccount cfg := by
    unfold scheduleSubaccount
    rw [rates]
  unfold buildRun buildAgent buildSchedule
  rw [schedules]
  rfl

theorem buildFresh_infiniteRun :
    (buildFresh [Persona.retail] infiniteRun : Option (RunState Counter)) =
      (buildFresh [Persona.retail] nanRun).map (RunState.under infiniteRun) := by
  have drawing : (buildDrawing [Persona.retail] infiniteRun :
      Option (RunState Counter × List AccountId)) =
        (buildDrawing [Persona.retail] nanRun).map
          (fun built => (built.1.under infiniteRun, built.2)) :=
    buildDrawing_under (buildRun_hardening _ nanRun infiniteRun.hardening rfl) rfl rfl rfl
  unfold buildFresh
  rw [drawing, Option.map_map, Option.map_map]
  rfl

/-- An attempt at the first run, killed after its second boundary. -/
def nanAttempt : Attempt := ⟨[Persona.retail], nanRun, ⟨1, true⟩, false, 2⟩

/-- What it leaves behind. -/
def nanDir : RunDir := (runDurable directorySerde Counter nanAttempt RunDir.empty).final

/-- An attempt at the second run, which is not refused there. -/
def mixedAttempt : Attempt := ⟨[Persona.retail], infiniteRun, ⟨1000, true⟩, true, 10⟩

theorem nanDir_found {allowed : Attempt → Prop} (permitted : allowed nanAttempt) :
    Found directorySerde Counter allowed nanDir :=
  History.run RunDir.empty nanDir nanAttempt .start permitted
    (List.mem_append_right _ List.mem_cons_self)

theorem nanDir_checkpoint : (nanDir.checkpoint.any fun contents =>
    (directorySerde.parseCheckpoint contents).toOption.any fun cp => cp.events = 1) = true := by
  decide +kernel

/-- What was left behind is a checkpoint of the first boundary. -/
theorem nanDir_resumes : ∃ cp st journal,
    nanDir.checkpoint = some (directorySerde.checkpointText cp) ∧ nanDir.ledger = some journal ∧
      boundaryAt Counter [Persona.retail] nanRun 1 = some st ∧
      ResumesAt directorySerde [Persona.retail] infiniteRun cp (st.under infiniteRun) journal := by
  obtain ⟨contents, present, parsed⟩ := (Option.any_eq_true _ _).mp nanDir_checkpoint
  have alone (attempt : Attempt) (first : attempt = nanAttempt) :
      attempt.personas = [Persona.retail] ∧ attempt.cfg = nanRun := by
    rw [first]
    exact ⟨rfl, rfl⟩
  have committed := Found.committed directorySerde_decodes (noCollision_of_run alone)
    (toldApart_of_run alone) (nanDir_found rfl)
  obtain ⟨_, cp, st, journal, rfl, rfl, there, commitment⟩ := committed contents present
  rw [directorySerde_decodes.checkpoint] at parsed
  have first : cp.events = 1 := of_decide_eq_true parsed
  have found : boundaryAt Counter [Persona.retail] nanRun cp.events = some st :=
    commitment.boundary
  rw [first] at found
  obtain ⟨built, building, same⟩ := boundaryAt_same found
  refine ⟨cp, st, journal, present, there, found, ?_, ⟨built.under infiniteRun, ?_, ?_⟩,
    commitment.snapshot, commitment.length, commitment.journal⟩
  · rw [infiniteRun_identity]
    exact commitment.runId
  · rw [buildFresh_infiniteRun, building]
    rfl
  · exact ⟨same.agents, same.externals, same.sched, rfl, same.finish, same.heap⟩

/-- The second run serves one event from there, and then has three records. -/
theorem mixed_event : ((boundaryAt Counter [Persona.retail] nanRun 1).any fun st =>
    !st.done && (nextTimes st.heap st.sched.length).isSome && st.events == 1 &&
      (st.under infiniteRun).event.any fun last =>
        last.done && (nextTimes last.heap last.sched.length).isSome && last.events == 2 &&
          decide (st.chain.ledger.records <+: last.chain.ledger.records) &&
          last.chain.ledger.records.length == 3) = true := by decide +kernel

section Ending

variable {serde : Serde} {Generator : Type} [Rng Generator] [RngState Generator] [Libm]
  {attempt : Attempt} {dir : RunDir} {cp : Checkpoint} {st first last : RunState Generator}
  {journal : Bytes} {runId : RunId} {sink : DurableSink} {ledger : Ledger} {fuel : Nat}

omit [Rng Generator] [Libm] in
theorem snapshot_ne_none (timed : (nextTimes st.heap st.sched.length).isSome = true)
    (runId : RunId) (journalLenBytes : Nat) : st.snapshot runId journalLenBytes ≠ none := by
  obtain ⟨times, read⟩ := Option.isSome_iff_exists.mp timed
  rw [RunState.snapshot, read]
  exact Option.some_ne_none _

omit [RngState Generator] in
/-- A state with one event to serve, and the state after it. -/
structure LastEvent (first last : RunState Generator) : Prop where
  due : first.done = false
  moved : first.event = some last
  done : last.done = true
  later : first.events < last.events
  counting : last.events ≠ u64Max
  grown : first.chain.ledger.records <+: last.chain.ledger.records
  timedFirst : (nextTimes first.heap first.sched.length).isSome = true
  timedLast : (nextTimes last.heap last.sched.length).isSome = true

omit [RngState Generator] in
theorem LastEvent.loopFrom_eq (event : LastEvent first last) (enough : 2 ≤ fuel) :
    loopFrom fuel first = .returned last := by
  obtain ⟨rounds, rfl⟩ := Nat.exists_eq_add_of_le' enough
  rw [loopFrom_succ, event.due, event.moved]
  show loopFrom (rounds + 1) last = _
  rw [loopFrom_succ, if_pos event.done]

/-- A loop with one event to serve, wherever it starts, leaves its last directory settled. -/
theorem LastEvent.meets_runCore (event : LastEvent first last)
    (ready : sink.Ready serde runId first dir) :
    Meets (fun _ => True) (fun _ => False)
      (EndsAs fuel first fun final dir => dir.Settled serde runId final)
      (runCore (durableSink serde Generator) fuel first sink) dir := by
  refine meets_loop (fun st sink dir => (st = first ∨ st = last) ∧ sink.Ready serde runId st dir)
    _ (fun _ _ _ _ => trivial) ?_ fuel ⟨Or.inl rfl, ready⟩
  rintro st sink dir ⟨among, ready⟩
  have saved (length : Nat) : st.snapshot sink.runId length ≠ none := by
    rcases among with rfl | rfl
    · exact snapshot_ne_none event.timedFirst _ _
    · exact snapshot_ne_none event.timedLast _ _
  refine meets_mono (meets_sinkBoundary st.done ready.journal (fun _ _ _ _ => trivial)
    (fun unsaved => absurd unsaved (saved _)) fun _ _ => trivial) (fun _ stopped => stopped) ?_
  rintro ⟨after, stop⟩ final _ ⟨going, passes⟩
  refine ⟨going, fun finished => ?_, fun next running moved => ?_⟩
  · rcases among with rfl | rfl
    · exact absurd (event.due.symm.trans finished) Bool.false_ne_true
    · exact passes.settled ready finished event.counting
  · rcases among with same | same
    · rw [same] at moved passes ready ⊢
      obtain rfl := Option.some.inj (moved.symm.trans event.moved)
      exact ⟨event.grown, passes.holds ready, fun _ _ _ _ => trivial,
        fun journal held => ⟨Or.inr rfl, passes.ready ready event.later held⟩⟩
    · rw [same] at running
      exact absurd (running.symm.trans event.done) Bool.false_ne_true

/-- An attempt that resumes before the last event of a run returns its ledger and leaves a settled
directory. -/
theorem LastEvent.meets_runDurable (event : LastEvent first last) (decodes : serde.Decodes)
    (asked : attempt.resume = true) (present : dir.checkpoint = some (serde.checkpointText cp))
    (there : dir.ledger = some journal)
    (resumes : ResumesAt serde attempt.personas attempt.cfg cp first journal)
    (enough : 2 ≤ attempt.fuel) (funded : finalizeFunding last attempt.cfg = some ledger) :
    Meets (fun _ => True) (fun _ => False)
      (fun result final => result = .returned ledger ∧
        final.Settled serde (RunId.derive serde attempt.personas attempt.cfg) last)
      (runDurable serde Generator attempt) dir := by
  have ran := event.loopFrom_eq enough
  have ended : conclude attempt.cfg (loopFrom attempt.fuel first) = .returned ledger := by
    rw [ran, conclude, funded]
  refine meets_dispatch trivial (fun neither => ?_) fun _ _ _ =>
    meets_resumed decodes present there resumes trivial trivial ?_
  · exact neither.elim (fun unasked => by cases asked.symm.trans unasked)
      fun missing => by cases missing.symm.trans present
  refine meets_mono (meets_finished (event.meets_runCore (ready_opened rfl))
    fun panicked => by cases ended.symm.trans panicked) (fun _ stopped => stopped) ?_
  rintro result final _ ⟨rfl, settled⟩
  exact ⟨ended, settled last ran⟩

end Ending

/-- The second attempt returns a ledger of three records, and leaves them behind. -/
theorem mixedAttempt_returns : ∃ last : RunState Counter,
    last.events = 2 ∧ last.chain.ledger.records.length = 3 ∧
      (runDurable directorySerde Counter mixedAttempt nanDir).outcome =
        .ok (.returned last.chain.ledger) ∧
      (runDurable directorySerde Counter mixedAttempt nanDir).final.Settled directorySerde
        (RunId.derive directorySerde [Persona.retail] infiniteRun) last := by
  obtain ⟨cp, st, journal, present, there, found, resumes⟩ := nanDir_resumes
  have facts := mixed_event
  rw [found, Option.any_some] at facts
  simp only [Bool.and_eq_true, Bool.not_eq_true', beq_iff_eq] at facts
  obtain ⟨⟨⟨due, timed⟩, counted⟩, facts⟩ := facts
  obtain ⟨last, moved, facts⟩ := (Option.any_eq_true _ _).mp facts
  simp only [Bool.and_eq_true, beq_iff_eq, decide_eq_true_eq] at facts
  obtain ⟨⟨⟨⟨done, timed'⟩, counted'⟩, grown⟩, three⟩ := facts
  have event : LastEvent (st.under infiniteRun) last := by
    refine ⟨due, moved, done, ?_, ?_, grown, timed, timed'⟩
    · show st.events < last.events
      rw [counted, counted']
      exact Nat.lt_succ_self 1
    · rw [counted']
      decide
  have meets : Meets (fun _ => True) (fun _ => False) (fun result final =>
      result = Outcome.returned last.chain.ledger ∧ final.Settled directorySerde
        (RunId.derive directorySerde [Persona.retail] infiniteRun) last)
      (runDurable directorySerde Counter mixedAttempt) nanDir :=
    event.meets_runDurable directorySerde_decodes rfl present there resumes
      (by decide : 2 ≤ mixedAttempt.fuel) rfl
  obtain ⟨result, returned, rfl, settled⟩ := meets.returned
  exact ⟨last, counted', three, returned, settled⟩

/-- Any attempt at one of the two runs. -/
def AtEitherRun (attempt : Attempt) : Prop :=
  attempt.personas = [Persona.retail] ∧ (attempt.cfg = nanRun ∨ attempt.cfg = infiniteRun)

theorem eitherRun_text {attempt : Attempt} (atEither : AtEitherRun attempt) :
    inputsText directorySerde attempt.personas attempt.cfg =
      inputsText directorySerde [Persona.retail] nanRun := by
  obtain ⟨personas, cfg | cfg⟩ := atEither
  · rw [personas, cfg]
  · rw [personas, cfg, infiniteRun_text]

theorem eitherRun_noCollision : NoCollision directorySerde AtEitherRun :=
  fun _ _ first second _ => (eitherRun_text first).trans (eitherRun_text second).symm

/-- Neither run has three records after its second event, nor at its end. -/
theorem eitherRun_records {attempt : Attempt} (atEither : AtEitherRun attempt) :
    (∀ st, boundaryAt Counter attempt.personas attempt.cfg 2 = some st →
      st.chain.ledger.records.length = 5) ∧
    ∃ ledger, simulate Counter 3 attempt.personas attempt.cfg = .returned ledger ∧
      ledger.records.length = 5 := by
  have counts : ∀ cfg ∈ [nanRun, infiniteRun],
      ((boundaryAt Counter [Persona.retail] cfg 2).all fun st =>
        st.chain.ledger.records.length == 5) = true ∧
      ((simulate Counter 3 [Persona.retail] cfg).result?.any fun ledger =>
        ledger.records.length == 5) = true := by decide +kernel
  obtain ⟨personas, cfg⟩ := atEither
  obtain ⟨after, ended⟩ := counts attempt.cfg (by simpa using cfg)
  rw [← personas] at after ended
  refine ⟨fun st found => ?_, ?_⟩
  · rw [found, Option.all_some] at after
    exact beq_iff_eq.mp after
  · obtain ⟨ledger, result, five⟩ := (Option.any_eq_true _ _).mp ended
    exact ⟨ledger, Outcome.result?_eq_some.mp result, beq_iff_eq.mp five⟩

/-- A history of attempts at two runs with one text, the last of which returns what neither of the
simulations does. -/
theorem runDurable_astray : ∃ dir ledger, NoCollision directorySerde AtEitherRun ∧
    Found directorySerde Counter AtEitherRun dir ∧ AtEitherRun mixedAttempt ∧
    (runDurable directorySerde Counter mixedAttempt dir).outcome = .ok (.returned ledger) ∧
    ∀ attempt, AtEitherRun attempt → ∀ fuel,
      simulate Counter fuel attempt.personas attempt.cfg ≠ .returned ledger := by
  obtain ⟨last, _, three, returned, _⟩ := mixedAttempt_returns
  refine ⟨nanDir, last.chain.ledger, eitherRun_noCollision, nanDir_found ⟨rfl, Or.inl rfl⟩,
    ⟨rfl, Or.inr rfl⟩, returned, fun attempt atEither fuel simulated => ?_⟩
  obtain ⟨ledger, other, five⟩ := (eitherRun_records atEither).2
  have first := simulate_ended (fun running => by cases simulated.symm.trans running)
    (Nat.le_max_left fuel 3)
  have second := simulate_ended (fun running => by cases other.symm.trans running)
    (Nat.le_max_right fuel 3)
  obtain rfl : last.chain.ledger = ledger :=
    Outcome.returned.inj (simulated.symm.trans (first.symm.trans (second.trans other)))
  exact absurd (three.symm.trans five) (by decide)

/-- What it leaves behind is a checkpoint with more or fewer records than either run it may be of
had emitted after the events it counts. -/
theorem committed_astray : ∃ dir cp, NoCollision directorySerde AtEitherRun ∧
    Found directorySerde Counter AtEitherRun dir ∧
    dir.checkpoint = some (directorySerde.checkpointText cp) ∧
    ∀ attempt, AtEitherRun attempt →
      cp.runId = RunId.derive directorySerde attempt.personas attempt.cfg ∧
      ∀ st, boundaryAt Counter attempt.personas attempt.cfg cp.events = some st →
        st.chain.ledger.records.length ≠ cp.recordsEmitted := by
  obtain ⟨last, two, three, _, cp, saved, left⟩ := mixedAttempt_returns
  obtain ⟨_, runId, _, counted, _⟩ := snapshot_fields saved
  refine ⟨(runDurable directorySerde Counter mixedAttempt nanDir).final, cp, eitherRun_noCollision,
    .run nanDir _ mixedAttempt (nanDir_found ⟨rfl, Or.inl rfl⟩) ⟨rfl, Or.inr rfl⟩
      (List.mem_append_right _ List.mem_cons_self), by rw [left], fun attempt atEither => ⟨?_, ?_⟩⟩
  · rw [runId, infiniteRun_identity]
    obtain ⟨personas, cfg | cfg⟩ := atEither
    · rw [personas, cfg]
    · rw [personas, cfg, infiniteRun_identity]
  · rw [counted, two]
    intro st found emitted
    have five := (eitherRun_records atEither).1 st found
    rw [snapshot_recordsEmitted saved, three, five] at emitted
    exact absurd emitted (by decide)

end AccountCooker
