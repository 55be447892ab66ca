/-
This file is about resumes that are refused: what `resume_durable` has done to
the run directory when it returns an error before its event loop starts.

All checks of the checkpoint come before the first write, so a resume refused by
one of them has touched nothing. The journal is checked last, and it is cut down
to its committed part before it is read: when it then does not hold the records
the checkpoint claims, the uncommitted tail is gone although the resume is
refused. The checkpoint itself is never touched.
-/

import Mathlib
import AccountCooker.Durable

namespace AccountCooker

open Crash

/-! ### What the checks read -/

theorem readsOnly_readFile (file : RunDir → Option Bytes) : ReadsOnly (readFile file) :=
  readsOnly_inspect _

theorem readsOnly_orFail {Result : Type} (outcome : Except IoError Result) :
    ReadsOnly (orFail outcome) := by
  cases outcome with
  | error error => exact readsOnly_fail _
  | ok result => exact readsOnly_pure result

theorem readsOnly_orPanic {Result : Type} (outcome : Option Result) :
    ReadsOnly (orPanic outcome) := by
  cases outcome with
  | none => exact readsOnly_fail _
  | some result => exact readsOnly_pure result

section Resuming

variable (serde : Serde)

theorem readsOnly_readCheckpoint (personas : List Persona) (cfg : SimConfig) :
    ReadsOnly (readCheckpoint serde personas cfg) := by
  unfold readCheckpoint
  refine readsOnly_bind (readsOnly_readFile _) fun raw => ?_
  refine readsOnly_bind (readsOnly_orFail _) fun cp => ?_
  split
  · exact readsOnly_fail _
  split
  · exact readsOnly_fail _
  · exact readsOnly_pure cp

theorem orFail_ok {Result : Type} {outcome : Except IoError Result} {dir : RunDir}
    {result : Result} (ended : (orFail outcome dir).outcome = .ok result) :
    outcome = .ok result := by
  cases outcome with
  | error error => exact absurd ended (by simp [orFail, Persistent.fail])
  | ok other => exact congrArg Except.ok (Except.ok.inj ended)

theorem orPanic_ok {Result : Type} {outcome : Option Result} {dir : RunDir} {result : Result}
    (ended : (orPanic outcome dir).outcome = .ok result) : outcome = some result := by
  cases outcome with
  | none => exact absurd ended (by simp [orPanic, Persistent.fail])
  | some other => exact congrArg some (Except.ok.inj ended)

/-! ### The journal -/

/-- The journal cut down to its committed part. -/
def RunDir.cutLedger (lenBytes : Nat) (dir : RunDir) : RunDir :=
  { dir with ledger := dir.ledger.map (setLen lenBytes) }

theorem setLen_of_le {length : Nat} {contents : Bytes} (short : length ≤ contents.length) :
    setLen length contents = contents.take length := by
  unfold setLen
  rw [Nat.sub_eq_zero_of_le short, List.replicate_zero, List.append_nil]

/-- The records of the journal, which must be as many as claimed. -/
def readRecords (count : Nat) : Disk (List TxRecord) := do
  let contents ← readFile (·.ledger)
  let records ← orFail (loadRecords serde count contents)
  if records.length ≠ count then
    Persistent.fail (.io (invalidData
      s!"journal has {records.length} committed records, checkpoint claims {count}"))
  else pure records

theorem readsOnly_readRecords (count : Nat) : ReadsOnly (readRecords serde count) := by
  unfold readRecords
  refine readsOnly_bind (readsOnly_readFile _) fun contents => ?_
  refine readsOnly_bind (readsOnly_orFail _) fun records => ?_
  split
  · exact readsOnly_fail _
  · exact readsOnly_pure records

/-- A file can be given this length. -/
def Settable (lenBytes : Nat) (contents : Bytes) : Prop :=
  (lenBytes : Int) ≤ max i64Max contents.length

theorem loadJournalPrefix_eq (count lenBytes : Nat) : loadJournalPrefix serde count lenBytes =
    (readFile (·.ledger) >>= fun found =>
      if max i64Max found.length < lenBytes then
        Persistent.fail (.io (invalidInput "out of range integral type conversion attempted"))
      else atOnce (RunDir.cutLedger lenBytes) >>= fun _ => readRecords serde count) := rfl

section Loading

variable {count lenBytes : Nat} {dir : RunDir}

theorem readFile_ledger {contents : Bytes} (present : dir.ledger = some contents) :
    (readFile (·.ledger) dir).outcome = .ok contents := by
  simp [readFile, Persistent.inspect, present]

/-- A journal that is not there is not loaded. -/
theorem loadJournalPrefix_missing (missing : dir.ledger = none) :
    Refused (loadJournalPrefix serde count lenBytes) dir (.io fileNotFound) dir := by
  rw [loadJournalPrefix_eq]
  exact bind_refused ⟨by simp [readFile, Persistent.inspect, missing], rfl⟩

/-- A length out of range is refused before the journal is touched. -/
theorem loadJournalPrefix_unsettable {contents : Bytes} (present : dir.ledger = some contents)
    (unsettable : ¬ Settable lenBytes contents) :
    Refused (loadJournalPrefix serde count lenBytes) dir
      (.io (invalidInput "out of range integral type conversion attempted")) dir := by
  rw [loadJournalPrefix_eq]
  refine bind_ok_refused (readFile_ledger present) ?_
  rw [if_pos (not_le.mp unsettable), readsOnly_readFile]
  exact ⟨rfl, rfl⟩

/-- Loading cuts the journal down before it reads it, and changes nothing else. -/
theorem loadJournalPrefix_cut {contents : Bytes} (present : dir.ledger = some contents)
    (settable : Settable lenBytes contents) :
    (loadJournalPrefix serde count lenBytes dir).outcome =
        (readRecords serde count (dir.cutLedger lenBytes)).outcome ∧
      (loadJournalPrefix serde count lenBytes dir).final = dir.cutLedger lenBytes := by
  have cut : (atOnce (RunDir.cutLedger lenBytes) dir).outcome = .ok () := rfl
  rw [loadJournalPrefix_eq, (bind_ok (readFile_ledger present)).1,
    (bind_ok (readFile_ledger present)).2, if_neg (not_lt.mpr settable), readsOnly_readFile,
    (bind_ok cut).1, (bind_ok cut).2, readsOnly_readRecords]
  exact ⟨rfl, rfl⟩

/-- A journal that was loaded is there, and has been cut down. -/
theorem loadJournalPrefix_ok {records : List TxRecord}
    (ended : (loadJournalPrefix serde count lenBytes dir).outcome = .ok records) :
    ∃ contents, dir.ledger = some contents ∧ Settable lenBytes contents := by
  cases present : dir.ledger with
  | none =>
    rw [(loadJournalPrefix_missing serde present).outcome] at ended
    exact absurd ended (by simp)
  | some contents =>
    refine ⟨contents, rfl, ?_⟩
    by_contra unsettable
    rw [(loadJournalPrefix_unsettable serde present unsettable).outcome] at ended
    exact absurd ended (by simp)

/-- A journal that could not be loaded is as it was, or it has been cut down. -/
theorem loadJournalPrefix_left (count lenBytes : Nat) (dir : RunDir) :
    (loadJournalPrefix serde count lenBytes dir).final = dir ∨
      (loadJournalPrefix serde count lenBytes dir).final = dir.cutLedger lenBytes := by
  cases present : dir.ledger with
  | none => exact Or.inl (loadJournalPrefix_missing serde present).final
  | some contents =>
    by_cases settable : Settable lenBytes contents
    · exact Or.inr (loadJournalPrefix_cut serde present settable).2
    · exact Or.inl (loadJournalPrefix_unsettable serde present settable).final

end Loading

/-! ### A resume up to its loop -/

variable {Generator : Type} [Rng Generator] [RngState Generator] [Libm]

variable (Generator) in
/-- `resume_durable` up to its event loop: the restored state and the reopened journal. -/
def prepareResume (personas : List Persona) (cfg : SimConfig) (opts : DurabilityOpts) :
    Disk (RunState Generator × DurableSink) := do
  let cp ← readCheckpoint serde personas cfg
  let built ← orPanic (buildFresh personas cfg : Option (RunState Generator))
  let st ← orFail (restoreState cp built)
  let records ← loadJournalPrefix serde cp.recordsEmitted cp.journalLenBytes
  let sink ← DurableSink.reopen cp.runId opts cp.journalLenBytes
  pure (st.withRecords records, sink)

variable {personas : List Persona} {cfg : SimConfig} {opts : DurabilityOpts} {dir left : RunDir}
  {fault : Fault}

variable (Generator) in
/-- The checks of the checkpoint pass: it is read, it is of this run, and it fits the rebuilt
state. -/
def CheckpointAccepted (personas : List Persona) (cfg : SimConfig) (dir : RunDir)
    (cp : Checkpoint) : Prop :=
  (readCheckpoint serde personas cfg dir).outcome = .ok cp ∧
    ∃ built restored : RunState Generator, buildFresh personas cfg = some built ∧
      restoreState cp built = .ok restored

/-- A resume that stops before its loop has either changed nothing, or accepted the checkpoint and
cut the journal down before it failed to load it. -/
theorem prepareResume_refused
    (refused : Refused (prepareResume serde Generator personas cfg opts) dir fault left) :
    left = dir ∨ ∃ cp, CheckpointAccepted serde Generator personas cfg dir cp ∧
      (loadJournalPrefix serde cp.recordsEmitted cp.journalLenBytes dir).outcome = .error fault ∧
      left = dir.cutLedger cp.journalLenBytes := by
  unfold prepareResume at refused
  rcases refused_of_bind refused with checking | ⟨cp, read, refused⟩
  · exact Or.inl ((readsOnly_readCheckpoint serde personas cfg).left_eq checking)
  rw [readsOnly_readCheckpoint serde personas cfg dir] at refused
  rcases refused_of_bind refused with building | ⟨built, buildingOk, refused⟩
  · exact Or.inl ((readsOnly_orPanic _).left_eq building)
  rw [readsOnly_orPanic _ dir] at refused
  rcases refused_of_bind refused with restoring | ⟨restored, restoringOk, refused⟩
  · exact Or.inl ((readsOnly_orFail _).left_eq restoring)
  rw [readsOnly_orFail _ dir] at refused
  rcases refused_of_bind refused with loading | ⟨records, loaded, refused⟩
  · rcases loadJournalPrefix_left serde cp.recordsEmitted cp.journalLenBytes dir with same | cut
    · exact Or.inl (loading.final.symm.trans same)
    · exact Or.inr ⟨cp,
        ⟨read, built, restored, orPanic_ok buildingOk, orFail_ok restoringOk⟩,
        loading.outcome, loading.final.symm.trans cut⟩
  -- the journal that was loaded can be reopened
  obtain ⟨contents, present, settable⟩ := loadJournalPrefix_ok serde loaded
  rw [(loadJournalPrefix_cut serde present settable).2] at refused
  refine absurd refused.outcome ?_
  simp [DurableSink.reopen, readFile, Persistent.inspect, RunDir.cutLedger, present, pure, bind,
    Persistent.bind]

/-- A resume that stops before its loop ends there. -/
theorem resumeDurable_of_prepareResume (fuel : Nat)
    (refused : Refused (prepareResume serde Generator personas cfg opts) dir fault left) :
    Refused (resumeDurable serde Generator fuel personas cfg opts) dir fault left := by
  unfold prepareResume at refused
  unfold resumeDurable
  rcases refused_of_bind refused with checking | ⟨cp, read, refused⟩
  · exact bind_refused checking
  refine bind_ok_refused read ?_
  rcases refused_of_bind refused with building | ⟨built, buildingOk, refused⟩
  · exact bind_refused building
  refine bind_ok_refused buildingOk ?_
  rcases refused_of_bind refused with restoring | ⟨restored, restoringOk, refused⟩
  · exact bind_refused restoring
  refine bind_ok_refused restoringOk ?_
  rcases refused_of_bind refused with loading | ⟨records, loaded, refused⟩
  · exact bind_refused loading
  refine bind_ok_refused loaded ?_
  rcases refused_of_bind refused with reopening | ⟨sink, reopened, refused⟩
  · exact bind_refused reopening
  · exact absurd refused.outcome (by simp [pure])

/-- A resume that is refused before its loop leaves the checkpoint as it was. It leaves the journal
as it was, too, unless the checkpoint was accepted and the journal then could not be loaded; what
is lost then is what lies beyond the committed part. -/
theorem resumeDurable_refused (fuel : Nat) (personas : List Persona) (cfg : SimConfig)
    (opts : DurabilityOpts) (dir : RunDir) (fault : Fault)
    (refused : (prepareResume serde Generator personas cfg opts dir).outcome = .error fault) :
    (resumeDurable serde Generator fuel personas cfg opts dir).outcome = .error fault ∧
    (resumeDurable serde Generator fuel personas cfg opts dir).final.checkpoint = dir.checkpoint ∧
    ((resumeDurable serde Generator fuel personas cfg opts dir).final.ledger = dir.ledger ∨
      ∃ cp, CheckpointAccepted serde Generator personas cfg dir cp ∧
        (loadJournalPrefix serde cp.recordsEmitted cp.journalLenBytes dir).outcome =
          .error fault ∧
        ∀ contents, dir.ledger = some contents → cp.journalLenBytes ≤ contents.length →
          (resumeDurable serde Generator fuel personas cfg opts dir).final.ledger =
            some (contents.take cp.journalLenBytes)) := by
  have prepared : Refused (prepareResume serde Generator personas cfg opts) dir fault _ :=
    ⟨refused, rfl⟩
  have resumed := resumeDurable_of_prepareResume serde fuel prepared
  rcases prepareResume_refused serde prepared with same | ⟨cp, accepted, loading, cut⟩
  · rw [same] at resumed
    exact ⟨resumed.outcome, by rw [resumed.final], Or.inl (by rw [resumed.final])⟩
  · rw [cut] at resumed
    refine ⟨resumed.outcome, by rw [resumed.final]; rfl, Or.inr ⟨cp, accepted, loading, ?_⟩⟩
    intro contents present long
    rw [resumed.final, RunDir.cutLedger, present, Option.map_some, setLen_of_le long]

end Resuming

/-! ### A damaged journal -/

/-- A run without agents. -/
def idleRun : SimConfig := { SimConfig.default with numAgents := 0 }

/-- The digest of the idle run of retail users. -/
def idleDigest : Bytes :=
  [44, 30, 132, 176, 131, 150, 63, 102, 213, 68, 51, 13, 129, 235, 10, 68, 162, 208, 180, 99, 89,
    214, 93, 134, 73, 138, 191, 221, 156, 3, 105, 175]

/-- A checkpoint of the idle run that counts one record, of four bytes. -/
def damagedCheckpoint : Checkpoint where
  format := 2
  runId := ⟨2, 1, .cooker, 0, 259200, 1700000000, 40, true, idleDigest⟩
  rngState := List.replicate 49 0
  clock := 1700000000
  slot := 1
  sig := 1
  nextAt := []
  agentSubaccounts := []
  agentMains := []
  recordsEmitted := 1
  journalLenBytes := 4
  events := 1

/-- The text of the checkpoint. -/
def damagedText : String :=
  "\x7b\"format\":2,\"run_id\":\x7b\"format\":2,\"seed\":1,\"mode\":1,\"num_agents\":0," ++
  "\"duration_secs\":259200,\"start_ts\":1700000000,\"num_external\":40," ++
  "\"harden_timing\":true,\"inputs_digest\":[44,30,132,176,131,150,63,102,213,68,51,13,129," ++
  "235,10,68,162,208,180,99,89,214,93,134,73,138,191,221,156,3,105,175]\x7d," ++
  "\"rng_state\":[" ++ ",".intercalate (List.replicate 49 "0") ++ "],\"clock\":1700000000," ++
  "\"slot\":1,\"sig\":1,\"next_at\":[],\"agent_subaccounts\":[],\"agent_mains\":[]," ++
  "\"records_emitted\":1,\"journal_len_bytes\":4,\"events\":1\x7d"

/-- What the libraries give on the texts of the idle run. -/
def idleSerde : Serde where
  recordText _ := ""
  parseRecord _ := .error "expected value at line 1 column 1"
  checkpointText _ := utf8 damagedText
  parseCheckpoint _ := .ok damagedCheckpoint
  personasText _ := utf8 <|
    "[\x7b\"name\":\"retail\",\"wealth_tier\":\"retail\",\"circadian\":\x7b\"hourly_weights\":" ++
    "[0.05,0.03,0.02,0.02,0.03,0.05,0.15,0.35,0.6,0.8,0.9,0.95,0.85,0.9,0.95,0.9,0.85,0.9,1.0," ++
    "1.0,0.95,0.7,0.4,0.15],\"actions_per_active_hour\":2.0,\"jitter\":0.35\x7d,\"split\":" ++
    "\x7b\"min_parts\":2,\"max_parts\":4,\"min_part_lamports\":50000\x7d,\"decoy\":" ++
    "\x7b\"decoys_per_real\":1.0,\"dust_lamports_max\":30000\x7d," ++
    "\"base_amount_lamports\":2000000,\"amount_sigma\":0.7,\"num_subaccounts\":4," ++
    "\"action_weights\":\x7b\"memo\":0.1,\"stake\":0.1,\"swap\":0.25,\"transfer\":0.55\x7d\x7d]"
  hardeningText _ := utf8 <|
    "\x7b\"intra_gap_mean_secs\":7.0,\"consolidation_prob\":0.03,\"sweep_min_sources\":2," ++
    "\"sweep_max_sources\":3,\"hold_aggregate_rate\":true,\"rebalance\":\"rotate-accounts\"\x7d"
  fundingText _ := []
  sha256 _ := idleDigest

/-- The committed line of the journal was damaged; what follows it is the tail of a crash. -/
def damagedDir : RunDir where
  ledger := some [120, 120, 120, 10, 123, 10]
  checkpoint := some (utf8 damagedText)
  checkpointTmp := none

theorem damagedDir_refused :
    (prepareResume idleSerde Counter [Persona.retail] idleRun ⟨1, true⟩ damagedDir).failure? =
      some (.io (invalidData "expected value at line 1 column 1")) := by
  decide +kernel

/-- The resume of the damaged journal is refused before its loop, and has changed the journal. -/
theorem damagedDir_changed :
    (prepareResume idleSerde Counter [Persona.retail] idleRun ⟨1, true⟩ damagedDir).outcome =
      .error (.io (invalidData "expected value at line 1 column 1")) ∧
    (resumeDurable idleSerde Counter 1 [Persona.retail] idleRun ⟨1, true⟩
        damagedDir).final.ledger = some [120, 120, 120, 10] ∧
    damagedDir.ledger = some [120, 120, 120, 10, 123, 10] :=
  ⟨Trail.failure?_eq_some.mp damagedDir_refused, by decide +kernel, rfl⟩

/-- The checkpoint beside the damaged journal is untouched. -/
theorem resumeDurable_refused_damaged :
    (resumeDurable idleSerde Counter 1 [Persona.retail] idleRun ⟨1, true⟩
        damagedDir).final.checkpoint = damagedDir.checkpoint :=
  (resumeDurable_refused idleSerde 1 [Persona.retail] idleRun ⟨1, true⟩ damagedDir _
    (Trail.failure?_eq_some.mp damagedDir_refused)).2.1

end AccountCooker
