/-
This file models the durable runner on its run directory: the journal, the
checkpoint and its temporary file, and every step the runner takes on them. A
process can be killed between any two steps, and within a write after any of
its bytes.

The journal is written through a buffer. What has been given to the buffer and
not been flushed may reach the file at any time, in order; so a kill leaves any
beginning of it behind. The texts and the digest come from other libraries,
which are the fields of a `Serde`.
-/

import Mathlib
import AccountCooker.Checkpoint
import AccountCooker.Crash

namespace AccountCooker

open Crash

/-! ### The run directory -/

/-- The files of a run directory, each absent or with its contents. -/
structure RunDir where
  ledger : Option Bytes
  checkpoint : Option Bytes
  checkpointTmp : Option Bytes
deriving DecidableEq

/-- A directory without files. -/
def RunDir.empty : RunDir := ⟨none, none, none⟩

/-- How the durable runner stops short. -/
inductive Fault
  | io (error : IoError)
  | panicked
deriving DecidableEq

/-- The computations of the durable runner on its directory. -/
abbrev Disk := Persistent RunDir Fault

/-- The error of a file that is not there. -/
def fileNotFound : IoError := ⟨.notFound, "No such file or directory (os error 2)"⟩

/-- A step that takes effect at once. -/
def atOnce (change : RunDir → RunDir) : Disk Unit := Persistent.perform (fun _ => []) change

/-- The `?` operator. -/
def orFail {Result : Type} : Except IoError Result → Disk Result
  | .ok result => pure result
  | .error error => Persistent.fail (.io error)

/-- A panic where there is no value. -/
def orPanic {Result : Type} : Option Result → Disk Result
  | some result => pure result
  | none => Persistent.fail .panicked

/-- The contents of a file that must be there. -/
def readFile (file : RunDir → Option Bytes) : Disk Bytes :=
  Persistent.inspect fun dir =>
    match file dir with
    | some contents => .ok contents
    | none => .error (.io fileNotFound)

/-- `file.set_len(length)`: cut off what is beyond, or fill up with zeros. -/
def setLen (length : Nat) (contents : Bytes) : Bytes :=
  contents.take length ++ List.replicate (length - contents.length) 0

/-- Write bytes over a file from a position on; a gap before them is filled with zeros. -/
def writeAt (position : Nat) (bytes contents : Bytes) : Bytes :=
  setLen position contents ++ bytes ++ contents.drop (position + bytes.length)

/-- The directory after bytes were written to the journal at a position. -/
def RunDir.writeLedger (position : Nat) (bytes : Bytes) (dir : RunDir) : RunDir :=
  { dir with ledger := some (writeAt position bytes (dir.ledger.getD [])) }

/-! ### The buffered journal -/

/-- `BufWriter<File>` over the journal: the position of the file, and what is still to be written
there. -/
structure Journal where
  position : Nat
  pending : Bytes

namespace Journal

/-- The directories in which any beginning of the pending bytes has reached the file. -/
def torn (journal : Journal) (dir : RunDir) : List RunDir :=
  journal.pending.inits.map fun reached => dir.writeLedger journal.position reached

/-- Give bytes to the buffer. -/
def write (journal : Journal) (bytes : Bytes) : Disk Journal := do
  let journal : Journal := { journal with pending := journal.pending ++ bytes }
  Persistent.perform journal.torn id
  pure journal

/-- `journal.flush()`. -/
def flush (journal : Journal) : Disk Journal := do
  Persistent.perform journal.torn (RunDir.writeLedger journal.position journal.pending)
  pure ⟨journal.position + journal.pending.length, []⟩

/-- `journal.get_ref().metadata()?.len()`. -/
def fileLen : Disk Nat := Persistent.inspect fun dir => .ok (dir.ledger.getD []).length

end Journal

/-! ### Texts and identities -/

/-- The texts `serde_json` writes and reads, and SHA-256. -/
structure Serde where
  recordText : TxRecord → String
  parseRecord : String → Except String TxRecord
  checkpointText : Checkpoint → Bytes
  parseCheckpoint : Bytes → Except String Checkpoint
  personasText : List Persona → Bytes
  hardeningText : HardeningConfig → Bytes
  fundingText : FundingConfig → Bytes
  sha256 : Bytes → Bytes

variable (serde : Serde)

/-- The bytes the digest of a run is taken of: the funding is folded in only when it is set. -/
def inputsText (personas : List Persona) (cfg : SimConfig) : Bytes :=
  serde.personasText personas ++ serde.hardeningText cfg.hardening ++
    match cfg.funding with
    | some funding => serde.fundingText funding
    | none => []

def RunId.derive (personas : List Persona) (cfg : SimConfig) : RunId where
  format := checkpointFormat
  seed := cfg.seed
  mode := cfg.mode
  numAgents := cfg.numAgents
  durationSecs := cfg.durationSecs
  startTs := cfg.startTs
  numExternal := cfg.numExternal
  hardenTiming := cfg.hardenTiming
  inputsDigest := serde.sha256 (inputsText serde personas cfg)

/-- A text as it lies in a file. -/
def utf8 (text : String) : Bytes := text.toUTF8.toList

/-- A record as it lies in the journal, with its newline. -/
def journalLine (record : TxRecord) : Bytes := utf8 (serde.recordText record ++ "\n")

/-- The journal of some records. -/
def journalOf (records : List TxRecord) : Bytes := records.flatMap (journalLine serde)

/-! ### The sink -/

/-- Durability tunables. -/
structure DurabilityOpts where
  snapshotEveryEvents : Nat
  fsync : Bool

/-- The durable sink: appends records to the journal and writes checkpoints on cadence. -/
structure DurableSink where
  journal : Journal
  runId : RunId
  every : Nat
  fsync : Bool
  lastSnapshotEvents : Nat

namespace DurableSink

/-- Open a fresh journal; the files of an earlier run go first, the checkpoint before all. -/
def create (runId : RunId) (opts : DurabilityOpts) : Disk DurableSink := do
  atOnce ({ · with checkpoint := none })
  atOnce ({ · with checkpointTmp := none })
  atOnce ({ · with ledger := some [] })
  pure ⟨⟨0, []⟩, runId, max opts.snapshotEveryEvents 1, opts.fsync, u64Max⟩

/-- Open the journal of an earlier run at the end of its committed part. -/
def reopen (runId : RunId) (opts : DurabilityOpts) (journalLenBytes : Nat) : Disk DurableSink := do
  let _ ← readFile (·.ledger)
  pure ⟨⟨journalLenBytes, []⟩, runId, max opts.snapshotEveryEvents 1, opts.fsync, u64Max⟩

variable (sink : DurableSink)

/-- `sync_all` where it is asked for; it changes no file. -/
def sync : Disk Unit := if sink.fsync then atOnce id else pure ()

/-- Publish a checkpoint, after the records it counts. -/
def save (cp : Checkpoint) : Disk DurableSink := do
  let journal ← sink.journal.flush
  sink.sync
  atOnce ({ · with checkpointTmp := some [] })
  let text := serde.checkpointText cp
  Persistent.perform
    (fun dir => text.inits.map fun reached => { dir with checkpointTmp := some reached })
    ({ · with checkpointTmp := some text })
  sink.sync
  atOnce fun dir => { dir with checkpoint := dir.checkpointTmp, checkpointTmp := none }
  sink.sync
  pure { sink with journal := journal }

/-- Append one record to the journal. -/
def append (record : TxRecord) : Disk DurableSink := do
  let journal ← sink.journal.write (utf8 (serde.recordText record))
  let journal ← journal.write (utf8 "\n")
  pure { sink with journal := journal }

def onRecords (new : List TxRecord) : Disk DurableSink := new.foldlM (append serde) sink

variable {Generator : Type} [RngState Generator]

def onBoundary (st : RunState Generator) (done : Bool) : Disk (DurableSink × Bool) := do
  let cadenceHit := st.events ≠ 0 ∧ sink.every ∣ st.events
  if (done ∨ cadenceHit) ∧ sink.lastSnapshotEvents ≠ st.events then
    let journal ← sink.journal.flush
    sink.sync
    let jlen ← Journal.fileLen
    let cp ← orPanic (st.snapshot sink.runId jlen)
    let saved ← save serde { sink with journal := journal } cp
    pure ({ saved with lastSnapshotEvents := st.events }, false)
  else pure (sink, false)

end DurableSink

/-- The durable sink as the loop calls it. -/
def durableSink (Generator : Type) [RngState Generator] : DurSink Disk DurableSink Generator where
  onRecords sink new := sink.onRecords serde new
  onBoundary sink st done := sink.onBoundary serde st done

/-! ### Loading a journal -/

/-- `reader.read_line`: the bytes up to the first newline, or up to the end of the file. -/
def firstLine (bytes : Bytes) : Bytes :=
  bytes.takeWhile (· ≠ 10) ++ (bytes.dropWhile (· ≠ 10)).take 1

/-- The records of the complete lines at the front of a journal, at most so many. -/
def loadRecords : Nat → Bytes → Except IoError (List TxRecord)
  | 0, _ => .ok []
  | remaining + 1, bytes =>
    match String.fromUTF8? (firstLine bytes).toByteArray with
    | none => .error (invalidData "stream did not contain valid UTF-8")
    | some line =>
      match bytes.dropWhile (· ≠ 10) with
      -- the end of the file, or a partial trailing line
      | [] => .ok []
      | _ :: rest =>
        match serde.parseRecord (trimEnd line) with
        | .error error => .error (invalidData error)
        | .ok record => (record :: ·) <$> loadRecords remaining rest

/-- Load exactly `count` records, first truncating any bytes beyond `lenBytes`. -/
def loadJournalPrefix (count lenBytes : Nat) : Disk (List TxRecord) := do
  let found ← readFile (·.ledger)
  -- `set_len` makes no file longer than `i64::MAX`
  if max i64Max found.length < lenBytes then
    Persistent.fail (.io (invalidInput "out of range integral type conversion attempted"))
  else do
    atOnce fun dir => { dir with ledger := dir.ledger.map (setLen lenBytes) }
    let contents ← readFile (·.ledger)
    let records ← orFail (loadRecords serde count contents)
    if records.length ≠ count then
      Persistent.fail (.io (invalidData
        s!"journal has {records.length} committed records, checkpoint claims {count}"))
    else pure records

/-! ### Runs -/

section Running

variable {Generator : Type} [Rng Generator] [RngState Generator] [Libm]

/-- The end of a run: the funding post-pass over its final state. -/
def finish (cfg : SimConfig) : Outcome (RunState Generator × DurableSink) → Disk (Outcome Ledger)
  | .returned (final, _) => .returned <$> orPanic (finalizeFunding final cfg)
  | .panicked => Persistent.fail .panicked
  | .running => pure .running

variable (Generator)

/-- Run durably; the loop is cut off after `fuel` boundaries. -/
def simulateDurable (fuel : Nat) (personas : List Persona) (cfg : SimConfig)
    (opts : DurabilityOpts) : Disk (Outcome Ledger) := do
  let runId := RunId.derive serde personas cfg
  let st ← orPanic (buildFresh personas cfg : Option (RunState Generator))
  let sink ← DurableSink.create runId opts
  let ended ← runCore (durableSink serde Generator) fuel st sink
  finish cfg ended

/-- Read the checkpoint and check that it is of this run. -/
def readCheckpoint (personas : List Persona) (cfg : SimConfig) : Disk Checkpoint := do
  let raw ← readFile (·.checkpoint)
  let cp ← orFail ((serde.parseCheckpoint raw).mapError invalidData)
  if cp.format ≠ checkpointFormat then
    Persistent.fail (.io (invalidData s!"checkpoint format {cp.format} != {checkpointFormat}"))
  else if cp.runId ≠ RunId.derive serde personas cfg then
    Persistent.fail (.io (invalidData
      "checkpoint (personas, cfg) mismatch — refusing to resume"))
  else pure cp

/-- Resume an interrupted run from its checkpoint and finish it. -/
def resumeDurable (fuel : Nat) (personas : List Persona) (cfg : SimConfig)
    (opts : DurabilityOpts) : Disk (Outcome Ledger) := do
  let cp ← readCheckpoint serde personas cfg
  let built ← orPanic (buildFresh personas cfg : Option (RunState Generator))
  let st ← orFail (restoreState cp built)
  let records ← loadJournalPrefix serde cp.recordsEmitted cp.journalLenBytes
  let sink ← DurableSink.reopen cp.runId opts cp.journalLenBytes
  let ended ← runCore (durableSink serde Generator) fuel (st.withRecords records) sink
  finish cfg ended

/-- One process: its inputs, its options, and whether it was asked to resume. -/
structure Attempt where
  personas : List Persona
  cfg : SimConfig
  opts : DurabilityOpts
  resume : Bool
  fuel : Nat

/-- `run_durable` up to the ledger: resume if asked to and there is a checkpoint. -/
def runDurable (attempt : Attempt) : Disk (Outcome Ledger) := do
  let found ← Persistent.inspect fun dir => .ok dir.checkpoint.isSome
  if attempt.resume && found then
    resumeDurable serde Generator attempt.fuel attempt.personas attempt.cfg attempt.opts
  else simulateDurable serde Generator attempt.fuel attempt.personas attempt.cfg attempt.opts

end Running

end AccountCooker
