/-
This file is about the sink of a durable run: the bytes of its journal, the
buffer before it, and the steps it takes on a run directory. They are taken for
any property of directories that holds of every one they pass through: the
journal is only extended behind what it holds, and a checkpoint is published
after its records were flushed.

One rule takes the loop of the durable runner apart. What holds at a boundary
and is left for the next by every boundary holds wherever the loop gets, and the
loop ends as the uninterrupted one.
-/

import Mathlib
import AccountCooker.Milestones
import AccountCooker.Loading

namespace AccountCooker

open Collections Crash

/-! ### Texts as bytes -/

theorem toList_loop_eq (bytes : ByteArray) (position : Nat) (reversed : Bytes)
    (inside : position ≤ bytes.size) :
    ByteArray.toList.loop bytes position reversed =
      reversed.reverse ++ bytes.data.toList.drop position := by
  fun_induction ByteArray.toList.loop bytes position reversed with
  | case1 position reversed before inductionHypothesis =>
    have byte : bytes.data.toList.drop position =
        bytes.get! position :: bytes.data.toList.drop (position + 1) := by
      rw [List.drop_eq_getElem_cons before, Array.getElem_toList]
      exact congrArg (· :: _) (getElem!_pos bytes.data position before).symm
    rw [inductionHypothesis before, byte, List.reverse_cons, List.append_assoc]
    rfl
  | case2 position reversed beyond =>
    rw [List.drop_eq_nil_of_le (Nat.le_of_not_lt beyond), List.append_nil]

theorem toList_eq (bytes : ByteArray) : bytes.toList = bytes.data.toList := by
  rw [ByteArray.toList, toList_loop_eq bytes 0 [] (Nat.zero_le _)]
  rfl

theorem utf8_eq (text : String) : utf8 text = text.toList.flatMap String.utf8EncodeChar := by
  show text.toByteArray.toList = _
  rw [toList_eq, ← String.utf8Encode_toList, List.utf8Encode, List.toList_data_toByteArray]

theorem utf8_append (first second : String) :
    utf8 (first ++ second) = utf8 first ++ utf8 second := by
  rw [utf8_eq, utf8_eq, utf8_eq, String.toList_append, List.flatMap_append]

theorem utf8_newline : utf8 "\n" = [10] := by
  rw [utf8_eq]
  decide

theorem fromUTF8_utf8 (text : String) : String.fromUTF8? (utf8 text).toByteArray = some text := by
  have bytes : (utf8 text).toByteArray = text.toByteArray := by
    rw [utf8_eq]
    exact String.utf8Encode_toList
  rw [bytes, String.fromUTF8?, dif_pos text.isValidUTF8]
  rfl

theorem newline_ne_ofNat {value : Nat} (low : 128 ≤ value) (high : value < 256) :
    (10 : UInt8) ≠ UInt8.ofNat value := by
  intro same
  have values := congrArg UInt8.toNat same
  rw [UInt8.toNat_ofNat_of_lt' high] at values
  exact absurd (low.trans_eq values.symm) (by decide)

/-- No other character has the byte of a line break among its own: they are themselves, or all at
least 128. -/
theorem newline_of_mem_utf8EncodeChar {char : Char}
    (member : (10 : UInt8) ∈ String.utf8EncodeChar char) : char = '\n' := by
  unfold String.utf8EncodeChar at member
  dsimp only at member
  split_ifs at member with one two three
  · have values := congrArg UInt8.toNat (List.mem_singleton.mp member)
    rw [UInt8.toNat_ofNat_of_lt' (Nat.lt_of_le_of_lt one (by decide))] at values
    exact Char.ext (UInt32.toNat_inj.mp values.symm)
  all_goals
    simp only [List.mem_cons, List.not_mem_nil, or_false] at member
  · rcases member with byte | byte <;> exact absurd byte (newline_ne_ofNat (by omega) (by omega))
  · rcases member with byte | byte | byte <;>
      exact absurd byte (newline_ne_ofNat (by omega) (by omega))
  · rcases member with byte | byte | byte | byte <;>
      exact absurd byte (newline_ne_ofNat (by omega) (by omega))

/-! ### The journal of some records -/

variable {serde : Serde}

/-- The library decodes what it encodes, and a compact text is one line without blanks behind. -/
structure Serde.Decodes (serde : Serde) : Prop where
  record : ∀ record, serde.parseRecord (serde.recordText record) = .ok record
  oneLine : ∀ record, '\n' ∉ (serde.recordText record).toList
  trimmed : ∀ record, trimEnd (serde.recordText record) = serde.recordText record
  checkpoint : ∀ cp, serde.parseCheckpoint (serde.checkpointText cp) = .ok cp

theorem journalOf_append (first second : List TxRecord) :
    journalOf serde (first ++ second) = journalOf serde first ++ journalOf serde second :=
  List.flatMap_append

theorem journalLine_eq (record : TxRecord) :
    journalLine serde record = utf8 (serde.recordText record) ++ [10] := by
  rw [journalLine, utf8_append, utf8_newline]

/-- The journal of some records is made of lines that decode to them. -/
theorem journalOf_lines (decodes : serde.Decodes) (records : List TxRecord) :
    LinesDecode serde (journalOf serde records) records := by
  induction records with
  | nil => exact .nil
  | cons record records inductionHypothesis =>
    have line : journalOf serde (record :: records) =
        utf8 (serde.recordText record) ++ 10 :: journalOf serde records := by
      rw [journalOf, List.flatMap_cons, journalLine_eq, List.append_assoc]
      rfl
    rw [line]
    refine .cons ⟨fun member => ?_, serde.recordText record ++ "\n", ?_, ?_⟩ inductionHypothesis
    · rw [utf8_eq, List.mem_flatMap] at member
      obtain ⟨char, written, member⟩ := member
      exact decodes.oneLine record (newline_of_mem_utf8EncodeChar member ▸ written)
    · rw [← utf8_newline, ← utf8_append, fromUTF8_utf8]
    · rw [trimEnd_newline, decodes.trimmed, decodes.record]

/-- All complete lines of a journal are loaded. -/
theorem loadRecords_journalOf (decodes : serde.Decodes) (records : List TxRecord) :
    loadRecords serde records.length (journalOf serde records) = .ok records := by
  have loaded := loadRecords_of_lines (journalOf_lines decodes records) []
  rwa [List.append_nil] at loaded

/-! ### Steps on the directory -/

section Steps

variable {dir : RunDir} {failed : Fault → Prop} {safe : RunDir → Prop} {Result : Type}
  {done : Result → RunDir → Prop} {finished : Unit → RunDir → Prop}

theorem meets_atOnce {change : RunDir → RunDir} (start : safe dir) (kept : safe (change dir))
    (holds : finished () (change dir)) : Meets safe failed finished (atOnce change) dir :=
  meets_perform start (fun _ inside => absurd inside List.not_mem_nil) kept holds

theorem meets_sync (sink : DurableSink) (start : safe dir) (holds : finished () dir) :
    Meets safe failed finished sink.sync dir := by
  unfold DurableSink.sync
  split
  · exact meets_atOnce start start holds
  · exact meets_pure start holds

theorem meets_orPanic {outcome : Option Result} (start : safe dir)
    (panics : outcome = none → failed .panicked)
    (results : ∀ result, outcome = some result → done result dir) :
    Meets safe failed done (orPanic outcome) dir := by
  cases outcome with
  | none => exact meets_fail start (panics rfl)
  | some result => exact meets_pure start (results result rfl)

theorem meets_readFile {contents : Bytes} {file : RunDir → Option Bytes}
    {read : Bytes → RunDir → Prop} (start : safe dir) (found : file dir = some contents)
    (holds : read contents dir) :
    Meets safe failed read (readFile file) dir := by
  refine meets_inspect start (fun failure stopped => ?_) (fun result ended => ?_)
  · rw [found] at stopped
    exact absurd stopped (by simp)
  · rw [found] at ended
    rwa [← Except.ok.inj ended]

end Steps

/-! ### The buffered journal -/

/-- The file and the buffer behind it hold some bytes. -/
structure Journal.Holds (journal : Journal) (bytes : Bytes) (dir : RunDir) : Prop where
  position : journal.position ≤ bytes.length
  flushed : dir.ledger = some (bytes.take journal.position)
  pending : journal.pending = bytes.drop journal.position

theorem writeAt_end {position : Nat} {bytes contents : Bytes} (full : contents.length = position) :
    writeAt position bytes contents = contents ++ bytes := by
  unfold writeAt
  rw [setLen_of_le full.ge, ← full, List.take_length,
    List.drop_eq_nil_of_le (Nat.le_add_right _ _), List.append_nil]

section Buffering

variable {buffer : Journal} {bytes : Bytes} {dir : RunDir}

theorem Journal.Holds.append (holds : buffer.Holds bytes dir) (more : Bytes) :
    Journal.Holds { buffer with pending := buffer.pending ++ more } (bytes ++ more) dir where
  position := by
    rw [List.length_append]
    exact holds.position.trans (Nat.le_add_right _ _)
  flushed := by
    rw [List.take_append_of_le_length holds.position]
    exact holds.flushed
  pending := by
    rw [List.drop_append_of_le_length holds.position, holds.pending]

theorem Journal.Holds.writeLedger (holds : buffer.Holds bytes dir) (reached : Bytes) :
    dir.writeLedger buffer.position reached =
      { dir with ledger := some (bytes.take buffer.position ++ reached) } := by
  rw [RunDir.writeLedger, holds.flushed, Option.getD_some,
    writeAt_end (List.length_take_of_le holds.position)]

end Buffering

section Sink

variable {serde : Serde} {Generator : Type} [RngState Generator] {safe : RunDir → Prop}
  {failed : Fault → Prop} {buffer : Journal} {bytes : Bytes} {dir : RunDir} {sink : DurableSink}
  {records : List TxRecord} {cp : Checkpoint} {st : RunState Generator}

/-! ### The steps of the sink -/

/-- A directory is safe whatever part of the buffer has reached the journal, and whatever lies in
the temporary file. -/
def Journal.Bears (buffer : Journal) (bytes : Bytes) (safe : RunDir → Prop) (dir : RunDir) : Prop :=
  ∀ reached tmp, bytes.take buffer.position <+: reached → reached <+: bytes →
    safe ⟨some reached, dir.checkpoint, tmp⟩

theorem Journal.Bears.start (bears : buffer.Bears bytes safe dir)
    (holds : buffer.Holds bytes dir) : safe dir := by
  have here := bears _ dir.checkpointTmp List.prefix_rfl (List.take_prefix _ _)
  rwa [← holds.flushed] at here

/-- What a torn write leaves is the file, extended by some of what was behind it. -/
theorem Journal.Bears.torn (bears : buffer.Bears bytes safe dir) (holds : buffer.Holds bytes dir)
    {instant : RunDir} (inside : instant ∈ buffer.torn dir) : safe instant := by
  obtain ⟨reached, among, rfl⟩ := List.mem_map.mp inside
  have within : reached <+: bytes.drop buffer.position :=
    holds.pending ▸ (List.mem_inits reached _).mp among
  rw [holds.writeLedger]
  refine bears _ _ (List.prefix_append _ _) ?_
  calc bytes.take buffer.position ++ reached
      <+: bytes.take buffer.position ++ bytes.drop buffer.position :=
        (List.prefix_append_right_inj _).mpr within
    _ = bytes := List.take_append_drop _ _

/-- Bytes given to the buffer may reach the file. -/
theorem meets_bufferWrite (holds : buffer.Holds bytes dir) (more : Bytes)
    (bears : buffer.Bears (bytes ++ more) safe dir) :
    Meets safe failed (fun result final => final = dir ∧ result.position = buffer.position ∧
      result.Holds (bytes ++ more) final) (buffer.write more) dir := by
  have appended := holds.append more
  have longer : Journal.Bears { buffer with pending := buffer.pending ++ more } (bytes ++ more)
      safe dir := bears
  refine meets_bind (meets_perform (longer.start appended) (fun instant inside => ?_)
    (longer.start appended) ?_)
  · exact longer.torn appended inside
  · exact meets_pure (longer.start appended) ⟨rfl, rfl, appended⟩

theorem meets_bufferFlush (holds : buffer.Holds bytes dir) (bears : buffer.Bears bytes safe dir) :
    Meets safe failed (fun result final => final = { dir with ledger := some bytes } ∧
      result = ⟨bytes.length, []⟩) buffer.flush dir := by
  have written : dir.writeLedger buffer.position buffer.pending =
      { dir with ledger := some bytes } := by
    rw [holds.writeLedger, holds.pending, List.take_append_drop]
  have whole : safe { dir with ledger := some bytes } :=
    bears bytes dir.checkpointTmp (List.take_prefix _ _) List.prefix_rfl
  have length : buffer.position + buffer.pending.length = bytes.length := by
    rw [holds.pending, List.length_drop, Nat.add_sub_cancel' holds.position]
  refine meets_bind (meets_perform (bears.start holds) (fun instant inside => ?_) ?_ ?_)
  · exact bears.torn holds inside
  · rwa [written]
  · rw [written, length]
    exact meets_pure whole ⟨rfl, rfl⟩

/-- A buffer with nothing in it holds the file. -/
theorem holds_flushed (flushed : dir.ledger = some bytes) :
    Journal.Holds ⟨bytes.length, []⟩ bytes dir :=
  ⟨le_rfl, by rw [List.take_length, flushed], by rw [List.drop_length]⟩

theorem meets_sinkRecords (new : List TxRecord)
    (holds : sink.journal.Holds (journalOf serde records) dir)
    (bears : sink.journal.Bears (journalOf serde (records ++ new)) safe dir) :
    Meets safe failed (fun result final => final = dir ∧
      ∃ journal, result = { sink with journal := journal } ∧
        journal.Holds (journalOf serde (records ++ new)) final)
      (sink.onRecords serde new) dir := by
  unfold DurableSink.onRecords
  induction new generalizing sink records with
  | nil =>
    rw [List.append_nil] at bears ⊢
    exact meets_pure (bears.start holds) ⟨rfl, sink.journal, rfl, holds⟩
  | cons record new inductionHypothesis =>
    have line : journalOf serde (records ++ [record]) =
        journalOf serde records ++ utf8 (serde.recordText record) ++ utf8 "\n" := by
      rw [journalOf_append, List.append_assoc, ← utf8_append]
      exact congrArg _ (List.append_nil _)
    have all : records ++ record :: new = records ++ [record] ++ new :=
      List.append_cons records record new
    rw [all] at bears ⊢
    -- what is borne of the longer journal is borne of its beginnings
    have shorter {begun : Bytes} (within : begun <+: journalOf serde (records ++ [record]))
        (long : sink.journal.position ≤ begun.length) : sink.journal.Bears begun safe dir := by
      have longer : journalOf serde (records ++ [record]) <+:
          journalOf serde (records ++ [record] ++ new) :=
        journalOf_append (records ++ [record]) new ▸ List.prefix_append _ _
      have whole := within.trans longer
      intro reached tmp after before
      refine bears reached tmp ?_ (before.trans whole)
      rwa [List.prefix_iff_eq_take.mp whole, List.take_take, Nat.min_eq_left long] at after
    have fits : sink.journal.position ≤ (journalOf serde records).length := holds.position
    rw [List.foldlM_cons]
    have appended : Meets safe failed (fun result final => final = dir ∧
        ∃ journal, result = { sink with journal := journal } ∧
          journal.position = sink.journal.position ∧
          journal.Holds (journalOf serde (records ++ [record])) final)
        (sink.append serde record) dir := by
      refine meets_then (meets_bufferWrite holds _ (shorter ?_ ?_)) ?_
      · rw [line]
        exact List.prefix_append _ _
      · rw [List.length_append]
        omega
      rintro journal middle _ ⟨rfl, same, held⟩
      refine meets_then (meets_bufferWrite held _ ?_) ?_
      · intro reached tmp after before
        rw [same] at after
        refine shorter List.prefix_rfl ?_ reached tmp (line ▸ after) (line ▸ before)
        rw [line, List.length_append, List.length_append]
        omega
      rintro journal middle safely ⟨rfl, again, held⟩
      rw [← line] at held
      exact meets_pure safely ⟨rfl, journal, rfl, again.trans same, held⟩
    refine meets_then appended ?_
    rintro _ middle _ ⟨rfl, journal, rfl, same, held⟩
    have there : ({ sink with journal := journal } : DurableSink).journal.Holds
        (journalOf serde (records ++ [record])) middle := held
    refine inductionHypothesis there fun reached tmp after before => ?_
    exact bears reached tmp (same ▸ after) before

/-- A checkpoint is published: the file holds what the buffer held, and nothing is left over. -/
theorem meets_sinkSave (holds : sink.journal.Holds bytes dir)
    (bears : sink.journal.Bears bytes safe dir)
    (published : safe ⟨some bytes, some (serde.checkpointText cp), none⟩) :
    Meets safe failed (fun result final =>
      final = ⟨some bytes, some (serde.checkpointText cp), none⟩ ∧
        result = { sink with journal := ⟨bytes.length, []⟩ })
      (sink.save serde cp) dir := by
  have lying (tmp : Option Bytes) : safe ⟨some bytes, dir.checkpoint, tmp⟩ :=
    bears bytes tmp (List.take_prefix _ _) List.prefix_rfl
  unfold DurableSink.save
  refine meets_then (meets_bufferFlush holds bears) ?_
  rintro journal flushed safely ⟨rfl, rfl⟩
  refine meets_bind (meets_sync sink safely ?_)
  refine meets_bind (meets_atOnce safely (lying _) ?_)
  refine meets_bind (meets_perform (lying _) (fun instant inside => ?_) (lying _) ?_)
  · obtain ⟨reached, _, rfl⟩ := List.mem_map.mp inside
    exact lying _
  refine meets_bind (meets_sync sink (lying _) ?_)
  refine meets_bind (meets_atOnce (lying _) published ?_)
  refine meets_bind (meets_sync sink published ?_)
  exact meets_pure published ⟨rfl, rfl⟩

/-- Whether the sink publishes a checkpoint at a boundary. -/
def DurableSink.Due (sink : DurableSink) (events : Nat) (done : Bool) : Prop :=
  (done = true ∨ (events ≠ 0 ∧ sink.every ∣ events)) ∧ sink.lastSnapshotEvents ≠ events

/-- What a boundary does to the sink and the directory: a checkpoint is published, or nothing
happens. -/
inductive DurableSink.Passes (serde : Serde) (sink : DurableSink) (st : RunState Generator)
    (done : Bool) (dir : RunDir) : DurableSink → RunDir → Prop
  | published (cp : Checkpoint) (due : sink.Due st.events done)
    (saved : st.snapshot sink.runId (journalOf serde st.chain.ledger.records).length = some cp) :
    Passes serde sink st done dir
      { sink with
        journal := ⟨(journalOf serde st.chain.ledger.records).length, []⟩
        lastSnapshotEvents := st.events }
      ⟨some (journalOf serde st.chain.ledger.records), some (serde.checkpointText cp), none⟩
  | idle (idle : ¬ sink.Due st.events done) : Passes serde sink st done dir sink dir

theorem meets_sinkBoundary (done : Bool)
    (holds : sink.journal.Holds (journalOf serde st.chain.ledger.records) dir)
    (bears : sink.journal.Bears (journalOf serde st.chain.ledger.records) safe dir)
    (panics : st.snapshot sink.runId (journalOf serde st.chain.ledger.records).length = none →
      failed .panicked)
    (published : ∀ cp,
      st.snapshot sink.runId (journalOf serde st.chain.ledger.records).length = some cp →
      safe ⟨some (journalOf serde st.chain.ledger.records), some (serde.checkpointText cp), none⟩) :
    Meets safe failed (fun result final => result.2 = false ∧
      sink.Passes serde st done dir result.1 final) (sink.onBoundary serde st done) dir := by
  unfold DurableSink.onBoundary
  dsimp only
  split
  · rename_i due
    refine meets_then (meets_bufferFlush holds bears) ?_
    rintro journal flushed safely ⟨rfl, rfl⟩
    refine meets_bind (meets_sync sink safely ?_)
    refine meets_bind (meets_inspect safely (fun failure stopped => by cases stopped)
      fun length read => ?_)
    obtain rfl : (journalOf serde st.chain.ledger.records).length = length :=
      Except.ok.inj read
    refine meets_bind (meets_orPanic safely panics fun cp saved => ?_)
    refine meets_then (meets_sinkSave (holds_flushed rfl) ?_ (published cp saved)) ?_
    · intro reached tmp after before
      rw [List.take_length] at after
      exact bears reached tmp ((List.take_prefix _ _).trans after) before
    · rintro saved' final safely ⟨rfl, rfl⟩
      exact meets_pure safely ⟨rfl, .published cp due saved⟩
  · rename_i idle
    exact meets_pure (bears.start holds) ⟨rfl, .idle idle⟩

/-! ### Ready sinks -/

/-- The sink of a run at a boundary: its file and its buffer hold the records so far, and the last
checkpoint it published, if any, is of an earlier boundary. -/
structure DurableSink.Ready (serde : Serde) (runId : RunId) (st : RunState Generator)
    (sink : DurableSink) (dir : RunDir) : Prop where
  runId : sink.runId = runId
  journal : sink.journal.Holds (journalOf serde st.chain.ledger.records) dir
  last : sink.lastSnapshotEvents = u64Max ∨ sink.lastSnapshotEvents < st.events

/-- The directory of a boundary at which a checkpoint was published. -/
def RunDir.Settled (serde : Serde) (runId : RunId) (st : RunState Generator) (dir : RunDir) :
    Prop :=
  ∃ cp, st.snapshot runId (journalOf serde st.chain.ledger.records).length = some cp ∧
    dir = ⟨some (journalOf serde st.chain.ledger.records), some (serde.checkpointText cp), none⟩

variable {runId : RunId} {after : DurableSink} {final : RunDir} {done : Bool}
  {next : RunState Generator}

/-- A last boundary leaves a settled directory, while events are counted. -/
theorem DurableSink.Passes.settled (passes : sink.Passes serde st done dir after final)
    (ready : sink.Ready serde runId st dir) (last : done = true) (counting : st.events ≠ u64Max) :
    final.Settled serde runId st := by
  cases passes with
  | published cp due saved => exact ⟨cp, ready.runId ▸ saved, rfl⟩
  | idle idle =>
    have unsaved : sink.lastSnapshotEvents ≠ st.events := by
      have earlier := ready.last
      omega
    exact absurd ⟨Or.inl last, unsaved⟩ idle

/-- After a boundary the sink still holds the records. -/
theorem DurableSink.Passes.holds (passes : sink.Passes serde st done dir after final)
    (ready : sink.Ready serde runId st dir) :
    after.journal.Holds (journalOf serde st.chain.ledger.records) final := by
  cases passes with
  | published cp due saved => exact holds_flushed rfl
  | idle idle => exact ready.journal

/-- A sink that has passed a boundary and was given the records of the next is ready there. -/
theorem DurableSink.Passes.ready (passes : sink.Passes serde st done dir after final)
    (ready : sink.Ready serde runId st dir) (later : st.events < next.events) {journal : Journal}
    (holds : journal.Holds (journalOf serde next.chain.ledger.records) final) :
    ({ after with journal := journal } : DurableSink).Ready serde runId next final := by
  cases passes with
  | published cp due saved => exact ⟨ready.runId, holds, Or.inr later⟩
  | idle idle => exact ⟨ready.runId, holds, ready.last.imp_right fun before => before.trans later⟩

/-! ### The loop -/

variable [Rng Generator] [Libm]

/-- What a boundary has to leave behind for the loop to go on to the next one: the records of the
next can be given to the sink, and then what holds at boundaries holds there. -/
structure GoesOn (serde : Serde) (safe : RunDir → Prop)
    (kept : RunState Generator → DurableSink → RunDir → Prop) (st next : RunState Generator)
    (sink : DurableSink) (dir : RunDir) : Prop where
  grown : st.chain.ledger.records <+: next.chain.ledger.records
  holds : sink.journal.Holds (journalOf serde st.chain.ledger.records) dir
  bears : sink.journal.Bears (journalOf serde next.chain.ledger.records) safe dir
  kept : ∀ journal : Journal, journal.Holds (journalOf serde next.chain.ledger.records) dir →
    kept next { sink with journal := journal } dir

/-- The loop of the durable runner ends as the uninterrupted one, and if that returns, the directory
is left as asked. -/
structure EndsAs (fuel : Nat) (st : RunState Generator)
    (left : RunState Generator → RunDir → Prop)
    (outcome : Outcome (RunState Generator × DurableSink)) (dir : RunDir) : Prop where
  outcome : outcome.map Prod.fst = loopFrom fuel st
  left : ∀ last, loopFrom fuel st = .returned last → left last dir

/-- What holds at a boundary and is left for the next by every boundary holds wherever the loop of
the durable runner gets; and the loop ends as the uninterrupted one. -/
theorem meets_loop (kept : RunState Generator → DurableSink → RunDir → Prop)
    (left : RunState Generator → RunDir → Prop)
    (start : ∀ st sink dir, kept st sink dir → safe dir)
    (boundary : ∀ st sink dir, kept st sink dir →
      Meets safe failed (fun result final => result.2 = false ∧
        (st.done = true → left st final) ∧
        ∀ next, st.done = false → st.event = some next →
          GoesOn serde safe kept st next result.1 final) (sink.onBoundary serde st st.done) dir)
    (fuel : Nat) (holds : kept st sink dir) :
    Meets safe failed (EndsAs fuel st left) (runCore (durableSink serde Generator) fuel st sink)
      dir := by
  induction fuel generalizing st sink dir with
  | zero => exact meets_pure (start st sink dir holds) ⟨rfl, fun _ running => by cases running⟩
  | succ fuel inductionHypothesis =>
    rw [runCore]
    refine meets_then (boundary st sink dir holds) ?_
    rintro ⟨passed, stop⟩ middle safely ⟨rfl, ends, goes⟩
    dsimp only
    have round := loopFrom_succ fuel st
    rw [Bool.false_or]
    split
    · rename_i done
      rw [if_pos done] at round
      refine meets_pure safely ⟨round.symm, fun last same => ?_⟩
      rw [← Outcome.returned.inj (round.symm.trans same)]
      exact ends done
    · rename_i due
      rw [if_neg due] at round
      cases moved : st.event with
      | none =>
        rw [moved] at round
        exact meets_pure safely ⟨round.symm, fun _ same => by cases round.symm.trans same⟩
      | some next =>
        rw [moved] at round
        have on := goes next (Bool.eq_false_of_not_eq_true due) moved
        have all := List.prefix_iff_eq_append.mp on.grown
        dsimp only
        refine meets_then (meets_sinkRecords _ on.holds (all.symm ▸ on.bears)) ?_
        rintro _ final _ ⟨rfl, journal, rfl, held⟩
        rw [all] at held
        refine meets_mono (inductionHypothesis (on.kept journal held)) (fun _ stopped => stopped) ?_
        rintro outcome last _ ⟨ended, leaves⟩
        exact ⟨ended.trans round.symm, fun state same => leaves state (round.symm.trans same)⟩

/-- The funding post-pass of a durable run is that of the simulation, and touches no file. -/
theorem meets_finished {cfg : SimConfig} {fuel : Nat} {left : RunState Generator → RunDir → Prop}
    (loop : Meets safe failed (EndsAs fuel st left)
      (runCore (durableSink serde Generator) fuel st sink) dir)
    (panics : conclude cfg (loopFrom fuel st) = .panicked → failed .panicked) :
    Meets safe failed (fun result final => result = conclude cfg (loopFrom fuel st) ∧
        ∀ last, loopFrom fuel st = .returned last → left last final)
      (runCore (durableSink serde Generator) fuel st sink >>= finish cfg) dir := by
  refine meets_then loop ?_
  rintro outcome final safely ⟨ended, leaves⟩
  rw [← ended] at panics ⊢
  rw [← ended] at leaves
  cases outcome with
  | returned pair =>
    refine meets_bind (meets_orPanic safely (fun unfunded => panics ?_)
      fun ledger funded => meets_pure safely ⟨?_, leaves⟩)
    · rw [Outcome.map, conclude, unfunded]
    · rw [Outcome.map, conclude, funded]
  | panicked => exact meets_fail safely (panics rfl)
  | running => exact meets_pure safely ⟨rfl, leaves⟩

omit [RngState Generator] [Libm] in
/-- A run that returns a ledger has come to its last boundary and has funded it. -/
theorem exists_last_of_conclude {cfg : SimConfig} {ended : Outcome (RunState Generator)}
    {ledger : Ledger} (concluded : conclude cfg ended = .returned ledger) :
    ∃ last, ended = .returned last ∧ finalizeFunding last cfg = some ledger := by
  cases ended with
  | returned last =>
    refine ⟨last, rfl, ?_⟩
    unfold conclude at concluded
    dsimp only at concluded
    split at concluded
    · rename_i other funded
      rw [← Outcome.returned.inj concluded]
      exact funded
    · cases concluded
  | panicked => cases concluded
  | running => cases concluded

end Sink

end AccountCooker
