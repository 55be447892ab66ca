/-
This file compares the journals that are loaded with the committed ones. A
checkpoint counts the records of the journal and its bytes; the journal it
commits to is at least so long, and within that length it is so many lines, each
of a record. Loading looks at the number of records alone: what the lines leave
over of the length is not read, and where the file is too short it is filled up
to the length. So the two agree where the lines are as long as they should be.
-/

import Mathlib
import AccountCooker.Texts

namespace AccountCooker

open Crash

/-- The journal a checkpoint commits to: so many bytes are there, and they are so many lines, each
of which decodes to its record. -/
structure CommittedJournal (serde : Serde) (count lenBytes : Nat) (contents : Bytes)
    (records : List TxRecord) : Prop where
  long : lenBytes ≤ contents.length
  count : records.length = count
  lines : LinesDecode serde (contents.take lenBytes) records

/-- A committed journal is loaded. -/
theorem CommittedJournal.loaded {serde : Serde} {count lenBytes : Nat} {contents : Bytes}
    {records : List TxRecord} {dir : RunDir}
    (committed : CommittedJournal serde count lenBytes contents records)
    (present : dir.ledger = some contents) :
    (loadJournalPrefix serde count lenBytes dir).outcome = .ok records := by
  refine (loadJournalPrefix_eq_ok present).mpr ⟨?_, committed.count, _, List.prefix_rfl,
    committed.lines⟩
  exact (Int.ofNat_le.mpr committed.long).trans (le_max_right _ _)

/-- Exactly the committed journals are loaded, with their records, just when `count` lines at the
front that decode are as long as they should be. -/
theorem loadJournalPrefix_exact_iff (serde : Serde) (count lenBytes : Nat) (contents : Bytes)
    (dir : RunDir) :
    (∀ records, (loadJournalPrefix serde count lenBytes
        { dir with ledger := some contents }).outcome = .ok records ↔
          CommittedJournal serde count lenBytes contents records) ↔
      (Settable lenBytes contents → ∀ front records, front <+: contents.take lenBytes →
        LinesDecode serde front records → records.length = count → front.length = lenBytes) := by
  have present : ({ dir with ledger := some contents } : RunDir).ledger = some contents := rfl
  constructor
  · intro exact settable front records within lines full
    have committed := (exact records).mp
      ((loadJournalPrefix_eq_ok present).mpr ⟨settable, full, front, within, lines⟩)
    rw [lines.eq_of_begins committed.lines within rfl, List.length_take,
      Nat.min_eq_left committed.long]
  · intro ends records
    refine ⟨fun ended => ?_, fun committed => committed.loaded present⟩
    obtain ⟨settable, full, front, within, lines⟩ := (loadJournalPrefix_eq_ok present).mp ended
    have length := ends settable front records within lines full
    have short : (contents.take lenBytes).length ≤ front.length := by
      rw [length]
      exact List.length_take_le _ _
    have whole : front = contents.take lenBytes := within.eq_of_length_le short
    refine ⟨?_, full, whole ▸ lines⟩
    rw [whole, List.length_take] at length
    exact min_eq_left_iff.mp length

/-- The first record of a small journal. -/
def firstRecord : TxRecord :=
  ⟨1, 1, 1700000000, ⟨1⟩, ⟨2⟩, ⟨3⟩, 5000, .transfer, some 0⟩

/-- The journal of one record is loaded although a byte of the committed length is missing, and so
is the first of two records although the checkpoint counts only one. -/
theorem uncommitted_loaded :
    (¬ ∀ records, (loadJournalPrefix directorySerde 1
        ((journalOf directorySerde [firstRecord]).length + 1)
        ⟨some (journalOf directorySerde [firstRecord]), none, none⟩).outcome = .ok records ↔
          CommittedJournal directorySerde 1 ((journalOf directorySerde [firstRecord]).length + 1)
            (journalOf directorySerde [firstRecord]) records) ∧
    ¬ ∀ records, (loadJournalPrefix directorySerde 1
        (journalOf directorySerde [firstRecord, firstRecord]).length
        ⟨some (journalOf directorySerde [firstRecord, firstRecord]), none, none⟩).outcome =
          .ok records ↔
          CommittedJournal directorySerde 1
            (journalOf directorySerde [firstRecord, firstRecord]).length
            (journalOf directorySerde [firstRecord, firstRecord]) records := by
  have lines := journalOf_lines directorySerde_decodes
  constructor
  · intro exact
    have present : (⟨some (journalOf directorySerde [firstRecord]), none, none⟩ : RunDir).ledger =
        some (journalOf directorySerde [firstRecord]) := rfl
    have settable : Settable ((journalOf directorySerde [firstRecord]).length + 1)
        (journalOf directorySerde [firstRecord]) := by
      unfold Settable
      decide +kernel
    have loaded := (loadJournalPrefix_eq_ok present).mpr ⟨settable, rfl, _,
      (List.take_of_length_le (Nat.le_succ _)).symm ▸ List.prefix_rfl, lines [firstRecord]⟩
    exact absurd ((exact [firstRecord]).mp loaded).long (Nat.not_succ_le_self _)
  · intro exact
    have present : (⟨some (journalOf directorySerde [firstRecord, firstRecord]), none, none⟩ :
        RunDir).ledger = some (journalOf directorySerde [firstRecord, firstRecord]) := rfl
    have first : journalOf directorySerde [firstRecord] <+:
        (journalOf directorySerde [firstRecord, firstRecord]).take
          (journalOf directorySerde [firstRecord, firstRecord]).length := by
      rw [List.take_length]
      exact ⟨journalOf directorySerde [firstRecord],
        (journalOf_append [firstRecord] [firstRecord]).symm⟩
    have loaded := (loadJournalPrefix_eq_ok present).mpr
      ⟨le_max_right _ _, rfl, _, first, lines [firstRecord]⟩
    have committed := ((exact [firstRecord]).mp loaded).lines
    rw [List.take_length] at committed
    have newlines := committed.count_newline.symm.trans
      (lines [firstRecord, firstRecord]).count_newline
    exact absurd newlines (by decide)

end AccountCooker
