/-
This file says which journals are loaded. A journal is read line by line, as
many lines as there should be records; so what is loaded are the records of the
lines at its front, and whatever stands behind them is not read. A journal that
was too short has been filled up with zeros by then, of which none ends a line:
the lines that are read lie in the part that was there.
-/

import Mathlib
import AccountCooker.Refusal

namespace AccountCooker

open Crash

/-! ### Lines -/

theorem noBreak_pos {text : Bytes} (oneLine : 10 ∉ text) :
    ∀ byte ∈ text, decide (byte ≠ 10) = true :=
  fun _ member => decide_eq_true fun same => oneLine (same ▸ member)

theorem takeWhile_line {text : Bytes} (oneLine : 10 ∉ text) (beyond : Bytes) :
    (text ++ 10 :: beyond).takeWhile (· ≠ 10) = text := by
  rw [List.takeWhile_append_of_pos (noBreak_pos oneLine), List.takeWhile_cons_of_neg (by decide),
    List.append_nil]

theorem dropWhile_line {text : Bytes} (oneLine : 10 ∉ text) (beyond : Bytes) :
    (text ++ 10 :: beyond).dropWhile (· ≠ 10) = 10 :: beyond := by
  rw [List.dropWhile_append_of_pos (noBreak_pos oneLine), List.dropWhile_cons_of_neg (by decide)]

theorem firstLine_line {text : Bytes} (oneLine : 10 ∉ text) (beyond : Bytes) :
    firstLine (text ++ 10 :: beyond) = text ++ [10] := by
  rw [firstLine, takeWhile_line oneLine, dropWhile_line oneLine]
  rfl

/-- The first line of a file that has one. -/
theorem exists_line {bytes rest : Bytes} {newline : UInt8}
    (broken : bytes.dropWhile (· ≠ 10) = newline :: rest) :
    ∃ text, 10 ∉ text ∧ bytes = text ++ 10 :: rest := by
  have last : newline = 10 := by
    have stopped := List.head?_dropWhile_not (fun byte : UInt8 => decide (byte ≠ 10)) bytes
    rw [broken] at stopped
    exact not_not.mp (of_decide_eq_false stopped)
  refine ⟨bytes.takeWhile (· ≠ 10), fun member => ?_, ?_⟩
  · have differs := List.mem_takeWhile_imp member
    exact of_decide_eq_true differs rfl
  · rw [last] at broken
    rw [← broken]
    exact List.takeWhile_append_dropWhile.symm

section Lines

variable (serde : Serde)

/-- A line, without its newline, that decodes to a record. -/
structure LineDecodes (text : Bytes) (record : TxRecord) : Prop where
  oneLine : 10 ∉ text
  decodes : ∃ line, String.fromUTF8? (text ++ [10]).toByteArray = some line ∧
    serde.parseRecord (trimEnd line) = .ok record

/-- Newline-terminated lines, each of which decodes to a record. -/
inductive LinesDecode : Bytes → List TxRecord → Prop
  | nil : LinesDecode [] []
  | cons {text rest : Bytes} {record : TxRecord} {records : List TxRecord}
      (line : LineDecodes serde text record) (lines : LinesDecode rest records) :
      LinesDecode (text ++ 10 :: rest) (record :: records)

end Lines

section Reading

variable {serde : Serde} {front : Bytes} {records : List TxRecord}

/-- Every line ends in the one newline it has. -/
theorem LinesDecode.count_newline (lines : LinesDecode serde front records) :
    front.count 10 = records.length := by
  induction lines with
  | nil => rfl
  | cons line _ inductionHypothesis =>
    rw [List.count_append, List.count_eq_zero_of_not_mem line.oneLine, List.count_cons_self,
      inductionHypothesis, List.length_cons, Nat.zero_add]

theorem LinesDecode.ends (lines : LinesDecode serde front records) :
    front = [] ∨ ∃ init, front = init ++ [10] := by
  induction lines with
  | nil => exact Or.inl rfl
  | @cons text rest _ _ _ _ inductionHypothesis =>
    refine Or.inr ?_
    rcases inductionHypothesis with rfl | ⟨init, rfl⟩
    · exact ⟨text, rfl⟩
    · exact ⟨text ++ 10 :: init, by rw [List.append_assoc, List.cons_append]⟩

/-- Zeros behind a file add no line to it. -/
theorem LinesDecode.prefix_of_padded (lines : LinesDecode serde front records) {contents : Bytes}
    {zeros : Nat} (padded : front <+: contents ++ List.replicate zeros 0) : front <+: contents := by
  induction zeros with
  | zero => rwa [List.replicate_zero, List.append_nil] at padded
  | succ zeros inductionHypothesis =>
    rw [List.replicate_succ', ← List.append_assoc] at padded
    rcases List.prefix_concat_iff.mp padded with whole | shorter
    · rcases lines.ends with rfl | ⟨init, rfl⟩
      · exact List.nil_prefix
      · have last := (List.append_inj' whole rfl).2
        exact absurd (List.cons.inj last).1 (by decide)
    · exact inductionHypothesis shorter

/-- As many lines at the front of the same file are the same bytes. -/
theorem LinesDecode.eq_of_begins {whole : Bytes} {others : List TxRecord}
    (lines : LinesDecode serde front records) (all : LinesDecode serde whole others)
    (begins : front <+: whole) (length : records.length = others.length) :
    front = whole := by
  obtain ⟨beyond, rfl⟩ := begins
  have newlines := all.count_newline
  rw [List.count_append, lines.count_newline, length, Nat.add_eq_left] at newlines
  rcases List.eq_nil_or_concat beyond with rfl | ⟨init, byte, rfl⟩
  · rw [List.append_nil]
  · rcases all.ends with empty | ⟨other, ended⟩
    · exact absurd empty (by simp)
    · rw [List.concat_eq_append, ← List.append_assoc] at ended
      have last := (List.append_inj' ended rfl).2
      rw [List.concat_eq_append, last, List.count_append, List.count_singleton_self] at newlines
      exact absurd newlines (Nat.succ_ne_zero _)

/-- The lines at the front of a journal are loaded, whatever stands behind them. -/
theorem loadRecords_of_lines (lines : LinesDecode serde front records) (beyond : Bytes) :
    loadRecords serde records.length (front ++ beyond) = .ok records := by
  induction lines with
  | nil => rfl
  | @cons text rest record records line _ inductionHypothesis =>
    obtain ⟨text', decoded, parsed⟩ := line.decodes
    rw [List.length_cons, loadRecords, List.append_assoc, List.cons_append,
      firstLine_line line.oneLine, dropWhile_line line.oneLine, decoded]
    dsimp only
    rw [parsed, inductionHypothesis]
    rfl

/-- Where as many records are loaded as there should be, they are those of the lines at the
front. -/
theorem lines_of_loadRecords {count : Nat} {bytes : Bytes}
    (loaded : loadRecords serde count bytes = .ok records) (full : records.length = count) :
    ∃ front, front <+: bytes ∧ LinesDecode serde front records := by
  induction count generalizing bytes records with
  | zero =>
    rw [List.length_eq_zero_iff.mp full]
    exact ⟨[], List.nil_prefix, .nil⟩
  | succ count inductionHypothesis =>
    rw [loadRecords] at loaded
    split at loaded
    · exact absurd loaded (by simp)
    · rename_i line decoded
      split at loaded
      · rw [← Except.ok.inj loaded] at full
        exact absurd full (Nat.succ_ne_zero count).symm
      · rename_i newline rest broken
        obtain ⟨text, oneLine, rfl⟩ := exists_line broken
        split at loaded
        · exact absurd loaded (by simp)
        · rename_i record parsed
          cases later : loadRecords serde count rest with
          | error error =>
            rw [later] at loaded
            exact absurd loaded (by simp [Functor.map, Except.map])
          | ok others =>
            rw [later] at loaded
            obtain rfl : record :: others = records := Except.ok.inj loaded
            obtain ⟨front, ⟨beyond, rfl⟩, lines⟩ :=
              inductionHypothesis later (Nat.succ.inj full)
            rw [firstLine_line oneLine] at decoded
            refine ⟨text ++ 10 :: front, ⟨beyond, by simp⟩, .cons ⟨oneLine, line, decoded, parsed⟩
              lines⟩

end Reading

/-! ### Journals that are loaded -/

section Loading

variable {serde : Serde} {count lenBytes : Nat} {contents : Bytes} {dir : RunDir}
  {records : List TxRecord}

theorem readRecords_eq_ok (present : dir.ledger = some contents) :
    (readRecords serde count dir).outcome = .ok records ↔
      loadRecords serde count contents = .ok records ∧ records.length = count := by
  unfold readRecords
  rw [(bind_ok (readFile_ledger present)).1, readsOnly_readFile]
  cases loaded : loadRecords serde count contents with
  | error error =>
    have stopped : Refused (orFail (Except.error error) : Disk (List TxRecord)) dir (.io error)
        dir := ⟨rfl, rfl⟩
    rw [(bind_refused stopped).outcome]
    simp
  | ok others =>
    have passed : (orFail (Except.ok others) dir).outcome = .ok others := rfl
    rw [(bind_ok passed).1, readsOnly_orFail]
    split
    · rename_i differs
      constructor
      · exact fun ended => absurd ended (by simp [Persistent.fail])
      · rintro ⟨same, full⟩
        rw [← Except.ok.inj same] at full
        exact absurd full differs
    · rename_i full
      constructor
      · intro ended
        obtain rfl : others = records := Except.ok.inj ended
        exact ⟨rfl, not_not.mp full⟩
      · rintro ⟨same, _⟩
        rw [← Except.ok.inj same]
        rfl

/-- A journal is loaded exactly when it can be given the length and, within the length, begins with
as many lines that decode. -/
theorem loadJournalPrefix_eq_ok (present : dir.ledger = some contents) :
    (loadJournalPrefix serde count lenBytes dir).outcome = .ok records ↔
      Settable lenBytes contents ∧ records.length = count ∧
        ∃ front, front <+: contents.take lenBytes ∧ LinesDecode serde front records := by
  have cut : (dir.cutLedger lenBytes).ledger = some (setLen lenBytes contents) := by
    rw [RunDir.cutLedger, present, Option.map_some]
  constructor
  · intro ended
    obtain ⟨_, found, settable⟩ := loadJournalPrefix_ok serde ended
    obtain rfl := Option.some.inj (present.symm.trans found)
    rw [(loadJournalPrefix_cut serde present settable).1, readRecords_eq_ok cut] at ended
    obtain ⟨front, padded, lines⟩ := lines_of_loadRecords ended.1 ended.2
    exact ⟨settable, ended.2, front, lines.prefix_of_padded padded, lines⟩
  · rintro ⟨settable, rfl, front, ⟨beyond, split⟩, lines⟩
    rw [(loadJournalPrefix_cut serde present settable).1, readRecords_eq_ok cut, setLen, ← split,
      List.append_assoc]
    exact ⟨loadRecords_of_lines lines _, rfl⟩

end Loading

end AccountCooker
