/-
This file models the control snapshot of a run and its restoration onto a state
rebuilt from the same personas and configuration. The snapshot keeps what the
rebuilding cannot know: the generator, the counters, one time per schedule
entry, and the rotated accounts. The records stay in the journal.

The heap of a boundary holds every schedule index once, and a sorted list is
determined by its entries, so the restored heap is the heap that was saved.
-/

import Mathlib
import AccountCooker.Fleet

namespace AccountCooker

/-- A file's contents. -/
abbrev Bytes := List UInt8

/-! ### Errors -/

inductive ErrorKind
  | notFound
  | invalidInput
  | invalidData
  | other
deriving DecidableEq

/-- `io::Error`. -/
structure IoError where
  kind : ErrorKind
  message : String
deriving DecidableEq

/-- `io::Error::new(io::ErrorKind::InvalidData, message)`. -/
def invalidData (message : String) : IoError := ⟨.invalidData, message⟩

/-- `io::Error::new(io::ErrorKind::InvalidInput, message)`. -/
def invalidInput (message : String) : IoError := ⟨.invalidInput, message⟩

/-! ### The snapshot -/

/-- The on-disk format version. -/
def checkpointFormat : Nat := 2

/-- The identity of a run. -/
structure RunId where
  format : Nat
  seed : Nat
  mode : Mode
  numAgents : Nat
  durationSecs : Int
  startTs : Int
  numExternal : Nat
  hardenTiming : Bool
  inputsDigest : Bytes
deriving DecidableEq

/-- A durable control snapshot. -/
structure Checkpoint where
  format : Nat
  runId : RunId
  rngState : Bytes
  clock : Int
  slot : Nat
  sig : Nat
  nextAt : List Int
  agentSubaccounts : List (List AccountId)
  agentMains : List AccountId
  recordsEmitted : Nat
  journalLenBytes : Nat
  events : Nat
deriving DecidableEq

/-- The saved state of a generator: 49 bytes, from which it continues unchanged. -/
class RngState (Generator : Type) where
  serializeState : Generator → Vector UInt8 49
  deserializeState : Vector UInt8 49 → Generator
  deserialize_serialize : ∀ generator, deserializeState (serializeState generator) = generator

instance : RngState Counter where
  serializeState counter := Vector.replicate 49 (UInt8.ofNat counter.position.val)
  deserializeState state := ⟨⟨state[0].toNat, state[0].toNat_lt⟩⟩
  deserialize_serialize counter := by
    cases counter
    simp

/-- `next_at[si] = na` for one heap entry. -/
def placeDue (nextAt : List Int) (due : Due) : Option (List Int) :=
  if due.2 < nextAt.length then some (nextAt.set due.2 due.1) else none

/-- The time of every schedule index, read off the heap; a missing index fails the assertion. -/
def nextTimes (heap : List Due) (count : Nat) : Option (List Int) := do
  let nextAt ← heap.foldlM placeDue (List.replicate count i64Min)
  if nextAt.all (· ≠ i64Min) then some nextAt else none

/-- A state under the records loaded from the journal. -/
def RunState.withRecords {Generator : Type} (st : RunState Generator) (records : List TxRecord) :
    RunState Generator :=
  { st with chain := { st.chain with ledger := ⟨records⟩ } }

theorem withRecords_records {Generator : Type} (st : RunState Generator)
    (records : List TxRecord) :
    (st.withRecords records).withRecords st.chain.ledger.records = st := rfl

section Snapshot

variable {Generator : Type} [RngState Generator]

/-- Build a checkpoint from a state at a boundary. -/
def RunState.snapshot (st : RunState Generator) (runId : RunId) (journalLenBytes : Nat) :
    Option Checkpoint := do
  let nextAt ← nextTimes st.heap st.sched.length
  pure {
    format := checkpointFormat
    runId := runId
    rngState := (RngState.serializeState st.rng).toList
    clock := st.chain.clock
    slot := st.chain.slot
    sig := st.chain.sig
    nextAt := nextAt
    agentSubaccounts := st.agents.map (·.subaccounts)
    agentMains := st.agents.map (·.main)
    recordsEmitted := st.chain.ledger.records.length
    journalLenBytes := journalLenBytes
    events := st.events }

/-! ### Restoring -/

/-- Put the saved accounts into rebuilt agents. -/
def restoreAgents : List Agent → List (List AccountId) → List AccountId →
    Except IoError (List Agent)
  | agent :: agents, subaccounts :: moreSubaccounts, main :: mains =>
    if subaccounts.length ≠ agent.subaccounts.length then
      .error (invalidData "checkpoint subaccount state length mismatch")
    else do
      let restored ← restoreAgents agents moreSubaccounts mains
      pure ({ agent with subaccounts := subaccounts, main := main } :: restored)
  | agents, _, _ => .ok agents

/-- `ChaCha12Rng::deserialize_state`, after the check of the length. -/
def restoreRng (rngState : Bytes) : Except IoError Generator :=
  if size : rngState.toArray.size = 49 then .ok (RngState.deserializeState ⟨rngState.toArray, size⟩)
  else .error (invalidData "rng_state != 49 bytes")

/-- Restore a checkpoint onto a freshly built state, up to the records. -/
def restoreState (cp : Checkpoint) (st : RunState Generator) :
    Except IoError (RunState Generator) :=
  if cp.nextAt.length ≠ st.sched.length then
    .error (invalidData "next_at length != schedule length")
  else if cp.agentSubaccounts.length ≠ st.agents.length ∨
      cp.agentMains.length ≠ st.agents.length then
    .error (invalidData "checkpoint agent account state length mismatch")
  else do
    let agents ← restoreAgents st.agents cp.agentSubaccounts cp.agentMains
    let rng ← restoreRng cp.rngState
    pure { st with
      agents := agents
      rng := rng
      chain := { st.chain with clock := cp.clock, slot := cp.slot, sig := cp.sig }
      events := cp.events
      heap := heapOf cp.nextAt }

end Snapshot

/-! ### Heaps and times -/

section Heap

theorem dueBefore_total (first second : Due) : dueBefore first second ∨ dueBefore second first := by
  unfold dueBefore
  omega

theorem dueBefore_trans (first second third : Due) (before : dueBefore first second)
    (after : dueBefore second third) : dueBefore first third := by
  unfold dueBefore at *
  omega

theorem dueBefore_antisymm (first second : Due) (before : dueBefore first second)
    (after : dueBefore second first) : first = second := by
  unfold dueBefore at *
  exact Prod.ext (by omega) (by omega)

instance : Std.Total dueBefore := ⟨dueBefore_total⟩

instance : IsTrans Due dueBefore := ⟨dueBefore_trans⟩

instance : Std.Antisymm dueBefore := ⟨dueBefore_antisymm⟩

theorem push_perm (heap : List Due) (entry : Due) : (push heap entry).Perm (entry :: heap) :=
  List.perm_orderedInsert _ _ _

theorem push_sorted {heap : List Due} (entry : Due) (sorted : heap.Pairwise dueBefore) :
    (push heap entry).Pairwise dueBefore :=
  sorted.orderedInsert entry heap

theorem pushes_perm (entries heap : List Due) :
    (entries.foldl push heap).Perm (entries ++ heap) := by
  induction entries generalizing heap with
  | nil => exact List.Perm.refl _
  | cons entry rest inductionHypothesis =>
    rw [List.foldl_cons]
    refine (inductionHypothesis _).trans ?_
    refine ((push_perm heap entry).append_left rest).trans ?_
    exact List.perm_middle

theorem pushes_sorted (entries : List Due) {heap : List Due} (sorted : heap.Pairwise dueBefore) :
    (entries.foldl push heap).Pairwise dueBefore := by
  induction entries generalizing heap with
  | nil => exact sorted
  | cons entry rest inductionHypothesis => exact inductionHypothesis (push_sorted entry sorted)

theorem heapOf_perm (times : List Int) : (heapOf times).Perm times.zipIdx := by
  have perm := pushes_perm times.zipIdx []
  rwa [List.append_nil] at perm

theorem heapOf_sorted (times : List Int) : (heapOf times).Pairwise dueBefore :=
  pushes_sorted _ List.Pairwise.nil

/-- The heap is sorted and holds every index below `count` once. -/
structure HeapFull (heap : List Due) (count : Nat) : Prop where
  sorted : heap.Pairwise dueBefore
  indices : (heap.map Prod.snd).Perm (List.range count)

theorem heapOf_full (times : List Int) : HeapFull (heapOf times) times.length := by
  refine ⟨heapOf_sorted times, ?_⟩
  refine ((heapOf_perm times).map Prod.snd).trans ?_
  rw [List.zipIdx_map_snd, List.range_eq_range']

/-- Placing entries with distinct indices puts each time at its index and nothing elsewhere. -/
theorem placeDues (heap : List Due) (start times : List Int)
    (placed : heap.foldlM placeDue start = some times) (distinct : (heap.map Prod.snd).Nodup) :
    times.length = start.length ∧ (∀ due ∈ heap, times[due.2]? = some due.1) ∧
      ∀ index, index ∉ heap.map Prod.snd → times[index]? = start[index]? := by
  induction heap generalizing start with
  | nil =>
    obtain rfl := Option.some.inj placed
    exact ⟨rfl, fun due member => absurd member List.not_mem_nil, fun _ _ => rfl⟩
  | cons due rest inductionHypothesis =>
    rw [List.foldlM_cons, Option.bind_eq_bind, Option.bind_eq_some_iff] at placed
    obtain ⟨next, here, later⟩ := placed
    rw [List.map_cons, List.nodup_cons] at distinct
    unfold placeDue at here
    split at here
    · rename_i inRange
      obtain rfl := Option.some.inj here
      obtain ⟨length, found, kept⟩ := inductionHypothesis _ later distinct.2
      refine ⟨by rw [length, List.length_set], fun other member => ?_, fun index absent => ?_⟩
      · rcases List.mem_cons.mp member with rfl | inRest
        · rw [kept _ distinct.1]
          exact List.getElem?_set_self inRange
        · exact found other inRest
      · rw [List.map_cons, List.mem_cons, not_or] at absent
        rw [kept index absent.2]
        exact List.getElem?_set_ne (Ne.symm absent.1)
    · exact absurd here (by simp)

/-- Every index is in range, so every entry is placed. -/
theorem exists_placeDues (heap : List Due) (start : List Int)
    (inRange : ∀ due ∈ heap, due.2 < start.length) :
    ∃ times, heap.foldlM placeDue start = some times := by
  induction heap generalizing start with
  | nil => exact ⟨start, rfl⟩
  | cons due rest inductionHypothesis =>
    obtain ⟨times, placed⟩ := inductionHypothesis (start.set due.2 due.1)
      (fun other member => by
        rw [List.length_set]
        exact inRange other (List.mem_cons_of_mem _ member))
    refine ⟨times, ?_⟩
    rw [List.foldlM_cons, placeDue, if_pos (inRange due List.mem_cons_self)]
    exact placed

/-- The times placed from entries that hold every index once are those of the entries. -/
theorem placeDues_perm {heap : List Due} {count : Nat} {times : List Int}
    (indices : (heap.map Prod.snd).Perm (List.range count))
    (placing : heap.foldlM placeDue (List.replicate count i64Min) = some times) :
    times.length = count ∧ times.zipIdx.Perm heap := by
  have distinct : (heap.map Prod.snd).Nodup := indices.nodup_iff.mpr List.nodup_range
  obtain ⟨length, found, _⟩ := placeDues heap _ times placing distinct
  rw [List.length_replicate] at length
  have indicesNodup : (times.zipIdx.map Prod.snd).Nodup := by
    rw [List.zipIdx_map_snd]
    exact List.nodup_range'
  refine ⟨length, (List.perm_ext_iff_of_nodup indicesNodup.of_map distinct.of_map).mpr ?_⟩
  rintro ⟨time, index⟩
  rw [List.mem_zipIdx_iff_getElem?]
  constructor
  · intro atIndex
    have inRange : index ∈ List.range count := by
      obtain ⟨bound, _⟩ := List.getElem?_eq_some_iff.mp atIndex
      rw [List.mem_range, ← length]
      exact bound
    obtain ⟨due, member, rfl⟩ := List.mem_map.mp (indices.mem_iff.mpr inRange)
    obtain rfl := Option.some.inj ((found due member).symm.trans atIndex)
    exact member
  · exact fun member => found (time, index) member

/-- The times read off entries that hold every index once are those of the entries. -/
theorem nextTimes_perm {heap : List Due} {count : Nat} {times : List Int}
    (indices : (heap.map Prod.snd).Perm (List.range count))
    (read : nextTimes heap count = some times) :
    times.length = count ∧ times.zipIdx.Perm heap := by
  simp only [nextTimes, Option.bind_eq_bind, Option.bind_eq_some_iff] at read
  obtain ⟨placed, placing, asserted⟩ := read
  obtain rfl : placed = times := by
    split at asserted
    · exact Option.some.inj asserted
    · exact absurd asserted (by simp)
  exact placeDues_perm indices placing

/-- The times can be read off exactly when none of them is the placeholder. -/
theorem nextTimes_eq_none {heap : List Due} {count : Nat}
    (indices : (heap.map Prod.snd).Perm (List.range count)) :
    nextTimes heap count = none ↔ ∃ due ∈ heap, due.1 = i64Min := by
  obtain ⟨times, placing⟩ := exists_placeDues heap (List.replicate count i64Min) (by
    intro due member
    rw [List.length_replicate]
    exact List.mem_range.mp (indices.mem_iff.mp (List.mem_map_of_mem member)))
  have perm := (placeDues_perm indices placing).2
  have asserted : times.all (· ≠ i64Min) = true ↔ ∀ due ∈ heap, due.1 ≠ i64Min := by
    rw [List.all_eq_true]
    constructor
    · intro all due member
      have inTimes := List.fst_mem_of_mem_zipIdx (perm.mem_iff.mpr member)
      exact of_decide_eq_true (all due.1 inTimes)
    · intro all time member
      obtain ⟨index, bound, rfl⟩ := List.mem_iff_getElem.mp member
      have inHeap : (times[index], index) ∈ heap :=
        perm.mem_iff.mp (List.mk_mem_zipIdx_iff_getElem?.mpr (List.getElem?_eq_getElem bound))
      exact decide_eq_true (all _ inHeap)
  unfold nextTimes
  rw [placing]
  by_cases all : times.all (· ≠ i64Min) = true
  · have kept := asserted.mp all
    rw [Option.bind_eq_bind, Option.bind_some, if_pos all]
    exact ⟨fun none => absurd none (by simp),
      fun ⟨due, member, least⟩ => absurd least (kept due member)⟩
  · have least := mt asserted.mpr all
    simp only [not_forall, not_not, exists_prop] at least
    rw [Option.bind_eq_bind, Option.bind_some, if_neg all]
    exact ⟨fun _ => least, fun _ => rfl⟩

/-- The restored heap is the heap that was saved, in whatever order its entries were read. -/
theorem heapOf_nextTimes {heap layout : List Due} {count : Nat} {times : List Int}
    (full : HeapFull heap count) (entries : layout.Perm heap)
    (read : nextTimes layout count = some times) : heapOf times = heap := by
  have perm := (nextTimes_perm ((entries.map Prod.snd).trans full.indices) read).2
  exact (((heapOf_perm times).trans perm).trans entries).eq_of_pairwise
    (fun first second _ _ => dueBefore_antisymm first second) (heapOf_sorted times) full.sorted

/-- After an entry is popped and its index pushed again, the heap is full again. -/
theorem HeapFull.push_again {head : Due} {rest : List Due} {count : Nat} (nextAt : Int)
    (full : HeapFull (head :: rest) count) : HeapFull (push rest (nextAt, head.2)) count := by
  refine ⟨push_sorted _ (List.pairwise_cons.mp full.sorted).2, ?_⟩
  exact ((push_perm rest (nextAt, head.2)).map Prod.snd).trans full.indices

end Heap

/-! ### Restoring a snapshot -/

section RestoreSnapshot

variable {Generator : Type} [RngState Generator]

/-- The parts of an agent that a run never changes. -/
structure SameAgent (built agent : Agent) : Prop where
  id : agent.id = built.id
  persona : agent.persona = built.persona
  subSched : agent.subSched = built.subSched
  count : agent.subaccounts.length = built.subaccounts.length

/-- A state of the run that was built as `built`: what is not saved is unchanged. -/
structure SameRun (built st : RunState Generator) : Prop where
  agents : List.Forall₂ SameAgent built.agents st.agents
  externals : st.externals = built.externals
  sched : st.sched = built.sched
  cfg : st.cfg = built.cfg
  finish : st.finish = built.finish
  heap : HeapFull st.heap st.sched.length

theorem restoreAgents_same {built agents : List Agent}
    (same : List.Forall₂ SameAgent built agents) :
    restoreAgents built (agents.map (·.subaccounts)) (agents.map (·.main)) = .ok agents := by
  induction same with
  | nil => rfl
  | @cons first second rest others here _ inductionHypothesis =>
    rw [List.map_cons, List.map_cons, restoreAgents, if_neg (not_not.mpr here.count),
      inductionHypothesis]
    obtain ⟨id, persona, subaccounts, subSched, main⟩ := second
    obtain ⟨rfl, rfl, rfl, _⟩ := here
    rfl

theorem restoreRng_serialize (rng : Generator) :
    restoreRng (RngState.serializeState rng).toList = .ok rng := by
  have size : (RngState.serializeState rng).toList.toArray.size = 49 := by simp
  unfold restoreRng
  rw [dif_pos size]
  exact congrArg Except.ok (RngState.deserialize_serialize rng)

/-- Restoring the snapshot of a state onto its rebuilt run gives the state back. The snapshot reads
the entries of the heap in the order of its array, which is any. -/
theorem restoreState_snapshot {built st : RunState Generator} {layout : List Due} {runId : RunId}
    {journalLenBytes : Nat} {cp : Checkpoint} (same : SameRun built st)
    (entries : layout.Perm st.heap)
    (saved : ({ st with heap := layout } : RunState Generator).snapshot runId journalLenBytes =
      some cp) :
    restoreState cp built = .ok (st.withRecords built.chain.ledger.records) := by
  simp only [RunState.snapshot, Option.bind_eq_bind, Option.bind_eq_some_iff] at saved
  obtain ⟨times, read, equal⟩ := saved
  obtain rfl := Option.some.inj equal
  obtain ⟨length, _⟩ := nextTimes_perm ((entries.map Prod.snd).trans same.heap.indices) read
  unfold restoreState
  rw [if_neg (not_not.mpr (length.trans (congrArg List.length same.sched))),
    if_neg (by simp [same.agents.length_eq]), restoreAgents_same same.agents,
    restoreRng_serialize, heapOf_nextTimes same.heap entries read]
  obtain ⟨agents, externals, sched, cfg, finish, rng, heap, chain, events⟩ := st
  obtain ⟨_, rfl, rfl, rfl, rfl, _⟩ := same
  rfl

end RestoreSnapshot

end AccountCooker
