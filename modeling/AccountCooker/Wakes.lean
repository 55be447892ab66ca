/-
This file settles that the event loop ends and serves its wakes in order. The
heap is an agenda: each round takes its least entry and puts the schedule index
back at a later time, because the delay is at least a second and the wake that
is served lies before the end of the run, hence below the largest timestamp.

The loop therefore serves no more wakes than the agenda has times left up to the
end; and as no entry is lost, when it returns every wake due by then was served,
and served once.
-/

import Mathlib
import AccountCooker.Boundary
import AccountCooker.Agenda

namespace AccountCooker

open Draw Agenda

/-! ### The next wake -/

section Waking

theorem lt_saturatingI64 {best delay : Int} (early : best < i64Max) (positive : 1 ≤ delay) :
    best < saturatingI64 (best + delay) := by
  unfold saturatingI64
  exact lt_max_of_lt_right (lt_min early (by omega))

/-- What was pushed can be read off the heap. -/
theorem push_inj {heap : List Due} {index : Nat} {first second : Int}
    (same : push heap (first, index) = push heap (second, index)) : first = second := by
  have perm : ((first, index) :: heap).Perm ((second, index) :: heap) := by
    refine (push_perm heap (first, index)).symm.trans ?_
    rw [same]
    exact push_perm heap (second, index)
  have sums := (perm.map Prod.fst).sum_eq
  rw [List.map_cons, List.map_cons, List.sum_cons, List.sum_cons] at sums
  exact add_right_cancel sums

variable {Generator : Type} [Rng Generator] [Libm]

/-- A wake before the largest timestamp schedules the next one later. -/
theorem wake_later {cfg : SimConfig} {externals : List AccountId} {best : Int} {chain : MockChain}
    {agent : Agent} {subIdx : Option Nat} {woken : Woken} {before after : Tape Generator}
    (early : best < i64Max)
    (woke : wake cfg externals best chain agent subIdx before = some (woken, after)) :
    best < woken.nextAt := by
  cases subIdx with
  | none =>
    obtain ⟨acted, _, _, woke⟩ := bind_eq_some.mp woke
    obtain ⟨delay, _, _, woke⟩ := bind_eq_some.mp woke
    obtain ⟨rfl, _⟩ := pure_eq_some.mp woke
    exact lt_saturatingI64 early (le_max_right _ _)
  | some k =>
    obtain ⟨acted, _, _, woke⟩ := bind_eq_some.mp woke
    obtain ⟨sub, _, _, woke⟩ := bind_eq_some.mp woke
    obtain ⟨delay, _, _, woke⟩ := bind_eq_some.mp woke
    obtain ⟨held, _, _, woke⟩ := bind_eq_some.mp woke
    obtain ⟨rfl, _⟩ := pure_eq_some.mp woke
    exact lt_saturatingI64 early (le_max_right _ _)

/-- A wake is served from the front of a heap in order, and pushes its index back at a later
time. -/
theorem serve_turn {st next : RunState Generator} {ids : List AccountId}
    (full : HeapFull st.heap st.sched.length) (due : st.done = false) (early : st.finish < i64Max)
    (served : st.serve = some (next, ids)) :
    ∃ due rest again, st.heap = due :: rest ∧ due.1 ≤ st.finish ∧
      next.heap = push rest (again, due.2) ∧ Turn dueBefore st.heap due again next.heap := by
  obtain ⟨first, rest, facts⟩ := serve_served served
  obtain ⟨entry, agent, woken, _, _, woke, _, _, heap⟩ := facts.acted
  have inTime : first.1 ≤ st.finish := by
    unfold RunState.done at due
    rw [facts.heap] at due
    exact not_lt.mp (of_decide_eq_false due)
  have later := wake_later (lt_of_le_of_lt inTime early) woke
  refine ⟨first, rest, woken.nextAt, facts.heap, inTime, heap, ?_, ⟨rest, ?_, ?_⟩, later⟩
  · intro other member
    have sorted := full.sorted
    rw [facts.heap] at sorted member
    rcases List.mem_cons.mp member with rfl | behind
    · exact Or.inr ⟨rfl, le_rfl⟩
    · exact (List.pairwise_cons.mp sorted).1 other behind
  · rw [facts.heap]
  · rw [heap]
    exact push_perm rest _

end Waking

/-! ### The loop -/

section Looping

variable {Generator : Type} [Rng Generator] [Libm]

/-- The loop from one boundary to another: each round pops a wake that is due and pushes its index
back. The log holds, for every round, the entry popped and the time pushed for its index. -/
inductive Loop : RunState Generator → List (Due × Int) → RunState Generator → Prop
  | here (st : RunState Generator) : Loop st [] st
  | round {st next final : RunState Generator} {ids : List AccountId} {due : Due} {again : Int}
    {rest : List Due} {log : List (Due × Int)} (pending : st.done = false)
    (served : st.serve = some (next, ids)) (popped : st.heap = due :: rest)
    (pushed : next.heap = push rest (again, due.2)) (later : Loop next log final) :
    Loop st ((due, again) :: log) final

/-- What a boundary of the loop keeps of the built run. -/
structure OnTime (built st : RunState Generator) : Prop where
  heap : HeapFull st.heap st.sched.length
  sched : st.sched = built.sched
  finish : st.finish = built.finish

omit [Rng Generator] [Libm] in
theorem OnTime.refl {built : RunState Generator}
    (full : HeapFull built.heap built.sched.length) : OnTime built built := ⟨full, rfl, rfl⟩

theorem OnTime.serve {built st next : RunState Generator} {ids : List AccountId}
    (time : OnTime built st) (served : st.serve = some (next, ids)) : OnTime built next := by
  obtain ⟨due, rest, facts⟩ := serve_served served
  obtain ⟨_, _, woken, _, _, _, _, _, heap⟩ := facts.acted
  refine ⟨?_, facts.sched.trans time.sched, facts.finish.trans time.finish⟩
  have full := time.heap
  rw [facts.heap] at full
  rw [heap, facts.sched]
  exact full.push_again woken.nextAt

variable {built st final : RunState Generator} {log : List (Due × Int)}

/-- The heaps along the loop are an agenda, and every boundary is on time. -/
theorem Loop.turns (loop : Loop st log final) (time : OnTime built st)
    (early : built.finish < i64Max) :
    OnTime built final ∧ Turns dueBefore st.heap log final.heap ∧
      (∀ turn ∈ log, turn.1.1 ≤ built.finish) ∧ final.events = st.events + log.length := by
  induction loop with
  | here st => exact ⟨time, Turns.start _, fun turn member => absurd member List.not_mem_nil, rfl⟩
  | @round st next final ids due again rest log pending served popped pushed later
      inductionHypothesis =>
    obtain ⟨first, others, put, heap, inTime, pushes, turn⟩ :=
      serve_turn time.heap pending (time.finish ▸ early) served
    obtain ⟨rfl, rfl⟩ := List.cons.inj (popped.symm.trans heap)
    obtain rfl : put = again := push_inj (pushes.symm.trans pushed)
    obtain ⟨onTime, turns, due, events⟩ := inductionHypothesis (time.serve served)
    obtain ⟨_, _, facts⟩ := serve_served served
    refine ⟨onTime, Turns.turn turn turns, ?_, ?_⟩
    · intro turn member
      rcases List.mem_cons.mp member with rfl | behind
      · rw [← time.finish]
        exact inTime
      · exact due turn behind
    · rw [events, facts.events, List.length_cons]
      omega

/-- The events a run may still have: for every entry of the schedule, the times it can be due at up
to the end. -/
def eventBudget (built : RunState Generator) : Nat :=
  (built.sched.map fun entry => (built.finish - entry.nextAt + 1).toNat).sum

theorem buildDrawing_heap {personas : List Persona} {cfg : SimConfig} {ids : List AccountId}
    (building : buildDrawing personas cfg = some (built, ids)) :
    built.heap = heapOf (built.sched.map (·.nextAt)) := by
  obtain ⟨_, externals, agents, tape, finish, _, _, _, rfl⟩ := buildDrawing_eq_some.mp building
  rfl

omit [Rng Generator] [Libm] in
theorem budget_eq_eventBudget (start : built.heap = heapOf (built.sched.map (·.nextAt))) :
    budget built.finish built.heap = eventBudget built := by
  rw [start, budget_perm built.finish (heapOf_perm _)]
  unfold budget eventBudget
  have times : (fun entry : Due => (built.finish - entry.1 + 1).toNat) =
      (fun time => (built.finish - time + 1).toNat) ∘ Prod.fst := rfl
  rw [times, ← List.map_map, List.zipIdx_map_fst, List.map_map]
  rfl

/-- A sink that lets the loop go on, whatever it is told. -/
def NeverStops {Sink : Type} (sink : DurSink Id Sink Generator) : Prop :=
  ∀ state st done, (sink.onBoundary state st done).2 = false

/-- One round of the loop. -/
theorem runCore_round {Sink : Type} {sink : DurSink Id Sink Generator} (never : NeverStops sink)
    (fuel : Nat) (st : RunState Generator) (state : Sink) :
    runCore sink (fuel + 1) st state =
      if st.done = true then Outcome.returned (st, (sink.onBoundary state st st.done).1)
      else st.event.elim Outcome.panicked fun next => runCore sink fuel next (sink.onRecords
        (sink.onBoundary state st st.done).1
        (next.chain.ledger.records.drop st.chain.ledger.records.length)) := by
  have step : runCore sink (fuel + 1) st state =
      if ((sink.onBoundary state st st.done).2 || st.done) = true then
        Outcome.returned (st, (sink.onBoundary state st st.done).1)
      else st.event.elim Outcome.panicked fun next => runCore sink fuel next (sink.onRecords
        (sink.onBoundary state st st.done).1
        (next.chain.ledger.records.drop st.chain.ledger.records.length)) := by
    rw [runCore]
    cases st.event <;> rfl
  rw [step, never, Bool.false_or]

/-- A loop that returned has served everything that was due, one that panicked has come to a wake
that panics, and one that was cut off has made a round for every boundary. -/
theorem runCore_loop {Sink : Type} {sink : DurSink Id Sink Generator} (never : NeverStops sink)
    (fuel : Nat) (st : RunState Generator) (state : Sink) :
    (runCore sink fuel st state = Outcome.running →
      ∃ log final, Loop st log final ∧ log.length = fuel) ∧
    (runCore sink fuel st state = Outcome.panicked →
      ∃ log final, Loop st log final ∧ final.done = false ∧ final.event = none) ∧
    ∀ final last, runCore sink fuel st state = Outcome.returned (final, last) →
      ∃ log, Loop st log final ∧ final.done = true := by
  induction fuel generalizing st state with
  | zero =>
    exact ⟨fun _ => ⟨[], st, Loop.here st, rfl⟩, fun ran => absurd ran (by simp [runCore, pure]),
      fun _ _ ran => absurd ran (by simp [runCore, pure])⟩
  | succ fuel inductionHypothesis =>
    rw [runCore_round never]
    cases pending : st.done with
    | true =>
      refine ⟨fun ran => absurd ran (by simp), fun ran => absurd ran (by simp),
        fun final last ran => ?_⟩
      obtain ⟨rfl, _⟩ := Prod.mk.inj (Outcome.returned.inj ran)
      exact ⟨[], Loop.here st, pending⟩
    | false =>
      cases served : st.serve with
      | none =>
        have panics : st.event = none := by rw [RunState.event, served, Option.map_none]
        rw [panics]
        exact ⟨fun ran => absurd ran (by simp),
          fun _ => ⟨[], st, Loop.here st, pending, panics⟩,
          fun _ _ ran => absurd ran (by simp)⟩
      | some result =>
        obtain ⟨next, ids⟩ := result
        obtain ⟨due, rest, facts⟩ := serve_served served
        obtain ⟨_, _, woken, _, _, _, _, _, heap⟩ := facts.acted
        have moved : st.event = some next := by rw [RunState.event, served, Option.map_some]
        rw [moved]
        obtain ⟨running, panicked, returned⟩ := inductionHypothesis next (sink.onRecords
          (sink.onBoundary state st false).1
          (next.chain.ledger.records.drop st.chain.ledger.records.length))
        refine ⟨fun ran => ?_, fun ran => ?_, fun final last ran => ?_⟩
        · obtain ⟨log, final, later, rounds⟩ := running ran
          exact ⟨(due, woken.nextAt) :: log, final,
            Loop.round pending served facts.heap heap later, congrArg Nat.succ rounds⟩
        · obtain ⟨log, final, later, stuck⟩ := panicked ran
          exact ⟨(due, woken.nextAt) :: log, final,
            Loop.round pending served facts.heap heap later, stuck⟩
        · obtain ⟨log, later, done⟩ := returned final last ran
          exact ⟨(due, woken.nextAt) :: log, Loop.round pending served facts.heap heap later, done⟩

/-- The loop goes through every boundary that it can get to. -/
theorem Loop.runCore_add {Sink : Type} {sink : DurSink Id Sink Generator}
    (never : NeverStops sink) (loop : Loop st log final) (state : Sink) :
    ∃ reached, ∀ fuel, runCore sink (log.length + fuel) st state =
      runCore sink fuel final reached := by
  induction loop generalizing state with
  | here st => exact ⟨state, fun fuel => by rw [List.length_nil, Nat.zero_add]⟩
  | @round st next final ids due again rest log pending served popped pushed later
      inductionHypothesis =>
    have moved : st.event = some next := by rw [RunState.event, served, Option.map_some]
    obtain ⟨reached, goes⟩ := inductionHypothesis (sink.onRecords
      (sink.onBoundary state st st.done).1
      (next.chain.ledger.records.drop st.chain.ledger.records.length))
    refine ⟨reached, fun fuel => ?_⟩
    rw [List.length_cons, Nat.add_right_comm, runCore_round never, pending, if_neg (by simp), moved,
      ← pending]
    exact goes fuel

/-! ### The wakes of a run -/

/-- What holds at every boundary of a run, after the wakes of its log. -/
structure ServedInOrder (built : RunState Generator) (log : List (Due × Int))
    (st : RunState Generator) : Prop where
  /-- Every schedule index is on the heap, once. -/
  full : (st.heap.map Prod.snd).Perm (List.range built.sched.length)
  /-- A wake was counted for every round, and there are no more than the budget allows. -/
  events : st.events = log.length
  bounded : log.length ≤ eventBudget built
  /-- By time, and by schedule index where the times agree. -/
  ordered : (log.map Prod.fst).Pairwise dueBefore
  increasing : (log.map Prod.fst).Pairwise fun first second =>
    first.2 = second.2 → first.1 < second.1
  once : (log.map Prod.fst).Nodup
  early : ∀ turn ∈ log, turn.1.1 ≤ built.finish
  /-- What was scheduled, at the start or by a wake, was served or is still on the heap. -/
  kept : (built.heap ++ log.map putBack).Perm (log.map Prod.fst ++ st.heap)

omit [Rng Generator] [Libm] in
theorem dueBefore_later (entry : Due) (time : Int) (later : entry.1 < time) :
    dueBefore entry (time, entry.2) := Or.inl later

theorem Loop.servedInOrder {personas : List Persona} {cfg : SimConfig} {ids : List AccountId}
    (building : buildDrawing personas cfg = some (built, ids)) (early : built.finish < i64Max)
    (loop : Loop built log st) : ServedInOrder built log st := by
  have fresh := buildDrawing_fresh building
  obtain ⟨time, turns, inTime, events⟩ := loop.turns (OnTime.refl fresh.heap) early
  have distinct : (built.heap.map Prod.snd).Nodup :=
    fresh.heap.indices.nodup_iff.mpr List.nodup_range
  have start := buildDrawing_heap building
  have used := turns.length_le_budget inTime
  rw [budget_eq_eventBudget start] at used
  refine ⟨?_, ?_, by omega, turns.sorted dueBefore_later, turns.increasing distinct,
    turns.distinct distinct, inTime, turns.conserved⟩
  · rw [← time.sched]
    exact time.heap.indices
  · rw [events, fresh.events, Nat.zero_add]

omit [Rng Generator] [Libm] in
/-- In a heap in order everything comes after the end when nothing is due any more. -/
theorem late_of_done {finish : Int} (sorted : st.heap.Pairwise dueBefore)
    (same : st.finish = finish) (done : st.done = true) : ∀ due ∈ st.heap, finish < due.1 := by
  intro due member
  unfold RunState.done at done
  cases heap : st.heap with
  | nil =>
    rw [heap] at member
    exact absurd member List.not_mem_nil
  | cons first rest =>
    rw [heap] at member sorted done
    have late : finish < first.1 := same ▸ of_decide_eq_true done
    rcases List.mem_cons.mp member with rfl | behind
    · exact late
    · rcases (List.pairwise_cons.mp sorted).1 due behind with later | ⟨equal, _⟩
      · exact late.trans later
      · exact equal ▸ late

end Looping

/-- The wakes of a run are all served when the loop returns at a boundary after which nothing is
due, and its log has every wake that was scheduled by the end, once. -/
structure ServesAll {Generator : Type} [Rng Generator] [Libm] (built final : RunState Generator)
    (log : List (Due × Int)) : Prop where
  loop : Loop built log final
  inOrder : ServedInOrder built log final
  late : ∀ due ∈ final.heap, built.finish < due.1
  served : (log.map Prod.fst).Perm ((built.heap ++ log.map putBack).filter (·.1 ≤ built.finish))

/-- The event loop ends within the budget of its schedule, whatever is drawn. At every boundary the
heap is full and the wakes served so far came in order, each once. The loop returns, with all the
wakes served that were due by the end and everything still pending due after it, exactly when no
wake that it comes to panics. -/
theorem runCore_serves {Generator : Type} [Rng Generator] [Libm] (personas : List Persona)
    (cfg : SimConfig) (built : RunState Generator)
    (building : buildFresh personas cfg = some built) (early : built.finish < i64Max)
    {Sink : Type} (sink : DurSink Id Sink Generator) (never : NeverStops sink) (state : Sink) :
    (∀ fuel, eventBudget built < fuel → runCore sink fuel built state ≠ Outcome.running) ∧
    (∀ log st, Loop built log st → ServedInOrder built log st) ∧
    ((∃ final last log, ServesAll built final log ∧ ∀ fuel, eventBudget built < fuel →
        runCore sink fuel built state = Outcome.returned (final, last)) ↔
      ∀ log st, Loop built log st → st.done = false → st.event ≠ none) := by
  obtain ⟨⟨other, ids⟩, drawing, same⟩ := Option.map_eq_some_iff.mp building
  obtain rfl : built = other := same.symm
  have inOrder (log : List (Due × Int)) (st : RunState Generator) (loop : Loop built log st) :
      ServedInOrder built log st := loop.servedInOrder drawing early
  have ends (fuel : Nat) (more : eventBudget built < fuel) :
      runCore sink fuel built state ≠ Outcome.running := by
    intro running
    obtain ⟨log, final, loop, rounds⟩ := (runCore_loop never fuel built state).1 running
    have bounded := (inOrder log final loop).bounded
    omega
  refine ⟨ends, inOrder, fun serving log st loop due panics => ?_, fun serves => ?_⟩
  · -- the loop comes to that boundary and panics there
    obtain ⟨final, last, served, _, returns⟩ := serving
    obtain ⟨reached, goes⟩ := loop.runCore_add never state
    have stuck := goes (eventBudget built + 1)
    rw [runCore_round never, due, if_neg (by simp), panics, returns _ (by omega)] at stuck
    exact absurd stuck (by simp)
  · cases ran : runCore sink (eventBudget built + 1) built state with
    | running => exact absurd ran (ends _ (Nat.lt_succ_self _))
    | panicked =>
      obtain ⟨log, st, loop, due, panics⟩ := (runCore_loop never _ built state).2.1 ran
      exact absurd panics (serves log st loop due)
    | returned pair =>
      obtain ⟨log, loop, done⟩ := (runCore_loop never _ built state).2.2 pair.1 pair.2 ran
      obtain ⟨time, turns, inTime, _⟩ :=
        loop.turns (OnTime.refl (buildDrawing_fresh drawing).heap) early
      have late := late_of_done time.heap.sorted time.finish done
      have bounded := (inOrder log pair.1 loop).bounded
      obtain ⟨reached, goes⟩ := loop.runCore_add never state
      refine ⟨pair.1, (sink.onBoundary reached pair.1 pair.1.done).1, log,
        ⟨loop, inOrder log pair.1 loop, late, turns.all_taken inTime late⟩, fun fuel more => ?_⟩
      obtain ⟨rest, rfl⟩ := Nat.exists_eq_add_of_lt (bounded.trans_lt more)
      rw [Nat.add_assoc, goes, runCore_round never, if_pos done]

/-- The loop of the small run ends within its budget. -/
theorem runCore_serves_smallRun : ∃ built : RunState Counter,
    buildFresh [Persona.retail] smallRun = some built ∧
    runCore (nullSink Counter) (eventBudget built + 1) built () ≠ Outcome.running := by
  have early : (buildFresh [Persona.retail] smallRun : Option (RunState Counter)).any
      (fun built => built.finish < i64Max) = true := by decide +kernel
  obtain ⟨built, building, inTime⟩ := (Option.any_eq_true _ _).mp early
  exact ⟨built, building, (runCore_serves [Persona.retail] smallRun built building
    (of_decide_eq_true inTime) (nullSink Counter) (fun _ _ _ => rfl) ()).1 _ (Nat.lt_succ_self _)⟩

/-- A small run all of whose wakes sweep, from no account. -/
def idleSweeps : SimConfig :=
  { smallRun with
    hardening := { HardeningConfig.default with
      consolidationProb := 1.0
      sweepMaxSources := 0
      rebalance := .directHub } }

/-- The first sweep from no account panics, and the loop serves none of the wakes that are due. -/
theorem idleSweeps_stops : ∃ built : RunState Counter,
    buildFresh [Persona.retail] idleSweeps = some built ∧ built.finish < i64Max ∧
    (∃ due ∈ built.heap, due.1 ≤ built.finish) ∧
    ∀ fuel, runCore (nullSink Counter) (fuel + 1) built () = Outcome.panicked := by
  have stops : (buildFresh [Persona.retail] idleSweeps : Option (RunState Counter)).any
      (fun built => built.finish < i64Max && built.heap.any (·.1 ≤ built.finish) &&
        !built.done && built.event.isNone) = true := by decide +kernel
  obtain ⟨built, building, holds⟩ := (Option.any_eq_true _ _).mp stops
  simp only [Bool.and_eq_true, List.any_eq_true, decide_eq_true_eq, Bool.not_eq_true',
    Option.isNone_iff_eq_none] at holds
  obtain ⟨⟨⟨early, due⟩, pending⟩, panics⟩ := holds
  refine ⟨built, building, early, due, fun fuel => ?_⟩
  rw [runCore_round (fun _ _ _ => rfl), pending, if_neg (by simp), panics, Option.elim_none]

end AccountCooker
