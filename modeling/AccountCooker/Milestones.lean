/-
This file numbers the boundaries of a run by the events before them. Nothing is
drawn from outside, so a run has one boundary after a given number of events, if
it gets that far, and the loop started there goes on as the loop that got there
would have.
-/

import Mathlib
import AccountCooker.ChainOrder
import AccountCooker.Bisimulation

namespace AccountCooker

open Collections

section Milestones

variable {Generator : Type} [Rng Generator] [Libm] {personas : List Persona} {cfg : SimConfig}
  {built st next final : RunState Generator} {ledger : Ledger} {events fuel : Nat}

/-! ### The boundary after so many events -/

variable (Generator) in
/-- The boundary of a run after a number of events, if the loop gets there. -/
def boundaryAt (personas : List Persona) (cfg : SimConfig) : Nat → Option (RunState Generator)
  | 0 => buildFresh personas cfg
  | events + 1 => do
    let st ← boundaryAt personas cfg events
    if st.done then none else st.event

theorem boundaryAt_event (found : boundaryAt Generator personas cfg events = some st)
    (due : st.done = false) (moved : st.event = some next) :
    boundaryAt Generator personas cfg (events + 1) = some next := by
  rw [boundaryAt, found, Option.bind_eq_bind, Option.bind_some, due]
  exact moved

/-- An event before the boundary. -/
theorem exists_boundaryAt_before
    (found : boundaryAt Generator personas cfg (events + 1) = some st) :
    ∃ before, boundaryAt Generator personas cfg events = some before ∧ before.done = false ∧
      before.event = some st := by
  simp only [boundaryAt, Option.bind_eq_bind, Option.bind_eq_some_iff] at found
  obtain ⟨before, found, moved⟩ := found
  split at moved
  · exact absurd moved (by simp)
  · rename_i due
    exact ⟨before, found, Bool.eq_false_of_not_eq_true due, moved⟩

theorem boundaryAt_events (found : boundaryAt Generator personas cfg events = some st) :
    st.events = events := by
  induction events generalizing st with
  | zero =>
    obtain ⟨⟨fresh, ids⟩, building, rfl⟩ := Option.map_eq_some_iff.mp found
    exact (buildDrawing_fresh building).events
  | succ events inductionHypothesis =>
    obtain ⟨before, earlier, _, moved⟩ := exists_boundaryAt_before found
    obtain ⟨⟨next, more⟩, served, rfl⟩ := Option.map_eq_some_iff.mp moved
    obtain ⟨_, _, facts⟩ := serve_served served
    rw [facts.events, inductionHypothesis earlier]

theorem boundaryAt_boundary [RngState Generator]
    (found : boundaryAt Generator personas cfg events = some st) :
    ∃ ids, Boundary personas cfg ids st := by
  induction events generalizing st with
  | zero =>
    obtain ⟨⟨fresh, ids⟩, building, rfl⟩ := Option.map_eq_some_iff.mp found
    exact ⟨ids, Boundary.fresh fresh ids building⟩
  | succ events inductionHypothesis =>
    obtain ⟨before, earlier, due, moved⟩ := exists_boundaryAt_before found
    obtain ⟨ids, boundary⟩ := inductionHypothesis earlier
    obtain ⟨⟨next, more⟩, served, rfl⟩ := Option.map_eq_some_iff.mp moved
    exact ⟨ids ++ more, Boundary.served before next ids more boundary due served⟩

/-- A boundary keeps what its run was built with. -/
theorem boundaryAt_same [RngState Generator]
    (found : boundaryAt Generator personas cfg events = some st) :
    ∃ built, buildFresh personas cfg = some built ∧ SameRun built st := by
  obtain ⟨ids, boundary⟩ := boundaryAt_boundary found
  obtain ⟨built, first, reached⟩ := boundary.reached
  exact ⟨built, buildFresh_of_drawing reached.building, reached.same⟩

theorem boundaryAt_built (found : boundaryAt Generator personas cfg events = some st) :
    ∃ built : RunState Generator, buildFresh personas cfg = some built := by
  induction events generalizing st with
  | zero => exact ⟨st, found⟩
  | succ events inductionHypothesis =>
    obtain ⟨_, earlier, _⟩ := exists_boundaryAt_before found
    exact inductionHypothesis earlier

/-- A run that does not get somewhere gets no further. -/
theorem boundaryAt_none {more : Nat} (missing : boundaryAt Generator personas cfg events = none)
    (later : events ≤ more) : boundaryAt Generator personas cfg more = none := by
  induction later with
  | refl => exact missing
  | step _ inductionHypothesis =>
    rw [boundaryAt, inductionHypothesis]
    rfl

theorem event_records [RngState Generator]
    (found : boundaryAt Generator personas cfg events = some st) (moved : st.event = some next) :
    st.chain.ledger.records <+: next.chain.ledger.records := by
  obtain ⟨ids, boundary⟩ := boundaryAt_boundary found
  obtain ⟨built, first, reached⟩ := boundary.reached
  obtain ⟨⟨next, more⟩, served, rfl⟩ := Option.map_eq_some_iff.mp moved
  exact serve_records reached.engine served

/-! ### The loop from a boundary on -/

/-- The state in which the uninterrupted loop ends. -/
def loopFrom (fuel : Nat) (st : RunState Generator) : Outcome (RunState Generator) :=
  Outcome.map Prod.fst (Id.run (runCore (nullSink Generator) fuel st ()))

theorem loopFrom_zero (st : RunState Generator) : loopFrom 0 st = .running := rfl

theorem loopFrom_succ (fuel : Nat) (st : RunState Generator) :
    loopFrom (fuel + 1) st =
      if st.done then .returned st
      else match st.event with
        | none => .panicked
        | some next => loopFrom fuel next := by
  have unfolded := congrArg (Outcome.map Prod.fst) (runCore_succ fuel st)
  rw [loopFrom]
  refine unfolded.trans ?_
  split
  · rfl
  · cases st.event <;> rfl

/-- The loop goes on from a boundary as from the start. -/
theorem loopFrom_boundaryAt (building : buildFresh personas cfg = some built)
    (found : boundaryAt Generator personas cfg events = some st) :
    loopFrom (events + fuel) built = loopFrom fuel st := by
  induction events generalizing st fuel with
  | zero =>
    obtain rfl := Option.some.inj (building.symm.trans found)
    rw [Nat.zero_add]
  | succ events inductionHypothesis =>
    obtain ⟨before, earlier, due, moved⟩ := exists_boundaryAt_before found
    rw [Nat.add_assoc, Nat.add_comm 1, inductionHypothesis earlier, loopFrom_succ, due, moved]
    rfl

/-- A loop that has ended would not have gone on. -/
theorem loopFrom_ended {more : Nat} (ended : loopFrom fuel st ≠ .running) (longer : fuel ≤ more) :
    loopFrom more st = loopFrom fuel st := by
  induction fuel generalizing st more with
  | zero => exact absurd (loopFrom_zero st) ended
  | succ fuel inductionHypothesis =>
    obtain ⟨rest, rfl⟩ := Nat.exists_eq_succ_of_ne_zero (Nat.ne_zero_of_lt longer)
    rw [loopFrom_succ] at ended
    rw [loopFrom_succ, loopFrom_succ]
    split at ended
    · rename_i done
      rw [if_pos done, if_pos done]
    · rename_i due
      rw [if_neg due, if_neg due]
      cases moved : st.event with
      | none => rfl
      | some next =>
        rw [moved] at ended
        exact inductionHypothesis ended (Nat.le_of_succ_le_succ longer)

/-- A loop that returns has come to a last boundary. -/
theorem loopFrom_returned (found : boundaryAt Generator personas cfg events = some st)
    (returned : loopFrom fuel st = .returned final) :
    ∃ total, boundaryAt Generator personas cfg total = some final ∧ final.done = true := by
  induction fuel generalizing st events with
  | zero => cases (loopFrom_zero st).symm.trans returned
  | succ fuel inductionHypothesis =>
    rw [loopFrom_succ] at returned
    split at returned
    · rename_i done
      obtain rfl := Outcome.returned.inj returned
      exact ⟨events, found, done⟩
    · rename_i due
      cases moved : st.event with
      | none =>
        rw [moved] at returned
        cases returned
      | some next =>
        rw [moved] at returned
        exact inductionHypothesis (boundaryAt_event found (Bool.eq_false_of_not_eq_true due) moved)
          returned

/-! ### Simulations -/

/-- The end of an uninterrupted run: the funding post-pass over its final state. -/
def conclude (cfg : SimConfig) : Outcome (RunState Generator) → Outcome Ledger
  | .returned final =>
    match finalizeFunding final cfg with
    | some ledger => .returned ledger
    | none => .panicked
  | .panicked => .panicked
  | .running => .running

theorem finalState_eq (building : buildFresh personas cfg = some built) :
    finalState fuel personas cfg = loopFrom fuel built := by
  unfold finalState loopFrom
  rw [building]
  dsimp only
  cases Id.run (runCore (nullSink Generator) fuel built ()) <;> rfl

theorem simulate_eq (building : buildFresh personas cfg = some built) :
    simulate Generator fuel personas cfg = conclude cfg (loopFrom fuel built) := by
  unfold simulate
  rw [finalState_eq building]
  cases loopFrom fuel built <;> rfl

theorem simulate_not_built
    (failed : (buildFresh personas cfg : Option (RunState Generator)) = none) :
    simulate Generator fuel personas cfg = .panicked := by
  unfold simulate finalState
  rw [failed]

/-- What is left of a simulation at one of its boundaries. -/
theorem simulate_boundaryAt (found : boundaryAt Generator personas cfg events = some st) :
    simulate Generator (events + fuel) personas cfg = conclude cfg (loopFrom fuel st) := by
  obtain ⟨built, building⟩ := boundaryAt_built found
  rw [simulate_eq building, loopFrom_boundaryAt building found]

/-- A simulation that has ended ends the same way with more rounds to spare. -/
theorem simulate_ended {more : Nat} (ended : simulate Generator fuel personas cfg ≠ .running)
    (longer : fuel ≤ more) :
    simulate Generator more personas cfg = simulate Generator fuel personas cfg := by
  cases building : (buildFresh personas cfg : Option (RunState Generator)) with
  | none => rw [simulate_not_built building, simulate_not_built building]
  | some built =>
    rw [simulate_eq building] at ended
    rw [simulate_eq building, simulate_eq building, loopFrom_ended ?_ longer]
    intro running
    rw [running] at ended
    exact ended rfl

/-- A simulation that returns with some number of rounds panics with none. -/
theorem simulate_not_panicked (returned : simulate Generator fuel personas cfg = .returned ledger)
    (other : Nat) : simulate Generator other personas cfg ≠ .panicked := by
  intro panicked
  have first := simulate_ended (fun running => by cases returned.symm.trans running)
    (Nat.le_max_left fuel other)
  have second := simulate_ended (fun running => by cases panicked.symm.trans running)
    (Nat.le_max_right fuel other)
  cases returned.symm.trans (first.symm.trans (second.trans panicked))

end Milestones

end AccountCooker
