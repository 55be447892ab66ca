/-
This file is about computations on a state that outlives them. Such a
computation leaves a trail: the states it passes through, in any of which it may
be cut off, the state it ends in, and its result or its failure.

A computation meets a specification at a state when everything it passes
through is safe, its failures are expected and its results are what was asked
for. The rules below take a computation apart step by step; a step that takes
effect piece by piece names the states in between.
-/

import Mathlib

namespace Crash

/-! ### Trails -/

/-- What a computation leaves behind: the states passed through before the last, the last, and how
it ended there. -/
structure Trail (State Failure Result : Type) where
  passed : List State
  outcome : Except Failure Result
  final : State

/-- Every state the computation can be cut off in; it can also be cut off at its end. -/
def Trail.instants {State Failure Result : Type} (trail : Trail State Failure Result) :
    List State := trail.passed ++ [trail.final]

/-- The failure a computation ended in. -/
def Trail.failure? {State Failure Result : Type} (trail : Trail State Failure Result) :
    Option Failure :=
  match trail.outcome with
  | .error failure => some failure
  | .ok _ => none

theorem Trail.failure?_eq_some {State Failure Result : Type} {trail : Trail State Failure Result}
    {failure : Failure} : trail.failure? = some failure ↔ trail.outcome = .error failure := by
  unfold failure?
  cases trail.outcome <;> simp

/-- A computation on a state that outlives it. -/
def Persistent (State Failure Result : Type) : Type := State → Trail State Failure Result

variable {State Failure First Second : Type}

namespace Persistent

/-- Go on with a result from the state it was reached in; a failure ends the computation. -/
def bind (program : Persistent State Failure First)
    (next : First → Persistent State Failure Second) : Persistent State Failure Second :=
  fun state =>
    match (program state).outcome with
    | .error failure => ⟨(program state).passed, .error failure, (program state).final⟩
    | .ok result =>
      let rest := next result (program state).final
      ⟨(program state).instants ++ rest.passed, rest.outcome, rest.final⟩

instance : Monad (Persistent State Failure) where
  pure result := fun state => ⟨[], .ok result, state⟩
  bind := bind

/-- Stop with a failure. -/
def fail (failure : Failure) : Persistent State Failure First :=
  fun state => ⟨[], .error failure, state⟩

/-- Read the state, which may fail. -/
def inspect (read : State → Except Failure First) : Persistent State Failure First :=
  fun state => ⟨[], read state, state⟩

/-- Change the state, passing through the states in between. -/
def perform (between : State → List State) (change : State → State) :
    Persistent State Failure Unit :=
  fun state => ⟨state :: between state, .ok (), change state⟩

end Persistent

open Persistent

/-! ### Specifications -/

/-- The computation passes through safe states only, fails only as expected, and ends as asked. -/
structure Meets (safe : State → Prop) (failed : Failure → Prop) (done : First → State → Prop)
    (program : Persistent State Failure First) (state : State) : Prop where
  safe : ∀ instant ∈ (program state).instants, safe instant
  failed : ∀ failure, (program state).outcome = .error failure → failed failure
  done : ∀ result, (program state).outcome = .ok result → done result (program state).final

variable {safe : State → Prop} {failed : Failure → Prop} {done : First → State → Prop}
  {program : Persistent State Failure First} {state : State}

theorem Meets.final (meets : Meets safe failed done program state) :
    safe (program state).final :=
  meets.safe _ (List.mem_append_right _ (List.mem_singleton.mpr rfl))

/-- A computation that has no failure to expect returns. -/
theorem Meets.returned (meets : Meets safe (fun _ => False) done program state) :
    ∃ result, (program state).outcome = .ok result ∧ done result (program state).final := by
  cases ended : (program state).outcome with
  | error failure => exact (meets.failed failure ended).elim
  | ok result => exact ⟨result, rfl, meets.done result ended⟩

theorem meets_mono {weakFailed : Failure → Prop} {weakDone : First → State → Prop}
    (meets : Meets safe failed done program state)
    (failures : ∀ failure, failed failure → weakFailed failure)
    (results : ∀ result final, safe final → done result final → weakDone result final) :
    Meets safe weakFailed weakDone program state :=
  ⟨meets.safe, fun failure ended => failures failure (meets.failed failure ended),
    fun result ended => results result _ meets.final (meets.done result ended)⟩

theorem meets_pure {result : First} (start : safe state) (holds : done result state) :
    Meets safe failed done (pure result : Persistent State Failure First) state where
  safe instant member := by
    rw [List.mem_singleton.mp member]
    exact start
  failed failure ended := absurd ended (by simp [pure])
  done other ended := by
    rw [← Except.ok.inj ended]
    exact holds

theorem meets_fail {failure : Failure} (start : safe state) (holds : failed failure) :
    Meets safe failed done (fail failure : Persistent State Failure First) state where
  safe instant member := by
    rw [List.mem_singleton.mp member]
    exact start
  failed other ended := by
    rw [← Except.error.inj ended]
    exact holds
  done result ended := absurd ended (by simp [fail])

theorem meets_inspect {read : State → Except Failure First} (start : safe state)
    (failures : ∀ failure, read state = .error failure → failed failure)
    (results : ∀ result, read state = .ok result → done result state) :
    Meets safe failed done (inspect read) state where
  safe instant member := by
    rw [List.mem_singleton.mp member]
    exact start
  failed := failures
  done := results

theorem meets_perform {between : State → List State} {change : State → State}
    {changed : Unit → State → Prop} (start : safe state)
    (halfway : ∀ instant ∈ between state, safe instant) (after : safe (change state))
    (holds : changed () (change state)) :
    Meets safe failed changed (perform between change) state where
  safe instant member := by
    rcases List.mem_append.mp member with passed | last
    · rcases List.mem_cons.mp passed with rfl | inside
      · exact start
      · exact halfway instant inside
    · rw [List.mem_singleton.mp last]
      exact after
  failed failure ended := absurd ended (by simp [perform])
  done _ _ := holds

theorem meets_bind {next : First → Persistent State Failure Second}
    {finished : Second → State → Prop}
    (meets : Meets safe failed
      (fun result middle => Meets safe failed finished (next result) middle) program state) :
    Meets safe failed finished (program >>= next) state := by
  show Meets safe failed finished (Persistent.bind program next) state
  cases ended : (program state).outcome with
  | error failure =>
    have same : Persistent.bind program next state =
        ⟨(program state).passed, .error failure, (program state).final⟩ := by
      unfold Persistent.bind
      rw [ended]
    refine ⟨?_, ?_, ?_⟩
    · rw [same]
      exact meets.safe
    · intro other stopped
      rw [same] at stopped
      rw [← Except.error.inj stopped]
      exact meets.failed failure ended
    · intro result stopped
      rw [same] at stopped
      exact absurd stopped (by simp)
  | ok result =>
    have rest := meets.done result ended
    have same : Persistent.bind program next state =
        ⟨(program state).instants ++ (next result (program state).final).passed,
          (next result (program state).final).outcome,
          (next result (program state).final).final⟩ := by
      unfold Persistent.bind
      rw [ended]
    refine ⟨?_, ?_, ?_⟩
    · intro instant member
      rw [same, Trail.instants, List.append_assoc] at member
      exact (List.mem_append.mp member).elim (meets.safe instant) (rest.safe instant)
    · rw [same]
      exact rest.failed
    · rw [same]
      exact rest.done

/-- The rest of the computation is only met in safe states the first part ends in as asked. -/
theorem meets_then {next : First → Persistent State Failure Second}
    {finished : Second → State → Prop} (first : Meets safe failed done program state)
    (rest : ∀ result middle, safe middle → done result middle →
      Meets safe failed finished (next result) middle) :
    Meets safe failed finished (program >>= next) state :=
  meets_bind (meets_mono first (fun _ stopped => stopped) rest)

/-! ### Failures -/

/-- The computation fails at a state, and leaves a state behind. -/
structure Refused (program : Persistent State Failure First) (state : State) (failure : Failure)
    (left : State) : Prop where
  outcome : (program state).outcome = .error failure
  final : (program state).final = left

/-- The computation changes nothing, whatever its result. -/
def ReadsOnly (program : Persistent State Failure First) : Prop :=
  ∀ state, (program state).final = state

section Failures

variable {next : First → Persistent State Failure Second} {failure : Failure} {left : State}

theorem bind_refused (refused : Refused program state failure left) :
    Refused (program >>= next) state failure left := by
  have same : (program >>= next) state =
      ⟨(program state).passed, .error failure, (program state).final⟩ := by
    show Persistent.bind program next state = _
    unfold Persistent.bind
    rw [refused.outcome]
  exact ⟨by rw [same], by rw [same, refused.final]⟩

/-- After a result, the computation ends as what comes next does. -/
theorem bind_ok {result : First} (ended : (program state).outcome = .ok result) :
    ((program >>= next) state).outcome = (next result (program state).final).outcome ∧
      ((program >>= next) state).final = (next result (program state).final).final := by
  have same : (program >>= next) state =
      ⟨(program state).instants ++ (next result (program state).final).passed,
        (next result (program state).final).outcome,
        (next result (program state).final).final⟩ := by
    show Persistent.bind program next state = _
    unfold Persistent.bind
    rw [ended]
  exact ⟨by rw [same], by rw [same]⟩

theorem bind_ok_refused {result : First} (ended : (program state).outcome = .ok result)
    (refused : Refused (next result) (program state).final failure left) :
    Refused (program >>= next) state failure left :=
  ⟨(bind_ok ended).1.trans refused.outcome, (bind_ok ended).2.trans refused.final⟩

/-- A computation that failed failed in its first part, or in what came after a result of it. -/
theorem refused_of_bind (refused : Refused (program >>= next) state failure left) :
    Refused program state failure left ∨ ∃ result, (program state).outcome = .ok result ∧
      Refused (next result) (program state).final failure left := by
  cases ended : (program state).outcome with
  | error other =>
    have first : Refused program state other (program state).final := ⟨ended, rfl⟩
    have whole : Refused (program >>= next) state other (program state).final :=
      bind_refused first
    obtain rfl : other = failure := Except.error.inj (whole.outcome.symm.trans refused.outcome)
    exact Or.inl ⟨ended, whole.final.symm.trans refused.final⟩
  | ok result =>
    have rest : ((program >>= next) state).outcome =
          (next result (program state).final).outcome ∧
        ((program >>= next) state).final = (next result (program state).final).final :=
      bind_ok ended
    exact Or.inr ⟨result, rfl, rest.1.symm.trans refused.outcome, rest.2.symm.trans refused.final⟩

/-- A computation that changes nothing and fails leaves the state it was given. -/
theorem ReadsOnly.left_eq (reads : ReadsOnly program)
    (refused : Refused program state failure left) : left = state :=
  refused.final.symm.trans (reads state)

theorem readsOnly_pure (result : First) :
    ReadsOnly (pure result : Persistent State Failure First) := fun _ => rfl

theorem readsOnly_fail (failure : Failure) :
    ReadsOnly (fail failure : Persistent State Failure First) := fun _ => rfl

theorem readsOnly_inspect (read : State → Except Failure First) : ReadsOnly (inspect read) :=
  fun _ => rfl

theorem readsOnly_bind (first : ReadsOnly program) (rest : ∀ result, ReadsOnly (next result)) :
    ReadsOnly (program >>= next) := by
  intro state
  cases ended : (program state).outcome with
  | error failure =>
    have refused : Refused (program >>= next) state failure state :=
      bind_refused ⟨ended, first state⟩
    exact refused.final
  | ok result =>
    rw [(bind_ok ended).2, rest result, first state]

end Failures

/-! ### Histories -/

/-- What a state that outlives its computations can be found to be: it starts as given, and every
computation that runs on it may be cut off anywhere. -/
inductive History {Job : Type} (allowed : Job → Prop) (job : Job → State → List State)
    (start : State) : State → Prop
  | start : History allowed job start start
  | run (state cut : State) (task : Job) (before : History allowed job start state)
    (permitted : allowed task) (reached : cut ∈ job task state) : History allowed job start cut

/-- What holds at the start and in every instant of a job that begins safely holds throughout. -/
theorem History.invariant {Job : Type} {allowed : Job → Prop} {job : Job → State → List State}
    {start : State} (begins : safe start)
    (keeps : ∀ task state, allowed task → safe state → ∀ cut ∈ job task state, safe cut)
    (history : History allowed job start state) : safe state := by
  induction history with
  | start => exact begins
  | run state cut task _ permitted reached inductionHypothesis =>
    exact keeps task state permitted inductionHypothesis cut reached

end Crash
