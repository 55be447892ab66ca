/-
This file is about programs that ask an outside party and go on with what they
are told. A program is the tree of its requests: one branch for every answer to
each. The party is a function of everything it was asked and answered before, so
it may answer the same request differently each time.

A run extends the history of requests and answers. What is said of the requests
of a program, whatever the answers, holds of everything a run adds to it.
-/

import Mathlib

namespace Interaction

/-! ### Programs -/

/-- A program that asks for answers until it has its result. -/
inductive Program {Request : Type} (Answer : Request → Type) (Result : Type) where
  | done (result : Result)
  | ask (request : Request) (next : Answer request → Program Answer Result)

/-- One request and the answer to it. -/
structure Event {Request : Type} (Answer : Request → Type) where
  request : Request
  answer : Answer request

/-- The outside party: its answer to a request after a history. -/
abbrev Node {Request : Type} (Answer : Request → Type) :=
  List (Event Answer) → (request : Request) → Answer request

variable {Request : Type} {Answer : Request → Type} {First Second Failure : Type}

namespace Program

/-- Go on with the result of a program. -/
def bind : Program Answer First → (First → Program Answer Second) → Program Answer Second
  | .done result, next => next result
  | .ask request rest, next => .ask request fun answer => (rest answer).bind next

instance : Monad (Program Answer) where
  pure := .done
  bind := .bind

/-- The request on its own. -/
def query (request : Request) : Program Answer (Answer request) := .ask request .done

/-- The result of a program against a node, and the history it leaves. -/
def run (node : Node Answer) : Program Answer First → List (Event Answer) →
    First × List (Event Answer)
  | .done result, history => (result, history)
  | .ask request next, history =>
    (next (node history request)).run node (history ++ [⟨request, node history request⟩])

theorem run_bind (node : Node Answer) (program : Program Answer First)
    (next : First → Program Answer Second) (history : List (Event Answer)) :
    (program >>= next).run node history =
      (next (program.run node history).1).run node (program.run node history).2 := by
  induction program generalizing history with
  | done result => rfl
  | ask request rest inductionHypothesis => exact inductionHypothesis _ _

/-- A run only adds to the history. -/
theorem run_grows (node : Node Answer) (program : Program Answer First)
    (history : List (Event Answer)) : history <+: (program.run node history).2 := by
  induction program generalizing history with
  | done result => exact List.prefix_rfl
  | ask request next inductionHypothesis =>
    exact (List.prefix_append history _).trans (inductionHypothesis _ _)

/-! ### What a program asks for -/

/-- Whatever the answers, the program makes only allowed requests. -/
def Asks (allowed : Request → Prop) : Program Answer First → Prop
  | .done _ => True
  | .ask request next => allowed request ∧ ∀ answer, (next answer).Asks allowed

variable {allowed : Request → Prop}

theorem asks_bind {program : Program Answer First} {next : First → Program Answer Second}
    (first : program.Asks allowed) (second : ∀ result, (next result).Asks allowed) :
    (program >>= next).Asks allowed := by
  induction program with
  | done result => exact second result
  | ask request rest inductionHypothesis =>
    exact ⟨first.1, fun answer => inductionHypothesis answer (first.2 answer)⟩

theorem asks_mono {wider : Request → Prop} (weaker : ∀ request, allowed request → wider request)
    {program : Program Answer First} (asks : program.Asks allowed) : program.Asks wider := by
  induction program with
  | done result => exact trivial
  | ask request next inductionHypothesis =>
    exact ⟨weaker request asks.1, fun answer => inductionHypothesis answer (asks.2 answer)⟩

/-- A run adds to the history, and only allowed requests. -/
theorem asks_run (node : Node Answer) {program : Program Answer First}
    (asks : program.Asks allowed) (history : List (Event Answer)) :
    ∃ added, (program.run node history).2 = history ++ added ∧
      ∀ event ∈ added, allowed event.request := by
  induction program generalizing history with
  | done result => exact ⟨[], (List.append_nil _).symm, fun event member => absurd member (by simp)⟩
  | ask request next inductionHypothesis =>
    obtain ⟨added, grown, permitted⟩ := inductionHypothesis _ (asks.2 _)
      (history ++ [⟨request, node history request⟩])
    refine ⟨⟨request, node history request⟩ :: added, ?_, ?_⟩
    · show ((next _).run node _).2 = _
      rw [grown, List.append_assoc, List.singleton_append]
    · intro event member
      rcases List.mem_cons.mp member with rfl | later
      · exact asks.1
      · exact permitted event later

end Program

/-! ### Guarded histories -/

/-- Every request of the history was allowed by what had been asked and answered before it. -/
def Guarded (allowed : List (Event Answer) → Request → Prop) (history : List (Event Answer)) :
    Prop :=
  ∀ before event after, history = before ++ event :: after → allowed before event.request

section Guarding

variable {guard : List (Event Answer) → Request → Prop} {history : List (Event Answer)}

theorem guarded_nil : Guarded guard ([] : List (Event Answer)) :=
  fun _ _ _ split => absurd split (by simp)

theorem guarded_append {added : List (Event Answer)}
    (stable : ∀ request first second, first <+: second → guard first request →
      guard second request)
    (guarded : Guarded guard history) (allowed : ∀ event ∈ added, guard history event.request) :
    Guarded guard (history ++ added) := by
  intro before event after split
  rcases List.append_eq_append_iff.mp split with ⟨between, rfl, rest⟩ | ⟨between, rfl, rest⟩
  · -- the request was made after the history
    refine stable _ _ _ (List.prefix_append history between) (allowed event ?_)
    rw [rest]
    exact List.mem_append_right _ List.mem_cons_self
  · cases between with
    | nil =>
      rw [List.append_nil] at allowed
      refine allowed event ?_
      rw [← (show event :: after = added from rest)]
      exact List.mem_cons_self
    | cons first others =>
      obtain ⟨rfl, _⟩ := List.cons.inj rest
      exact guarded before event others rfl

/-- A program that asks only for what is allowed when it starts keeps the history guarded. -/
theorem guarded_run (node : Node Answer) {program : Program Answer First}
    (stable : ∀ request first second, first <+: second → guard first request →
      guard second request)
    (guarded : Guarded guard history) (asks : program.Asks (guard history)) :
    Guarded guard (program.run node history).2 := by
  obtain ⟨added, grown, allowed⟩ := Program.asks_run node asks history
  rw [grown]
  exact guarded_append stable guarded allowed

end Guarding

/-! ### Programs that can fail -/

section Failing

variable (node : Node Answer) (history : List (Event Answer))

/-- The result of a failing program against a node, and the history it leaves. -/
def play (program : ExceptT Failure (Program Answer) First) :
    Except Failure First × List (Event Answer) :=
  Program.run node program.run history

theorem play_pure (result : First) :
    play node history (pure result : ExceptT Failure (Program Answer) First) =
      (.ok result, history) := rfl

theorem play_throw (failure : Failure) :
    play node history (throw failure : ExceptT Failure (Program Answer) First) =
      (.error failure, history) := rfl

/-- A failure ends the program; a result is handed on with the history it was reached by. -/
theorem play_bind (program : ExceptT Failure (Program Answer) First)
    (next : First → ExceptT Failure (Program Answer) Second) :
    play node history (program >>= next) =
      match play node history program with
      | (.error failure, reached) => (.error failure, reached)
      | (.ok result, reached) => play node reached (next result) := by
  show Program.run node (Program.bind program.run (ExceptT.bindCont next)) history = _
  refine (Program.run_bind node program.run (ExceptT.bindCont next) history).trans ?_
  unfold play
  rcases Program.run node program.run history with ⟨_ | result, reached⟩ <;> rfl

variable {node history} in
/-- A result of the whole is a result of the first part and then of the second. -/
theorem play_bind_ok {program : ExceptT Failure (Program Answer) First}
    {next : First → ExceptT Failure (Program Answer) Second} {result : Second}
    {reached : List (Event Answer)} :
    play node history (program >>= next) = (.ok result, reached) ↔
      ∃ value halfway, play node history program = (.ok value, halfway) ∧
        play node halfway (next value) = (.ok result, reached) := by
  rw [play_bind]
  rcases play node history program with ⟨failure | value, halfway⟩
  · constructor
    · intro impossible
      exact absurd (congrArg Prod.fst impossible) (by simp)
    · rintro ⟨value, between, impossible, _⟩
      exact absurd (congrArg Prod.fst impossible) (by simp)
  · constructor
    · intro rest
      exact ⟨value, halfway, rfl, rest⟩
    · rintro ⟨other, between, same, rest⟩
      obtain ⟨sameValue, sameHistory⟩ := Prod.mk.inj same
      rw [Except.ok.inj sameValue, sameHistory]
      exact rest

theorem play_map (program : ExceptT Failure (Program Answer) First) (adapt : First → Second) :
    play node history (adapt <$> program) =
      ((play node history program).1.map adapt, (play node history program).2) := by
  show Program.run node (Program.bind program.run _) history = _
  refine (Program.run_bind node program.run _ history).trans ?_
  unfold play
  rcases Program.run node program.run history with ⟨_ | result, reached⟩ <;> rfl

variable {node history} in
theorem play_grows {program : ExceptT Failure (Program Answer) First}
    {outcome : Except Failure First} {reached : List (Event Answer)}
    (ended : play node history program = (outcome, reached)) : history <+: reached := by
  have grown := Program.run_grows node program.run history
  rw [show Program.run node program.run history = (outcome, reached) from ended] at grown
  exact grown

variable {node history} in
/-- Only what comes after a result of the first part has to be guarded further. -/
theorem guarded_bind {guard : List (Event Answer) → Request → Prop}
    {program : ExceptT Failure (Program Answer) First}
    {next : First → ExceptT Failure (Program Answer) Second}
    (first : Guarded guard (play node history program).2)
    (second : ∀ value halfway, play node history program = (.ok value, halfway) →
      Guarded guard halfway → Guarded guard (play node halfway (next value)).2) :
    Guarded guard (play node history (program >>= next)).2 := by
  rw [play_bind]
  cases ended : play node history program with
  | mk outcome halfway =>
    rw [ended] at first
    cases outcome with
    | error failure => exact first
    | ok value => exact second value halfway ended first

/-- A program goes on from the history its first part has left. -/
theorem play_bind_grows (program : ExceptT Failure (Program Answer) First)
    (next : First → ExceptT Failure (Program Answer) Second) :
    (play node history program).2 <+: (play node history (program >>= next)).2 := by
  rw [play_bind]
  rcases play node history program with ⟨_ | result, reached⟩
  · exact List.prefix_rfl
  · exact Program.run_grows node _ reached

end Failing

variable {allowed : Request → Prop}

theorem asks_bindFailing {program : ExceptT Failure (Program Answer) First}
    {next : First → ExceptT Failure (Program Answer) Second}
    (first : program.run.Asks allowed) (second : ∀ result, (next result).run.Asks allowed) :
    (program >>= next).run.Asks allowed := by
  refine Program.asks_bind first fun result => ?_
  cases result with
  | error failure => exact trivial
  | ok value => exact second value

theorem asks_mapFailing {program : ExceptT Failure (Program Answer) First}
    (asks : program.run.Asks allowed) (adapt : First → Second) :
    (adapt <$> program).run.Asks allowed := by
  refine Program.asks_bind asks fun result => ?_
  cases result with
  | error failure => exact trivial
  | ok value => exact trivial

end Interaction
