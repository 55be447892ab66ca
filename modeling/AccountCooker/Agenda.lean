/-
This file is about agendas: collections of entries, each with a time and an
index, from which a least entry is taken and put back at a later time.

The entries taken come in order, and those of one index at strictly increasing
times. An entry is never lost: what was on the agenda or put back has been
taken or is still there. As an entry only moves to later times, no more than a
fixed number of them can be taken up to a given time.
-/

import Mathlib

namespace Agenda

/-! ### Turns -/

variable {Index : Type}

/-- One turn: a least entry is taken, and its index is put back at a later time. -/
structure Turn (before : Int × Index → Int × Index → Prop) (agenda : List (Int × Index))
    (due : Int × Index) (again : Int) (next : List (Int × Index)) : Prop where
  least : ∀ entry ∈ agenda, before due entry
  taken : ∃ rest, agenda.Perm (due :: rest) ∧ next.Perm ((again, due.2) :: rest)
  later : due.1 < again

/-- Turns one after the other, with the entry taken and the time it was put back at in each. -/
inductive Turns (before : Int × Index → Int × Index → Prop) :
    List (Int × Index) → List ((Int × Index) × Int) → List (Int × Index) → Prop
  | start (agenda : List (Int × Index)) : Turns before agenda [] agenda
  | turn {agenda middle next : List (Int × Index)} {due : Int × Index} {again : Int}
    {log : List ((Int × Index) × Int)} (first : Turn before agenda due again middle)
    (rest : Turns before middle log next) : Turns before agenda ((due, again) :: log) next

/-- The entry a turn puts back. -/
def putBack (turn : (Int × Index) × Int) : Int × Index := (turn.2, turn.1.2)

variable {before : Int × Index → Int × Index → Prop} {agenda next : List (Int × Index)}
  {due : Int × Index} {again : Int} {log : List ((Int × Index) × Int)}

theorem Turn.due_mem (turn : Turn before agenda due again next) : due ∈ agenda := by
  obtain ⟨rest, taken, _⟩ := turn.taken
  exact taken.mem_iff.mpr List.mem_cons_self

/-- What is on the agenda after a turn was there before, or was put back. -/
theorem Turn.mem_next (turn : Turn before agenda due again next) {entry : Int × Index}
    (member : entry ∈ next) : entry ∈ agenda ∨ entry = (again, due.2) := by
  obtain ⟨rest, taken, put⟩ := turn.taken
  rcases List.mem_cons.mp (put.mem_iff.mp member) with rfl | kept
  · exact Or.inr rfl
  · exact Or.inl (taken.mem_iff.mpr (List.mem_cons_of_mem _ kept))

theorem Turn.indices (turn : Turn before agenda due again next) :
    (next.map Prod.snd).Perm (agenda.map Prod.snd) := by
  obtain ⟨rest, taken, put⟩ := turn.taken
  exact (put.map Prod.snd).trans (taken.map Prod.snd).symm

/-! ### Order -/

section Order

variable [IsTrans (Int × Index) before]
  (ordered : ∀ (entry : Int × Index) (time : Int), entry.1 < time → before entry (time, entry.2))

include ordered

/-- What comes before the whole agenda comes before everything taken from it. -/
theorem Turns.bounded (turns : Turns before agenda log next) {bound : Int × Index}
    (above : ∀ entry ∈ agenda, before bound entry) : ∀ turn ∈ log, before bound turn.1 := by
  induction turns with
  | start agenda => exact fun turn member => absurd member List.not_mem_nil
  | turn first rest inductionHypothesis =>
    have taken := above _ first.due_mem
    have still := inductionHypothesis fun entry member => by
      rcases first.mem_next member with kept | rfl
      · exact above entry kept
      · exact trans_of before taken (ordered _ _ first.later)
    intro turn member
    rcases List.mem_cons.mp member with rfl | later
    · exact taken
    · exact still turn later

/-- The entries are taken in order. -/
theorem Turns.sorted (turns : Turns before agenda log next) :
    (log.map Prod.fst).Pairwise before := by
  induction turns with
  | start agenda => exact List.Pairwise.nil
  | @turn agenda middle next due again log first rest inductionHypothesis =>
    have after := rest.bounded ordered fun entry member => by
      rcases first.mem_next member with kept | rfl
      · exact first.least entry kept
      · exact ordered due again first.later
    rw [List.map_cons, List.pairwise_cons]
    refine ⟨fun entry member => ?_, inductionHypothesis⟩
    obtain ⟨turn, later, rfl⟩ := List.mem_map.mp member
    exact after turn later

end Order

/-- The entries of an index are only taken after times it is not due at before. -/
theorem Turns.above (turns : Turns before agenda log next) {index : Index} {time : Int}
    (own : ∀ entry ∈ agenda, entry.2 = index → time < entry.1) :
    ∀ turn ∈ log, turn.1.2 = index → time < turn.1.1 := by
  induction turns with
  | start agenda => exact fun turn member => absurd member List.not_mem_nil
  | turn first rest inductionHypothesis =>
    have taken := own _ first.due_mem
    have still := inductionHypothesis fun entry member same => by
      rcases first.mem_next member with kept | rfl
      · exact own entry kept same
      · exact (taken same).trans first.later
    intro turn member
    rcases List.mem_cons.mp member with rfl | later
    · exact taken
    · exact still turn later

/-- The times at which one index is taken strictly increase. -/
theorem Turns.increasing (turns : Turns before agenda log next)
    (distinct : (agenda.map Prod.snd).Nodup) :
    (log.map Prod.fst).Pairwise fun first second => first.2 = second.2 → first.1 < second.1 := by
  induction turns with
  | start agenda => exact List.Pairwise.nil
  | @turn agenda middle next due again log first rest inductionHypothesis =>
    rw [List.map_cons, List.pairwise_cons]
    refine ⟨fun entry member same => ?_,
      inductionHypothesis (first.indices.nodup_iff.mpr distinct)⟩
    obtain ⟨turn, later, rfl⟩ := List.mem_map.mp member
    refine rest.above (fun entry member own => ?_) turn later same.symm
    obtain ⟨others, taken, put⟩ := first.taken
    rcases List.mem_cons.mp (put.mem_iff.mp member) with rfl | kept
    · exact first.later
    · -- the index is on the agenda once
      have once := ((taken.map Prod.snd).nodup_iff.mp distinct)
      rw [List.map_cons, List.nodup_cons] at once
      exact absurd (own ▸ List.mem_map_of_mem kept) once.1

theorem Turns.distinct (turns : Turns before agenda log next)
    (distinct : (agenda.map Prod.snd).Nodup) : (log.map Prod.fst).Nodup := by
  refine (turns.increasing distinct).imp ?_
  rintro first second increases rfl
  exact lt_irrefl _ (increases rfl)

/-! ### Conservation -/

/-- What was on the agenda or was put back has been taken or is still there. -/
theorem Turns.conserved (turns : Turns before agenda log next) :
    (agenda ++ log.map putBack).Perm (log.map Prod.fst ++ next) := by
  induction turns with
  | start agenda => rw [List.map_nil, List.map_nil, List.append_nil, List.nil_append]
  | @turn agenda middle next due again log first rest inductionHypothesis =>
    obtain ⟨others, taken, put⟩ := first.taken
    have back : (others ++ putBack (due, again) :: log.map putBack).Perm
        (middle ++ log.map putBack) :=
      List.perm_middle.trans (put.symm.append_right _)
    rw [List.map_cons, List.map_cons, List.cons_append]
    exact (taken.append_right _).trans ((back.trans inductionHypothesis).cons due)

/-- Nothing due up to a time is left when everything still there is due later. -/
theorem Turns.all_taken (turns : Turns before agenda log next) {finish : Int}
    (early : ∀ turn ∈ log, turn.1.1 ≤ finish) (late : ∀ entry ∈ next, finish < entry.1) :
    (log.map Prod.fst).Perm ((agenda ++ log.map putBack).filter (·.1 ≤ finish)) := by
  have taken : (log.map Prod.fst).filter (·.1 ≤ finish) = log.map Prod.fst := by
    refine List.filter_eq_self.mpr fun entry member => ?_
    obtain ⟨turn, inLog, rfl⟩ := List.mem_map.mp member
    exact decide_eq_true (early turn inLog)
  have left : next.filter (·.1 ≤ finish) = [] :=
    List.filter_eq_nil_iff.mpr fun entry member => by
      rw [decide_eq_true_iff, not_le]
      exact late entry member
  have kept := turns.conserved.filter (·.1 ≤ finish)
  rw [List.filter_append (log.map Prod.fst), taken, left, List.append_nil] at kept
  exact kept.symm

/-! ### Budget -/

/-- The turns that can still be taken up to a time: for every entry, the times it can be due at. -/
def budget (finish : Int) (agenda : List (Int × Index)) : Nat :=
  (agenda.map fun entry => (finish - entry.1 + 1).toNat).sum

theorem budget_perm (finish : Int) {first second : List (Int × Index)}
    (perm : first.Perm second) : budget finish first = budget finish second :=
  (perm.map _).sum_eq

theorem budget_cons (finish : Int) (entry : Int × Index) (agenda : List (Int × Index)) :
    budget finish (entry :: agenda) = (finish - entry.1 + 1).toNat + budget finish agenda := by
  unfold budget
  rw [List.map_cons, List.sum_cons]

/-- A turn up to the time uses up the budget. -/
theorem Turn.budget_lt (turn : Turn before agenda due again next) {finish : Int}
    (early : due.1 ≤ finish) : budget finish next < budget finish agenda := by
  obtain ⟨rest, taken, put⟩ := turn.taken
  have later := turn.later
  rw [budget_perm finish taken, budget_perm finish put, budget_cons, budget_cons]
  omega

theorem Turns.length_le_budget (turns : Turns before agenda log next) {finish : Int}
    (early : ∀ turn ∈ log, turn.1.1 ≤ finish) :
    log.length + budget finish next ≤ budget finish agenda := by
  induction turns with
  | start agenda => exact (Nat.zero_add _).le
  | turn first rest inductionHypothesis =>
    have used := first.budget_lt (early _ List.mem_cons_self)
    have others := inductionHypothesis fun turn member => early turn (List.mem_cons_of_mem _ member)
    rw [List.length_cons]
    omega

end Agenda
