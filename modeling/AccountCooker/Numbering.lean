/-
This file numbers the classes of an equivalence on a list of nodes in the order
of their first members, and says what the numbers mean: every node has one, two
nodes have the same exactly when they are equivalent, the numbers in use are
those below the number of classes, and every class has as many nodes as it is
said to have.

The numbers depend on the relation alone, and on nothing the relation was
computed with. It names nothing of the program.
-/

import Mathlib
import AccountCooker.Collections

namespace Collections

/-- The classes met so far, each by its first member, the class of every node, and how many nodes
each class has. -/
structure Numbering (Node : Type) [DecidableEq Node] where
  representatives : List Node
  indexOf : HashMap Node Nat
  sizes : List Nat

section Numbering

variable {Node : Type} [DecidableEq Node] (same : Node → Node → Prop) [DecidableRel same]

/-- Give a node the number of its class, or the next number to a new class. -/
def numberStep (state : Numbering Node) (node : Node) : Numbering Node :=
  match state.representatives.findIdx? (fun representative => same representative node) with
  | some index =>
    ⟨state.representatives, state.indexOf.insert node index, state.sizes.modify index (· + 1)⟩
  | none =>
    ⟨state.representatives ++ [node], state.indexOf.insert node state.sizes.length,
      state.sizes ++ [1]⟩

/-- Number the classes in the order of their first members. -/
def number (nodes : List Node) : Numbering Node := nodes.foldl (numberStep same) ⟨[], ∅, []⟩

/-- The classes of some nodes are numbered. -/
structure Numbers (nodes : List Node) (state : Numbering Node) : Prop where
  apart : state.representatives.Pairwise (fun first second => ¬ same first second)
  members : ∀ representative ∈ state.representatives, representative ∈ nodes
  covered : ∀ node ∈ nodes, ∃ representative ∈ state.representatives, same representative node
  length : state.sizes.length = state.representatives.length
  indexed : ∀ node index, state.indexOf.lookup node = some index ↔ node ∈ nodes ∧
    ∃ representative, state.representatives[index]? = some representative ∧
      same representative node
  sized : ∀ (index : Nat) (size : Nat), state.sizes[index]? = some size →
    size = nodes.countP (fun node => decide (state.indexOf.lookup node = some index))

variable {same}

omit [DecidableEq Node] [DecidableRel same] in
/-- A node is equivalent to the representative of one class only. -/
theorem representative_unique (equivalence : Equivalence same) {representatives : List Node}
    (apart : representatives.Pairwise (fun first second => ¬ same first second)) {i j : Nat}
    {first second node : Node} (atFirst : representatives[i]? = some first)
    (atSecond : representatives[j]? = some second) (one : same first node)
    (other : same second node) : i = j :=
  getElem?_unique apart (fun {_ _} related => equivalence.symm related) atFirst atSecond
    (equivalence.trans one (equivalence.symm other))

omit [DecidableEq Node] in
/-- The first representative found is the one a node is equivalent to. -/
theorem findIdx?_representative (equivalence : Equivalence same) {representatives : List Node}
    (apart : representatives.Pairwise (fun first second => ¬ same first second)) {index : Nat}
    {representative node : Node} (found : representatives[index]? = some representative)
    (equivalent : same representative node) :
    representatives.findIdx? (fun representative => same representative node) = some index := by
  rw [List.findIdx?_eq_some_iff_getElem]
  obtain ⟨bound, equal⟩ := List.getElem?_eq_some_iff.mp found
  refine ⟨bound, ?_, fun j before => ?_⟩
  · rw [equal]
    exact decide_eq_true equivalent
  · intro earlier
    have atEarlier : representatives[j]? = some representatives[j] :=
      List.getElem?_eq_getElem (before.trans bound)
    have unique := representative_unique equivalence apart atEarlier found
      (of_decide_eq_true earlier) equivalent
    omega

/-- The counts of the nodes seen before do not see a new node. -/
theorem countP_insert {nodes : List Node} {node : Node} (new : node ∉ nodes)
    (indexOf : HashMap Node Nat) (given index : Nat) :
    (nodes ++ [node]).countP
        (fun other => decide ((indexOf.insert node given).lookup other = some index)) =
      nodes.countP (fun other => decide (indexOf.lookup other = some index)) +
        if given = index then 1 else 0 := by
  have old : nodes.countP
      (fun other => decide ((indexOf.insert node given).lookup other = some index)) =
        nodes.countP (fun other => decide (indexOf.lookup other = some index)) := by
    refine List.countP_congr (fun other member => ?_)
    have different : other ≠ node := fun equal => new (equal ▸ member)
    rw [AList.lookup_insert_ne different]
  rw [List.countP_append, old, List.countP_singleton, AList.lookup_insert]
  simp

/-- A step numbers one more node. -/
theorem numberStep_numbers (equivalence : Equivalence same) {nodes : List Node} {node : Node}
    {state : Numbering Node} (numbers : Numbers same nodes state) (new : node ∉ nodes) :
    Numbers same (nodes ++ [node]) (numberStep same state node) := by
  unfold numberStep
  split
  · rename_i index found
    obtain ⟨bound, equivalent, _⟩ := List.findIdx?_eq_some_iff_getElem.mp found
    have atIndex : state.representatives[index]? = some state.representatives[index] :=
      List.getElem?_eq_getElem bound
    refine ⟨numbers.apart, fun representative member =>
      List.mem_append_left _ (numbers.members representative member), ?_, ?_, ?_, ?_⟩
    · intro other member
      rcases List.mem_append.mp member with old | last
      · exact numbers.covered other old
      · rw [List.mem_singleton.mp last]
        exact ⟨_, List.mem_of_getElem? atIndex, of_decide_eq_true equivalent⟩
    · rw [List.length_modify]
      exact numbers.length
    · intro other otherIndex
      by_cases here : other = node
      · subst here
        rw [AList.lookup_insert, Option.some_inj]
        constructor
        · rintro rfl
          exact ⟨by simp, _, atIndex, of_decide_eq_true equivalent⟩
        · rintro ⟨_, representative, atOther, also⟩
          exact representative_unique equivalence numbers.apart atIndex atOther
            (of_decide_eq_true equivalent) also
      · rw [AList.lookup_insert_ne here, numbers.indexed, List.mem_append, List.mem_singleton,
          or_iff_left here]
    · intro other size atOther
      rw [List.getElem?_modify, Option.map_eq_map, Option.map_eq_some_iff] at atOther
      obtain ⟨before, stored, rfl⟩ := atOther
      rw [countP_insert new, ← numbers.sized other before stored]
      by_cases equal : index = other
      · rw [if_pos equal, if_pos equal]
      · rw [if_neg equal, if_neg equal]
        rfl
  · rename_i missing
    have fresh : ∀ representative ∈ state.representatives, ¬ same representative node := by
      intro representative member equivalent
      have absent := List.findIdx?_eq_none_iff.mp missing representative member
      exact of_decide_eq_false absent equivalent
    refine ⟨?_, ?_, ?_, ?_, ?_, ?_⟩
    · refine List.pairwise_append.mpr ⟨numbers.apart, List.pairwise_singleton _ _, ?_⟩
      intro representative member other single
      rw [List.mem_singleton.mp single]
      exact fresh representative member
    · intro representative member
      rcases List.mem_append.mp member with old | last
      · exact List.mem_append_left _ (numbers.members representative old)
      · exact List.mem_append_right _ last
    · intro other member
      rcases List.mem_append.mp member with old | last
      · obtain ⟨representative, inside, equivalent⟩ := numbers.covered other old
        exact ⟨representative, List.mem_append_left _ inside, equivalent⟩
      · exact ⟨node, by simp, by rw [List.mem_singleton.mp last]; exact equivalence.refl node⟩
    · rw [List.length_append, List.length_append, numbers.length]
      rfl
    · intro other otherIndex
      by_cases here : other = node
      · subst here
        rw [AList.lookup_insert, Option.some_inj, numbers.length]
        constructor
        · rintro rfl
          exact ⟨by simp, other, by simp, equivalence.refl other⟩
        · rintro ⟨_, representative, atOther, also⟩
          rcases getElem?_concat.mp atOther with old | ⟨last, _⟩
          · exact absurd also (fresh representative (List.mem_of_getElem? old))
          · exact last.symm
      · rw [AList.lookup_insert_ne here, numbers.indexed, List.mem_append, List.mem_singleton,
          or_iff_left here]
        refine and_congr_right (fun member => exists_congr (fun representative => ?_))
        refine and_congr_left (fun equivalent => ?_)
        rw [getElem?_concat]
        refine (or_iff_left ?_).symm
        rintro ⟨_, rfl⟩
        -- A member of the new class would be in the class of a representative it had before.
        obtain ⟨first, inside, one⟩ := numbers.covered other member
        exact fresh first inside (equivalence.trans one (equivalence.symm equivalent))
    · intro other size atOther
      rw [countP_insert new]
      rcases getElem?_concat.mp atOther with old | ⟨last, single⟩
      · have below := (List.getElem?_eq_some_iff.mp old).1
        rw [← numbers.sized other size old, if_neg below.ne']
        rfl
      · have unused : nodes.countP (fun node => decide (state.indexOf.lookup node = some other)) =
            0 := by
          rw [List.countP_eq_zero]
          intro earlier _ found
          obtain ⟨_, _, atIndex, _⟩ := (numbers.indexed earlier other).mp (of_decide_eq_true found)
          have bound := (List.getElem?_eq_some_iff.mp atIndex).1
          have := numbers.length
          omega
        rw [unused, if_pos last.symm]
        exact single.symm

theorem number_numbers (equivalence : Equivalence same) {nodes : List Node}
    (nodup : nodes.Nodup) : Numbers same nodes (number same nodes) := by
  induction nodes using List.reverseRecOn with
  | nil =>
    refine ⟨List.Pairwise.nil, fun _ member => member, fun _ member => absurd member
      List.not_mem_nil, rfl, fun node index => ?_, fun index size found => ?_⟩
    · exact ⟨fun found => absurd found (by simp [number]),
        fun both => absurd both.1 List.not_mem_nil⟩
    · exact absurd found (by simp [number])
  | append_singleton nodes node inductionHypothesis =>
    rw [List.nodup_append] at nodup
    have new : node ∉ nodes := fun member =>
      nodup.2.2 node member node (List.mem_singleton.mpr rfl) rfl
    have stepped := numberStep_numbers equivalence (inductionHypothesis nodup.1) new
    unfold number at stepped ⊢
    rwa [List.foldl_append]

/-- Exactly the nodes are numbered. -/
theorem number_isSome (equivalence : Equivalence same) {nodes : List Node} (nodup : nodes.Nodup)
    (node : Node) : ((number same nodes).indexOf.lookup node).isSome ↔ node ∈ nodes := by
  have numbers := number_numbers equivalence nodup
  rw [Option.isSome_iff_exists]
  constructor
  · rintro ⟨index, found⟩
    exact ((numbers.indexed node index).mp found).1
  · intro member
    obtain ⟨representative, inside, equivalent⟩ := numbers.covered node member
    obtain ⟨index, atIndex⟩ := List.mem_iff_getElem?.mp inside
    exact ⟨index, (numbers.indexed node index).mpr ⟨member, representative, atIndex, equivalent⟩⟩

/-- Two nodes have one number exactly when they are equivalent. -/
theorem number_eq_iff (equivalence : Equivalence same) {nodes : List Node} (nodup : nodes.Nodup)
    {first second : Node} (one : first ∈ nodes) (other : second ∈ nodes) :
    (number same nodes).indexOf.lookup first = (number same nodes).indexOf.lookup second ↔
      same first second := by
  have numbers := number_numbers equivalence nodup
  obtain ⟨index, found⟩ := Option.isSome_iff_exists.mp
    ((number_isSome equivalence nodup first).mpr one)
  obtain ⟨_, representative, atIndex, equivalent⟩ := (numbers.indexed first index).mp found
  rw [found]
  constructor
  · intro equal
    obtain ⟨_, otherRepresentative, also, otherEquivalent⟩ :=
      (numbers.indexed second index).mp equal.symm
    obtain rfl := Option.some.inj (atIndex.symm.trans also)
    exact equivalence.trans (equivalence.symm equivalent) otherEquivalent
  · intro related
    exact ((numbers.indexed second index).mpr
      ⟨other, representative, atIndex, equivalence.trans equivalent related⟩).symm

/-- The numbers in use are those below the number of classes. -/
theorem number_dense (equivalence : Equivalence same) {nodes : List Node} (nodup : nodes.Nodup)
    (index : Nat) : index < (number same nodes).sizes.length ↔
      ∃ node ∈ nodes, (number same nodes).indexOf.lookup node = some index := by
  have numbers := number_numbers equivalence nodup
  rw [numbers.length]
  constructor
  · intro below
    have atIndex := List.getElem?_eq_getElem below
    have member := numbers.members _ (List.mem_of_getElem? atIndex)
    exact ⟨_, member, (numbers.indexed _ index).mpr ⟨member, _, atIndex, equivalence.refl _⟩⟩
  · rintro ⟨node, _, found⟩
    obtain ⟨_, _, atIndex, _⟩ := (numbers.indexed node index).mp found
    exact (List.getElem?_eq_some_iff.mp atIndex).1

/-- The size of a class is the number of the nodes that have its number. -/
theorem number_size (equivalence : Equivalence same) {nodes : List Node} (nodup : nodes.Nodup)
    {index size : Nat} (found : (number same nodes).sizes[index]? = some size) :
    size = nodes.countP (fun node =>
      decide ((number same nodes).indexOf.lookup node = some index)) :=
  (number_numbers equivalence nodup).sized index size found

end Numbering

end Collections
