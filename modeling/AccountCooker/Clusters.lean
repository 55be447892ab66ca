/-
This file says what the clusters of a ledger are: the classes of the equivalence
closure of the unions its heuristics ask for, numbered over the accounts in
their order. The disjoint sets, their ranks and the order of the unions leave no
trace.
-/

import Mathlib
import AccountCooker.Balance
import AccountCooker.Heuristics
import AccountCooker.Numbering

namespace AccountCooker

open Collections

/-! ### Disjoint sets -/

/-- After any calls on any accounts, known or not: the parents form a forest along whose edges
the ranks rise, so that the loop of `find` ends; two accounts have one root exactly when the
unions so far connect them; and `find` changes none of that. -/
theorem unionFind_disjointSets (accounts : List AccountId)
    (calls : List (UnionFind.Call AccountId)) :
    ∃ uf, UnionFind.performAll (UnionFind.new accounts) calls = some uf ∧
      (∀ account above, uf.parent.lookup account = some above → above ∈ uf.parent ∧
        (above ≠ account → ∃ low high, uf.rank.lookup account = some low ∧
          uf.rank.lookup above = some high ∧ low < high)) ∧
      (∀ first second, uf.Equivalent first second ↔
        Relation.EqvGen (fun x y => UnionFind.Call.union x y ∈ calls) first second) ∧
      ∀ account, ∃ root found, uf.find account = some (root, found) ∧
        ∀ first second, found.Equivalent first second ↔ uf.Equivalent first second := by
  obtain ⟨uf, performed, formed, same⟩ := UnionFind.performAll_spec accounts calls
  have made (x y : AccountId) : (x, y) ∈ calls.filterMap UnionFind.Call.joins? ↔
      UnionFind.Call.union x y ∈ calls := by
    rw [List.mem_filterMap]
    refine ⟨?_, fun member => ⟨_, member, rfl⟩⟩
    rintro ⟨call, member, joins⟩
    cases call with
    | find _ => exact absurd joins (by simp [UnionFind.Call.joins?])
    | union a b =>
      obtain ⟨rfl, rfl⟩ := Prod.mk.inj (Option.some.inj joins)
      exact member
  refine ⟨uf, performed, fun account above step => ⟨formed.forest.closed account above step,
    fun moved => formed.rank_lt step moved⟩, fun first second => ?_, fun account => ?_⟩
  · rw [UnionFind.equivalent_iff formed, same]
    simp only [made]
  · obtain ⟨root, found, finds, after, _, kept, _⟩ := UnionFind.find_spec formed account
    refine ⟨root, found, finds, fun first second => ?_⟩
    rw [UnionFind.equivalent_iff after, UnionFind.equivalent_iff formed, kept]

/-- After any calls on any accounts, ranks are logarithms: an account of rank `r` is in a class of
at least `2 ^ r` accounts, and the loop of `find` runs at most half as many rounds as the class
has binary digits. -/
theorem unionFind_balanced (accounts : List AccountId) (calls : List (UnionFind.Call AccountId)) :
    ∃ uf, UnionFind.performAll (UnionFind.new accounts) calls = some uf ∧ ∀ account,
      (∀ rank, uf.rank.lookup account = some rank →
        2 ^ rank ≤ {other | uf.Equivalent account other}.ncard) ∧
      ∃ root parent,
        UnionFind.climb ((Nat.log 2 {other | uf.Equivalent account other}.ncard + 1) / 2 + 1)
          (uf.ensure account).parent account = some (root, parent) ∧
        uf.find account = some (root, ⟨parent, (uf.ensure account).rank⟩) := by
  obtain ⟨uf, performed, _⟩ := UnionFind.performAll_spec accounts calls
  obtain ⟨formed, balanced⟩ := UnionFind.performAll_balanced accounts calls performed
  refine ⟨uf, performed, fun account => ?_⟩
  simp only [UnionFind.equivalent_iff formed]
  exact ⟨fun rank => UnionFind.two_pow_rank_le formed balanced,
    UnionFind.find_within formed balanced account (Nat.lt_succ_self _)⟩

/-! ### Materialized clusters -/

section Materialize

variable {same : AccountId → AccountId → Prop} [DecidableRel same]

/-- The clusters materialized so far are the classes numbered so far, and the map of roots knows
the roots of their representatives. -/
structure Agrees (same : AccountId → AccountId → Prop) (state : Materialized)
    (numbering : Numbering AccountId) : Prop where
  formed : state.uf.WellFormed
  classes : ∀ first second, state.uf.Same first second ↔ same first second
  indices : state.clustering.clusterOf = numbering.indexOf
  sizes : state.clustering.sizes = numbering.sizes
  entries : ∀ root index, state.rootToIdx.lookup root = some index →
    ∃ representative, numbering.representatives[index]? = some representative ∧
      UnionFind.RootOf state.uf.parent representative root
  roots : ∀ (index : Nat) (representative : AccountId),
    numbering.representatives[index]? = some representative →
      ∃ root, UnionFind.RootOf state.uf.parent representative root ∧
        state.rootToIdx.lookup root = some index

/-- One account. -/
theorem materializeStep_agrees (equivalence : Equivalence same) {nodes : List AccountId}
    {state : Materialized} {numbering : Numbering AccountId} (agrees : Agrees same state numbering)
    (numbers : Numbers same nodes numbering) (account : AccountId) :
    ∃ next, materializeStep state account = some next ∧
      Agrees same next (numberStep same numbering account) := by
  obtain ⟨root, uf, found, formed, climbs, kept, stays⟩ :=
    UnionFind.find_spec agrees.formed account
  have classes (first second : AccountId) : uf.Same first second ↔ same first second :=
    (kept first second).trans (agrees.classes first second)
  unfold materializeStep numberStep
  cases known : state.rootToIdx.lookup root with
  | some index =>
    obtain ⟨representative, atIndex, reaches⟩ := agrees.entries root index known
    have equivalent : same representative account :=
      (classes _ _).mp (Or.inr ⟨root, stays _ _ reaches, climbs⟩)
    have bound : index < state.clustering.sizes.length := by
      rw [agrees.sizes, numbers.length]
      exact (List.getElem?_eq_some_iff.mp atIndex).1
    have size := List.getElem?_eq_getElem bound
    rw [findIdx?_representative equivalence numbers.apart atIndex equivalent]
    refine ⟨⟨uf, state.rootToIdx, ⟨state.clustering.clusterOf.insert account index,
      state.clustering.sizes.set index (state.clustering.sizes[index] + 1)⟩⟩,
      by simp [found, known, size], formed, classes, ?_, ?_, ?_, ?_⟩
    · show state.clustering.clusterOf.insert account index = _
      rw [agrees.indices]
    · show state.clustering.sizes.set index (state.clustering.sizes[index] + 1) =
        numbering.sizes.modify index (· + 1)
      rw [← agrees.sizes, List.modify_eq_set_getElem?, size]
      rfl
    · intro top other stored
      obtain ⟨first, atOther, climbsFirst⟩ := agrees.entries top other stored
      exact ⟨first, atOther, stays _ _ climbsFirst⟩
    · intro other first atOther
      obtain ⟨top, climbsFirst, stored⟩ := agrees.roots other first atOther
      exact ⟨top, stays _ _ climbsFirst, stored⟩
  | none =>
    have missing : numbering.representatives.findIdx?
        (fun representative => decide (same representative account)) = none := by
      rw [List.findIdx?_eq_none_iff]
      intro representative member
      refine decide_eq_false (fun equivalent => ?_)
      obtain ⟨index, atIndex⟩ := List.mem_iff_getElem?.mp member
      obtain ⟨top, reaches, stored⟩ := agrees.roots index representative atIndex
      have also := UnionFind.Same.rootOf ((classes _ _).mpr equivalent) climbs
      rw [(stays _ _ reaches).unique also, known] at stored
      exact absurd stored (by simp)
    have length : state.clustering.sizes.length = numbering.representatives.length := by
      rw [agrees.sizes, numbers.length]
    rw [missing]
    refine ⟨⟨uf, state.rootToIdx.insert root state.clustering.sizes.length,
      ⟨state.clustering.clusterOf.insert account state.clustering.sizes.length,
        state.clustering.sizes ++ [1]⟩⟩, by simp [found, known], formed, classes, ?_, ?_, ?_, ?_⟩
    · show state.clustering.clusterOf.insert account state.clustering.sizes.length = _
      rw [agrees.indices, agrees.sizes]
    · show state.clustering.sizes ++ [1] = _
      rw [agrees.sizes]
    · intro top other stored
      show ∃ representative, (numbering.representatives ++ [account])[other]? = _ ∧ _
      simp only [getElem?_concat]
      by_cases here : top = root
      · subst here
        rw [AList.lookup_insert, Option.some_inj] at stored
        exact ⟨account, Or.inr ⟨by rw [← stored, length], rfl⟩, climbs⟩
      · rw [AList.lookup_insert_ne here] at stored
        obtain ⟨first, atOther, climbsFirst⟩ := agrees.entries top other stored
        exact ⟨first, Or.inl atOther, stays _ _ climbsFirst⟩
    · intro other first atOther
      show ∃ top, UnionFind.RootOf uf.parent first top ∧
        (state.rootToIdx.insert root state.clustering.sizes.length).lookup top = some other
      rcases getElem?_concat.mp atOther with old | ⟨last, rfl⟩
      · obtain ⟨top, climbsFirst, stored⟩ := agrees.roots other first old
        have different : top ≠ root := by
          rintro rfl
          rw [known] at stored
          exact absurd stored (by simp)
        refine ⟨top, stays _ _ climbsFirst, ?_⟩
        rw [AList.lookup_insert_ne different]
        exact stored
      · refine ⟨root, climbs, ?_⟩
        rw [AList.lookup_insert, length, last]

/-- Materializing numbers the classes of the accounts. -/
theorem materialize_eq (equivalence : Equivalence same) {uf : UnionFind AccountId}
    (formed : uf.WellFormed) (classes : ∀ first second, uf.Same first second ↔ same first second)
    {accounts : List AccountId} (nodup : accounts.Nodup) :
    materialize uf accounts =
      some ⟨(number same accounts).indexOf, (number same accounts).sizes⟩ := by
  have run (done : List AccountId) (distinct : done.Nodup) :
      ∃ state, done.foldlM materializeStep ⟨uf, ∅, ⟨∅, []⟩⟩ = some state ∧
        Agrees same state (number same done) := by
    induction done using List.reverseRecOn with
    | nil =>
      exact ⟨⟨uf, ∅, ⟨∅, []⟩⟩, rfl, formed, classes, rfl, rfl,
        fun root index stored => absurd stored (by simp),
        fun index first found => absurd found (by simp [number])⟩
    | append_singleton done account inductionHypothesis =>
      obtain ⟨state, ran, agrees⟩ :=
        inductionHypothesis (distinct.sublist (List.sublist_append_left _ _))
      obtain ⟨next, stepped, also⟩ := materializeStep_agrees equivalence agrees
        (number_numbers equivalence (distinct.sublist (List.sublist_append_left _ _))) account
      refine ⟨next, ?_, ?_⟩
      · rw [List.foldlM_append, ran]
        simp [stepped]
      · unfold number at also ⊢
        rwa [List.foldl_append]
  obtain ⟨state, ran, agrees⟩ := run accounts nodup
  unfold materialize
  rw [ran]
  show some state.clustering = _
  rw [← agrees.indices, ← agrees.sizes]

end Materialize

/-! ### Clusters -/

open Classical in
/-- The clustering an equivalence determines. -/
noncomputable def clusteringOf (same : AccountId → AccountId → Prop) (ledger : Ledger) :
    Clustering :=
  ⟨(number same ledger.accounts.keys).indexOf, (number same ledger.accounts.keys).sizes⟩

/-- The least equivalence that relates the two ends of every union asked for. -/
abbrev Linked (pairs : List (AccountId × AccountId)) : AccountId → AccountId → Prop :=
  Relation.EqvGen (fun first second => (first, second) ∈ pairs)

/-- Clustering computes the classes of the closure of the requested unions. -/
theorem cluster_eq {order : HashOrder} {ledger : Ledger} {cfg : AdversaryConfig}
    {pairs : List (AccountId × AccountId)}
    (requested : requestedUnions order ledger.records cfg = some pairs) :
    cluster order ledger cfg = some (clusteringOf (Linked pairs) ledger) := by
  classical
  obtain ⟨uf, united, formed, classes⟩ := UnionFind.unionAll_spec ledger.accounts.keys pairs
  unfold cluster
  rw [requested]
  show (UnionFind.unionAll _ pairs).bind _ = _
  rw [united]
  exact materialize_eq (Relation.EqvGen.is_equivalence _) formed classes ledger.accounts.keys_nodup

/-- Two accounts have one cluster exactly when they are equivalent. -/
theorem clusteringOf_eq_iff {same : AccountId → AccountId → Prop} (equivalence : Equivalence same)
    {ledger : Ledger} {first second : AccountId} (one : first ∈ ledger.accounts.keys)
    (other : second ∈ ledger.accounts.keys) :
    (clusteringOf same ledger).clusterOf.lookup first =
      (clusteringOf same ledger).clusterOf.lookup second ↔ same first second := by
  classical
  exact number_eq_iff equivalence ledger.accounts.keys_nodup one other

end AccountCooker
