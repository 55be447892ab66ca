/-
This file bounds the heights of the trees of a union-find structure. A root of
rank `r` has at least `2 ^ r` nodes below it: a union only raises a rank where
two roots of one rank meet, and the classes of both are then below one of them.
Ranks rise along the parents, so a node is at most as many steps from its root
as the logarithm of the size of its class; and as `find` halves the path it
climbs, its loop takes half as many rounds.
-/

import Mathlib
import AccountCooker.UnionFind

namespace Collections

namespace UnionFind

variable {Node : Type} [DecidableEq Node]

/-! ### Classes of roots -/

/-- The nodes below a root. -/
def below (parent : HashMap Node Node) (root : Node) : Set Node :=
  {node | RootOf parent node root}

theorem below_finite (parent : HashMap Node Node) (root : Node) : (below parent root).Finite :=
  parent.keys.toFinset.finite_toSet.subset
    (fun _ climbs => List.mem_toFinset.mpr (AList.mem_keys.mp (RootOf.known climbs)))

/-- Every root has as many nodes below it as its rank asks for. -/
def Balanced (uf : UnionFind Node) : Prop :=
  ∀ root, uf.parent.lookup root = some root → 2 ^ uf.rankOf root ≤ (below uf.parent root).ncard

theorem one_le_below {parent : HashMap Node Node} {root : Node}
    (self : parent.lookup root = some root) : 1 ≤ (below parent root).ncard := by
  rw [Nat.one_le_iff_ne_zero, ← Nat.pos_iff_ne_zero, Set.ncard_pos (below_finite parent root)]
  exact ⟨root, RootOf.root root self⟩

theorem rankOf_unknown {uf : UnionFind Node} (formed : WellFormed uf) {node : Node}
    (unknown : node ∉ uf.parent) : uf.rankOf node = 0 := by
  unfold rankOf
  rw [AList.lookup_eq_none.mpr (fun ranked => unknown ((formed.ranked node).mp ranked))]
  rfl

theorem new_rankOf (nodes : List Node) (node : Node) : (new nodes).rankOf node = 0 := by
  have kept (uf : UnionFind Node) (zero : uf.rankOf node = 0) :
      (nodes.foldl insertRoot uf).rankOf node = 0 := by
    induction nodes generalizing uf with
    | nil => exact zero
    | cons head rest inductionHypothesis =>
      refine inductionHypothesis _ ?_
      unfold insertRoot rankOf
      by_cases here : node = head
      · rw [here, AList.lookup_insert]
        rfl
      · rw [AList.lookup_insert_ne here]
        exact zero
  exact kept _ rfl

theorem new_balanced (nodes : List Node) : Balanced (new nodes) := by
  intro root self
  rw [new_rankOf, pow_zero]
  exact one_le_below self

/-! ### Finding -/

theorem ensure_rankOf {uf : UnionFind Node} (node other : Node) :
    (uf.ensure node).rankOf other = uf.rankOf other := by
  unfold ensure rankOf
  by_cases ranked : node ∈ uf.rank
  · rw [orInsert_of_mem _ ranked]
  · rw [orInsert_of_notMem _ ranked]
    by_cases here : other = node
    · rw [here, AList.lookup_insert, AList.lookup_eq_none.mpr ranked]
      rfl
    · rw [AList.lookup_insert_ne here]

/-- Finding a root changes no rank. -/
theorem find_rankOf {uf uf' : UnionFind Node} {node root : Node}
    (found : uf.find node = some (root, uf')) (other : Node) :
    uf'.rankOf other = uf.rankOf other := by
  unfold find at found
  simp only [Option.bind_eq_bind, Option.bind_eq_some_iff, Option.pure_def,
    Option.some_inj] at found
  obtain ⟨⟨top, parent⟩, _, same⟩ := found
  rw [← (Prod.mk.inj same).2]
  exact ensure_rankOf node other

/-- A root that was known before was a root before. -/
theorem root_of_kept {uf : UnionFind Node} {parent : HashMap Node Node} (formed : WellFormed uf)
    (kept : ∀ node root, RootOf uf.parent node root → RootOf parent node root) {root : Node}
    (known : root ∈ uf.parent) (self : parent.lookup root = some root) :
    uf.parent.lookup root = some root := by
  obtain ⟨top, climbs⟩ := formed.forest.exists_root root known
  obtain rfl := (kept _ _ climbs).unique (RootOf.root root self)
  exact climbs.isRoot

/-- A change that moves no root and no rank keeps the trees balanced. -/
theorem balanced_of_kept {uf uf' : UnionFind Node} (formed : WellFormed uf)
    (balanced : Balanced uf) (ranks : ∀ node, uf'.rankOf node = uf.rankOf node)
    (kept : ∀ node root, RootOf uf.parent node root → RootOf uf'.parent node root) :
    Balanced uf' := by
  intro top self
  rw [ranks]
  by_cases known : top ∈ uf.parent
  · exact (balanced top (root_of_kept formed kept known self)).trans
      (Set.ncard_le_ncard (fun other climbs => kept other top climbs) (below_finite _ _))
  · rw [rankOf_unknown formed known, pow_zero]
    exact one_le_below self

theorem ensure_balanced {uf : UnionFind Node} (formed : WellFormed uf) (balanced : Balanced uf)
    (node : Node) : Balanced (uf.ensure node) :=
  balanced_of_kept formed balanced (ensure_rankOf node) (ensure_spec formed node).2.2.2

theorem find_balanced {uf uf' : UnionFind Node} {node root : Node} (formed : WellFormed uf)
    (balanced : Balanced uf) (found : uf.find node = some (root, uf')) : Balanced uf' := by
  obtain ⟨_, _, again, _, _, _, kept⟩ := find_spec formed node
  obtain ⟨rfl, rfl⟩ := Prod.mk.inj (Option.some.inj (found.symm.trans again))
  exact balanced_of_kept formed balanced (find_rankOf found) kept

/-! ### Linking -/

theorem link_rankOf {uf uf' : UnionFind Node} {big small : Node} {tie : Bool}
    (linked : uf.link big small tie = some uf') (node : Node) :
    uf'.rankOf node = if node = big ∧ tie = true then uf.rankOf big + 1 else uf.rankOf node := by
  unfold link at linked
  cases tie with
  | true =>
    simp only [if_true, Option.bind_eq_bind, Option.bind_eq_some_iff, Option.pure_def,
      Option.some_inj] at linked
    obtain ⟨rank, atBig, rfl⟩ := linked
    unfold rankOf
    by_cases here : node = big
    · rw [if_pos ⟨here, rfl⟩, here, AList.lookup_insert, atBig]
      rfl
    · rw [if_neg (fun both => here both.1), AList.lookup_insert_ne here]
  | false =>
    simp only [Bool.false_eq_true, if_false, Option.pure_def, Option.some_inj] at linked
    rw [← linked, if_neg (by simp)]
    rfl

/-- Below the root that stays are the nodes of both classes. -/
theorem link_balanced {uf uf' : UnionFind Node} (formed : WellFormed uf) (balanced : Balanced uf)
    {big small : Node} (different : big ≠ small) (bigRoot : uf.parent.lookup big = some big)
    (smallRoot : uf.parent.lookup small = some small) {tie : Bool}
    (tied : tie = true → uf.rankOf small = uf.rankOf big)
    (linked : uf.link big small tie = some uf')
    (known : ∀ node, node ∈ uf'.parent ↔ node ∈ uf.parent)
    (roots : ∀ node root, RootOf uf.parent node root →
      RootOf uf'.parent node (if root = small then big else root)) : Balanced uf' := by
  have stays {node root : Node} (climbs : RootOf uf.parent node root) (other : root ≠ small) :
      RootOf uf'.parent node root := by
    have moved := roots node root climbs
    rwa [if_neg other] at moved
  have moves {node : Node} (climbs : RootOf uf.parent node small) :
      RootOf uf'.parent node big := by
    have moved := roots node small climbs
    rwa [if_pos rfl] at moved
  intro root self
  obtain ⟨top, climbs⟩ := formed.forest.exists_root root ((known root).mp (mem_of_lookup self))
  -- The root was a root before, and is not the one that was pointed at the other.
  have other : top ≠ small := by
    rintro rfl
    obtain rfl := (moves climbs).unique (RootOf.root root self)
    exact different ((RootOf.root _ bigRoot).unique climbs)
  obtain rfl := (stays climbs other).unique (RootOf.root root self)
  have wider : below uf.parent top ⊆ below uf'.parent top := fun _ climbs => stays climbs other
  rw [link_rankOf linked]
  split
  · rename_i both
    obtain ⟨rfl, tie⟩ := both
    have apart : Disjoint (below uf.parent top) (below uf.parent small) :=
      Set.disjoint_left.mpr (fun _ one two => different (RootOf.unique one two))
    calc 2 ^ (uf.rankOf top + 1) = 2 ^ uf.rankOf top + 2 ^ uf.rankOf small := by
          rw [tied tie, pow_succ]
          omega
      _ ≤ (below uf.parent top).ncard + (below uf.parent small).ncard :=
          Nat.add_le_add (balanced top bigRoot) (balanced small smallRoot)
      _ = (below uf.parent top ∪ below uf.parent small).ncard :=
          (Set.ncard_union_eq apart (below_finite _ _) (below_finite _ _)).symm
      _ ≤ (below uf'.parent top).ncard :=
          Set.ncard_le_ncard (Set.union_subset wider (fun _ climbs => moves climbs))
            (below_finite _ _)
  · exact (balanced top climbs.isRoot).trans (Set.ncard_le_ncard wider (below_finite _ _))

theorem rankOf_eq {uf : UnionFind Node} {node : Node} {rank : Nat}
    (found : uf.rank.lookup node = some rank) : uf.rankOf node = rank := by
  unfold rankOf
  rw [found]
  rfl

/-- The root of lower rank goes under the other, and only a tie raises a rank. -/
theorem union_balanced {uf uf' : UnionFind Node} (formed : WellFormed uf)
    (balanced : Balanced uf) {a b : Node} (joined : uf.union a b = some uf') :
    Balanced uf' := by
  obtain ⟨ra, uf₁, found₁, formed₁, climbs₁, _, _⟩ := find_spec formed a
  obtain ⟨rb, uf₂, found₂, formed₂, climbsB, _, kept₂⟩ := find_spec formed₁ b
  have balanced₂ := find_balanced formed₁ (find_balanced formed balanced found₁) found₂
  have rootA := (kept₂ _ _ climbs₁).isRoot
  have rootB := climbsB.isRoot
  unfold union at joined
  simp only [found₁, found₂, Option.bind_eq_bind, Option.bind_some, Option.pure_def] at joined
  by_cases equal : ra = rb
  · rw [if_pos equal] at joined
    exact Option.some.inj joined ▸ balanced₂
  rw [if_neg equal] at joined
  simp only [Option.bind_eq_some_iff] at joined
  obtain ⟨raRank, atA, rbRank, atB, joined⟩ := joined
  have rankA := rankOf_eq atA
  have rankB := rankOf_eq atB
  split at joined
  · rename_i heavier
    obtain ⟨linked, linking, _, known, roots⟩ := link_spec formed₂ (decide (raRank = rbRank)) equal
      rootA rootB (by omega) (fun tied => decide_eq_true (by omega))
    obtain rfl := Option.some.inj (joined.symm.trans linking)
    refine link_balanced formed₂ balanced₂ equal rootA rootB (fun tie => ?_) linking known roots
    have tied := of_decide_eq_true tie
    omega
  · rename_i lighter
    obtain ⟨linked, linking, _, known, roots⟩ := link_spec formed₂ (decide (raRank = rbRank))
      (Ne.symm equal) rootB rootA (by omega) (fun tied => decide_eq_true (by omega))
    obtain rfl := Option.some.inj (joined.symm.trans linking)
    refine link_balanced formed₂ balanced₂ (Ne.symm equal) rootB rootA (fun tie => ?_) linking
      known roots
    have tied := of_decide_eq_true tie
    omega

/-- Calls on the discrete structure keep the trees balanced. -/
theorem performAll_balanced (nodes : List Node) (calls : List (Call Node))
    {uf : UnionFind Node} (performed : performAll (new nodes) calls = some uf) :
    WellFormed uf ∧ Balanced uf := by
  induction calls using List.reverseRecOn generalizing uf with
  | nil =>
    obtain rfl := Option.some.inj performed
    exact ⟨(new_discrete nodes).wellFormed, new_balanced nodes⟩
  | append_singleton calls call inductionHypothesis =>
    unfold performAll at performed
    rw [List.foldlM_append] at performed
    obtain ⟨middle, before, performing⟩ := Option.bind_eq_some_iff.mp performed
    obtain ⟨formed, balanced⟩ := inductionHypothesis before
    have performed : middle.perform call = some uf := by simpa using performing
    cases call with
    | find node =>
      obtain ⟨root, uf', found, formed', _⟩ := find_spec formed node
      have same : uf' = uf := by simpa [perform, found] using performed
      exact same ▸ ⟨formed', find_balanced formed balanced found⟩
    | union a b =>
      obtain ⟨uf', joining, formed', _⟩ := union_spec formed a b
      obtain rfl : uf = uf' := Option.some.inj (performed.symm.trans joining)
      exact ⟨formed', union_balanced formed balanced joining⟩

/-! ### Climbing -/

/-- No node has a higher rank than its root. -/
theorem Forest.rank_le {rankOf : Node → Nat} {parent : HashMap Node Node}
    (forest : Forest rankOf parent) {node root : Node} (climbs : RootOf parent node root) :
    rankOf node ≤ rankOf root := by
  induction climbs with
  | root node self => exact le_rfl
  | up node above root step moved later inductionHypothesis =>
    exact (forest.increasing node above step moved).le.trans inductionHypothesis

/-- A round of the loop climbs two ranks, or ends at the root. -/
theorem climb_within {rankOf : Node → Nat} (fuel : Nat) {parent : HashMap Node Node}
    {x root : Node} (forest : Forest rankOf parent) (climbs : RootOf parent x root)
    (enough : (rankOf root - rankOf x + 1) / 2 < fuel) :
    ∃ found, climb fuel parent x = some found := by
  induction fuel generalizing parent x with
  | zero => exact absurd enough (Nat.not_lt_zero _)
  | succ fuel inductionHypothesis =>
    obtain ⟨p, step⟩ := lookup_of_mem climbs.known
    by_cases moved : p = x
    · subst moved
      exact ⟨(p, parent), by simp [climb, step]⟩
    · obtain ⟨gp, next⟩ := lookup_of_mem (forest.closed x p step)
      have halved := halve_forest forest step moved next
      have onward := halve_rootOf forest step moved next climbs
      have first := forest.increasing x p step moved
      have later : RootOf (parent.insert x gp) gp root := by
        cases onward with
        | root =>
          exact absurd (Option.some.inj (step.symm.trans climbs.isRoot)) moved
        | up _ above _ found _ later =>
          rw [AList.lookup_insert] at found
          obtain rfl := Option.some.inj found
          exact later
      have bound := halved.rank_le later
      have rounds : (rankOf root - rankOf gp + 1) / 2 < fuel := by
        by_cases top : gp = p
        · -- The parent is the root: the next round ends the loop.
          subst top
          obtain rfl : gp = root := by
            have self : (parent.insert x gp).lookup gp = some gp := by
              rw [AList.lookup_insert_ne moved, next]
            exact (RootOf.root gp self).unique later
          omega
        · have second := forest.increasing p gp next top
          omega
      obtain ⟨found, climbed⟩ := inductionHypothesis halved later rounds
      exact ⟨found, by simp [climb, step, moved, next, climbed]⟩

/-- Fuel that is left over changes nothing. -/
theorem climb_mono {fuel more : Nat} {parent : HashMap Node Node} {x : Node}
    {found : Node × HashMap Node Node} (climbed : climb fuel parent x = some found)
    (longer : fuel ≤ more) : climb more parent x = some found := by
  induction fuel generalizing parent x more with
  | zero => exact nomatch climbed
  | succ fuel inductionHypothesis =>
    obtain ⟨more, rfl⟩ :=
      Nat.exists_eq_add_of_le' (Nat.one_le_iff_ne_zero.mpr (by omega) : 1 ≤ more)
    simp only [climb, Option.bind_eq_bind, Option.bind_eq_some_iff] at climbed ⊢
    obtain ⟨p, step, climbed⟩ := climbed
    refine ⟨p, step, ?_⟩
    split at climbed
    · rename_i self
      rwa [if_pos self]
    · rename_i moved
      rw [if_neg moved]
      obtain ⟨gp, next, climbed⟩ := Option.bind_eq_some_iff.mp climbed
      exact Option.bind_eq_some_iff.mpr
        ⟨gp, next, inductionHypothesis climbed (Nat.le_of_succ_le_succ longer)⟩

/-- The class of a node is what is below its root. -/
theorem below_eq {uf : UnionFind Node} {node root : Node} (climbs : RootOf uf.parent node root) :
    below uf.parent root = {other | uf.Same node other} := by
  ext other
  exact ⟨fun also => Or.inr ⟨root, climbs, also⟩, fun same => same.symm.rootOf climbs⟩

/-- In a balanced forest the loop of `find` ends within half the logarithm of the size of the
class. -/
theorem find_within {uf : UnionFind Node} (formed : WellFormed uf) (balanced : Balanced uf)
    (node : Node) {fuel : Nat}
    (enough : (Nat.log 2 {other | uf.Same node other}.ncard + 1) / 2 < fuel) :
    ∃ found parent, climb fuel (uf.ensure node).parent node = some (found, parent) ∧
      uf.find node = some (found, ⟨parent, (uf.ensure node).rank⟩) := by
  obtain ⟨ensured, known, same, _⟩ := ensure_spec formed node
  obtain ⟨root, climbs⟩ := ensured.forest.exists_root node known
  have size : (below (uf.ensure node).parent root).ncard = {other | uf.Same node other}.ncard := by
    rw [below_eq climbs]
    simp only [same]
  have high : (uf.ensure node).rankOf root ≤ Nat.log 2 {other | uf.Same node other}.ncard := by
    rw [← size]
    exact Nat.le_log_of_pow_le one_lt_two
      (ensure_balanced formed balanced node root climbs.isRoot)
  obtain ⟨⟨found, parent⟩, climbed⟩ := climb_within fuel ensured.forest climbs (by omega)
  refine ⟨found, parent, climbed, ?_⟩
  obtain ⟨top, uf', finds, _⟩ := find_spec formed node
  have whole := finds
  unfold find at whole
  simp only [Option.bind_eq_bind, Option.bind_eq_some_iff] at whole
  obtain ⟨⟨top, later⟩, ended, equal⟩ := whole
  have agree : (found, parent) = (top, later) := by
    rcases Nat.le_total fuel ((uf.ensure node).parent.keys.length + 1) with shorter | longer
    · exact Option.some.inj ((climb_mono climbed shorter).symm.trans ended)
    · exact Option.some.inj (climbed.symm.trans (climb_mono ended longer))
  obtain ⟨rfl, rfl⟩ := Prod.mk.inj agree
  exact finds.trans equal.symm

/-- The rank of a node is at most the logarithm of the size of its class. -/
theorem two_pow_rank_le {uf : UnionFind Node} (formed : WellFormed uf) (balanced : Balanced uf)
    {node : Node} {rank : Nat} (ranked : uf.rank.lookup node = some rank) :
    2 ^ rank ≤ {other | uf.Same node other}.ncard := by
  obtain ⟨root, climbs⟩ := formed.forest.exists_root node
    ((formed.ranked node).mp (mem_of_lookup ranked))
  have lower := formed.forest.rank_le climbs
  rw [rankOf_eq ranked] at lower
  rw [← below_eq climbs]
  exact (Nat.pow_le_pow_right (by decide) lower).trans (balanced root climbs.isRoot)

end UnionFind

end Collections
