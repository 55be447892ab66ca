/-
This file models the union-find structure, with path halving and union by rank,
over any type of nodes, and proves what it computes.

The rank of a node is below that of its parent, so that climbing ends; the loop
of `find` gets as much fuel as there are nodes and never runs out. What a
structure means is which nodes are `Same`: equal, or with one root. Adding a
node and finding a root do not change that, a union joins two classes, and a
sequence of unions from the discrete structure leaves the equivalence closure of
its pairs.
-/

import Mathlib
import AccountCooker.Collections

namespace Collections

variable {Node : Type} [DecidableEq Node]

/-- Union-find over nodes. -/
structure UnionFind (Node : Type) where
  parent : HashMap Node Node
  rank : HashMap Node Nat

namespace UnionFind

/-- A node that is the root of itself. -/
def insertRoot (uf : UnionFind Node) (node : Node) : UnionFind Node :=
  ⟨uf.parent.insert node node, uf.rank.insert node 0⟩

/-- Every node is the root of itself. -/
def new (nodes : List Node) : UnionFind Node := nodes.foldl insertRoot ⟨∅, ∅⟩

/-- `map.entry(key).or_insert(value)`. -/
def orInsert {Value : Type} (map : HashMap Node Value) (key : Node) (value : Value) :
    HashMap Node Value :=
  if key ∈ map then map else map.insert key value

/-- Make a node known. -/
def ensure (uf : UnionFind Node) (node : Node) : UnionFind Node :=
  ⟨orInsert uf.parent node node, orInsert uf.rank node 0⟩

/-- Climb to the root, pointing every other node on the way at its grandparent. -/
def climb : (fuel : Nat) → HashMap Node Node → Node → Option (Node × HashMap Node Node)
  | 0, _, _ => none
  | fuel + 1, parent, x => do
    let p ← parent.lookup x
    if p = x then pure (x, parent)
    else do
      let gp ← parent.lookup p
      climb fuel (parent.insert x gp) gp

/-- The root of a node. -/
def find (uf : UnionFind Node) (node : Node) : Option (Node × UnionFind Node) := do
  let known := uf.ensure node
  let (root, parent) ← climb (known.parent.keys.length + 1) known.parent node
  pure (root, ⟨parent, known.rank⟩)

/-- Point the root `small` at the root `big`. -/
def link (uf : UnionFind Node) (big small : Node) (tie : Bool) : Option (UnionFind Node) := do
  let parent := uf.parent.insert small big
  if tie then do
    let rank ← uf.rank.lookup big
    pure ⟨parent, uf.rank.insert big (rank + 1)⟩
  else pure ⟨parent, uf.rank⟩

/-- Join the classes of two nodes, the root of lower rank under the other. -/
def union (uf : UnionFind Node) (a b : Node) : Option (UnionFind Node) := do
  let (ra, uf) ← uf.find a
  let (rb, uf) ← uf.find b
  if ra = rb then pure uf
  else do
    let raRank ← uf.rank.lookup ra
    let rbRank ← uf.rank.lookup rb
    if raRank ≥ rbRank then uf.link ra rb (raRank = rbRank)
    else uf.link rb ra (raRank = rbRank)

/-- Join the classes of all the pairs, one after the other. -/
def unionAll (uf : UnionFind Node) (pairs : List (Node × Node)) : Option (UnionFind Node) :=
  pairs.foldlM (fun uf pair => uf.union pair.1 pair.2) uf

/-- A call on the structure. -/
inductive Call (Node : Type)
  | find (node : Node)
  | union (a b : Node)

/-- What a call leaves of the structure. -/
def perform (uf : UnionFind Node) : Call Node → Option (UnionFind Node)
  | .find node => (uf.find node).map Prod.snd
  | .union a b => uf.union a b

/-- A sequence of calls. -/
def performAll (uf : UnionFind Node) (calls : List (Call Node)) : Option (UnionFind Node) :=
  calls.foldlM perform uf

/-- The pair a call joins. -/
def Call.joins? : Call Node → Option (Node × Node)
  | .find _ => none
  | .union a b => some (a, b)

/-- Two nodes have one root, as two calls of `find` tell. -/
def Equivalent (uf : UnionFind Node) (first second : Node) : Prop :=
  ∃ root found found', uf.find first = some (root, found) ∧ found.find second = some (root, found')

/-! ### Roots -/

/-- Climbing the parents of a node ends at a root. -/
inductive RootOf (parent : HashMap Node Node) : Node → Node → Prop
  | root (node : Node) (self : parent.lookup node = some node) : RootOf parent node node
  | up (node above root : Node) (step : parent.lookup node = some above) (moved : above ≠ node)
    (later : RootOf parent above root) : RootOf parent node root

theorem RootOf.isRoot {parent : HashMap Node Node} {node root : Node}
    (climbs : RootOf parent node root) : parent.lookup root = some root := by
  induction climbs with
  | root node self => exact self
  | up node above root step moved later inductionHypothesis => exact inductionHypothesis

theorem RootOf.unique {parent : HashMap Node Node} {node first second : Node}
    (one : RootOf parent node first) (other : RootOf parent node second) : first = second := by
  induction one with
  | root node self =>
    cases other with
    | root _ => rfl
    | up _ above _ step moved _ =>
      exact absurd (Option.some.inj (step.symm.trans self)) moved
  | up node above root step moved later inductionHypothesis =>
    cases other with
    | root _ self => exact absurd (Option.some.inj (step.symm.trans self)) moved
    | up _ above' _ step' _ later' =>
      obtain rfl := Option.some.inj (step.symm.trans step')
      exact inductionHypothesis later'

theorem RootOf.known {parent : HashMap Node Node} {node root : Node}
    (climbs : RootOf parent node root) : node ∈ parent := by
  rw [← AList.lookup_isSome]
  cases climbs with
  | root _ self => rw [self]; rfl
  | up _ above _ step _ _ => rw [step]; rfl

/-- A forest whose ranks increase towards the roots. -/
structure Forest (rankOf : Node → Nat) (parent : HashMap Node Node) : Prop where
  closed : ∀ node above, parent.lookup node = some above → above ∈ parent
  increasing : ∀ node above, parent.lookup node = some above → above ≠ node →
    rankOf node < rankOf above

/-- The nodes of higher rank, which bound how far a node can climb. -/
def higher (rankOf : Node → Nat) (parent : HashMap Node Node) (node : Node) : Finset Node :=
  parent.keys.toFinset.filter (fun other => rankOf node < rankOf other)

theorem higher_card_lt {rankOf : Node → Nat} {parent : HashMap Node Node} {node above : Node}
    (known : above ∈ parent) (lower : rankOf node < rankOf above) :
    (higher rankOf parent above).card < (higher rankOf parent node).card := by
  refine Finset.card_lt_card (Finset.ssubset_iff_of_subset ?_ |>.mpr ⟨above, ?_, ?_⟩)
  · intro other member
    unfold higher at *
    rw [Finset.mem_filter] at *
    exact ⟨member.1, lower.trans member.2⟩
  · unfold higher
    rw [Finset.mem_filter, List.mem_toFinset]
    exact ⟨AList.mem_keys.mp known, lower⟩
  · unfold higher
    rw [Finset.mem_filter]
    exact fun both => lt_irrefl _ both.2

theorem lookup_of_mem {Value : Type} {map : HashMap Node Value} {node : Node}
    (known : node ∈ map) : ∃ value, map.lookup node = some value :=
  Option.isSome_iff_exists.mp (AList.lookup_isSome.mpr known)

theorem mem_of_lookup {Value : Type} {map : HashMap Node Value} {node : Node} {value : Value}
    (found : map.lookup node = some value) : node ∈ map :=
  AList.lookup_isSome.mp (by rw [found]; rfl)

/-- Every known node has a root. -/
theorem Forest.exists_root {rankOf : Node → Nat} {parent : HashMap Node Node}
    (forest : Forest rankOf parent) (node : Node) (known : node ∈ parent) :
    ∃ root, RootOf parent node root := by
  induction count : (higher rankOf parent node).card using Nat.strong_induction_on
    generalizing node with
  | _ count inductionHypothesis =>
    obtain ⟨above, step⟩ := lookup_of_mem known
    by_cases moved : above = node
    · subst moved
      exact ⟨above, RootOf.root above step⟩
    · have aboveKnown := forest.closed node above step
      have fewer := higher_card_lt aboveKnown (forest.increasing node above step moved)
      obtain ⟨root, climbs⟩ := inductionHypothesis _ (count ▸ fewer) above aboveKnown rfl
      exact ⟨root, RootOf.up node above root step moved climbs⟩

/-! ### Halving -/

section Halving

variable {rankOf : Node → Nat} {parent : HashMap Node Node} {x p gp : Node}

theorem mem_insert_known {Value : Type} {map : HashMap Node Value} {key node : Node}
    {value : Value} (known : key ∈ map) : node ∈ map.insert key value ↔ node ∈ map := by
  rw [AList.mem_insert]
  exact or_iff_right_of_imp (fun equal => equal ▸ known)

theorem halve_forest (forest : Forest rankOf parent) (step : parent.lookup x = some p)
    (moved : p ≠ x) (next : parent.lookup p = some gp) : Forest rankOf (parent.insert x gp) := by
  have known : x ∈ parent := mem_of_lookup step
  have above : rankOf x < rankOf gp := by
    have first := forest.increasing x p step moved
    by_cases top : gp = p
    · rwa [top]
    · exact first.trans (forest.increasing p gp next top)
  constructor
  · intro node other found
    rw [mem_insert_known known]
    by_cases here : node = x
    · subst here
      rw [AList.lookup_insert] at found
      rw [← Option.some.inj found]
      exact forest.closed p gp next
    · rw [AList.lookup_insert_ne here] at found
      exact forest.closed node other found
  · intro node other found different
    by_cases here : node = x
    · subst here
      rw [AList.lookup_insert] at found
      rwa [← Option.some.inj found]
    · rw [AList.lookup_insert_ne here] at found
      exact forest.increasing node other found different

/-- Pointing a node at its grandparent changes no root. -/
theorem halve_rootOf (forest : Forest rankOf parent) (step : parent.lookup x = some p)
    (moved : p ≠ x) (next : parent.lookup p = some gp) {node root : Node}
    (climbs : RootOf parent node root) : RootOf (parent.insert x gp) node root := by
  have notX : gp ≠ x := by
    intro equal
    have first := forest.increasing x p step moved
    by_cases top : gp = p
    · exact moved (top.symm.trans equal)
    · have second := forest.increasing p gp next top
      rw [equal] at second
      exact lt_asymm first second
  have atP : (parent.insert x gp).lookup p = some gp := by
    rw [AList.lookup_insert_ne moved, next]
  induction climbs with
  | root node self =>
    have other : node ≠ x := by
      rintro rfl
      exact moved (Option.some.inj (step.symm.trans self))
    exact RootOf.root node (by rw [AList.lookup_insert_ne other, self])
  | up node above root found different later inductionHypothesis =>
    by_cases here : node = x
    · subst here
      obtain rfl := Option.some.inj (step.symm.trans found)
      refine RootOf.up node gp root (AList.lookup_insert _) notX ?_
      cases inductionHypothesis with
      | root _ self =>
        obtain rfl := Option.some.inj (atP.symm.trans self)
        exact RootOf.root gp self
      | up _ above' _ found' _ later' =>
        obtain rfl := Option.some.inj (atP.symm.trans found')
        exact later'
    · exact RootOf.up node above root (by rw [AList.lookup_insert_ne here, found]) different
        inductionHypothesis

/-- Climbing ends at the root, and changes no root. -/
theorem climb_spec (fuel : Nat) (forest : Forest rankOf parent) (known : x ∈ parent)
    (enough : (higher rankOf parent x).card < fuel) :
    ∃ root parent', climb fuel parent x = some (root, parent') ∧ RootOf parent x root ∧
      Forest rankOf parent' ∧ (∀ node, node ∈ parent' ↔ node ∈ parent) ∧
      ∀ node other, RootOf parent node other → RootOf parent' node other := by
  induction fuel generalizing parent x with
  | zero => exact absurd enough (Nat.not_lt_zero _)
  | succ fuel inductionHypothesis =>
    obtain ⟨p, step⟩ := lookup_of_mem known
    by_cases moved : p = x
    · subst moved
      refine ⟨p, parent, ?_, RootOf.root p step, forest, fun _ => Iff.rfl, fun _ _ climbs => climbs⟩
      simp [climb, step]
    · obtain ⟨gp, next⟩ := lookup_of_mem (forest.closed x p step)
      have halved := halve_forest forest step moved next
      have keys (node : Node) : node ∈ parent.insert x gp ↔ node ∈ parent :=
        mem_insert_known known
      have gpKnown : gp ∈ parent := forest.closed p gp next
      have lower : rankOf x < rankOf gp := by
        have edge := halved.increasing x gp (AList.lookup_insert _)
        by_cases equal : gp = x
        · have first := forest.increasing x p step moved
          have second := forest.increasing p gp next (by rw [equal]; exact Ne.symm moved)
          rw [equal] at second
          exact absurd first (lt_asymm second)
        · exact edge equal
      have sameHigher : higher rankOf (parent.insert x gp) gp = higher rankOf parent gp := by
        unfold higher
        congr 1
        ext node
        rw [List.mem_toFinset, List.mem_toFinset, ← AList.mem_keys, ← AList.mem_keys, keys]
      have fewer := higher_card_lt gpKnown lower
      obtain ⟨root, parent', climbed, climbs, after, sameKeys, kept⟩ :=
        inductionHypothesis halved ((keys gp).mpr gpKnown) (by rw [sameHigher]; omega)
      refine ⟨root, parent', ?_, ?_, after, fun node => (sameKeys node).trans (keys node),
        fun node other climbs => kept node other (halve_rootOf forest step moved next climbs)⟩
      · simp [climb, step, moved, next, climbed]
      · obtain ⟨top, reach⟩ := forest.exists_root x known
        have viaHalved := halve_rootOf forest step moved next reach
        cases viaHalved with
        | root _ self =>
          rw [AList.lookup_insert] at self
          exact absurd (Option.some.inj self ▸ lower) (lt_irrefl _)
        | up _ above _ found _ later =>
          rw [AList.lookup_insert] at found
          obtain rfl := Option.some.inj found
          rwa [climbs.unique later]

end Halving

/-! ### Classes -/

/-- The rank of a node; that of an unknown node is zero, as it will be when it is added. -/
def rankOf (uf : UnionFind Node) (node : Node) : Nat := (uf.rank.lookup node).getD 0

/-- The invariant of the structure. -/
structure WellFormed (uf : UnionFind Node) : Prop where
  forest : Forest uf.rankOf uf.parent
  ranked : ∀ node, node ∈ uf.rank ↔ node ∈ uf.parent

/-- Two nodes are equal, or known and in one class. -/
def Same (uf : UnionFind Node) (first second : Node) : Prop :=
  first = second ∨ ∃ root, RootOf uf.parent first root ∧ RootOf uf.parent second root

/-- A change that knows the same nodes and moves no root moves no class. -/
theorem same_of_kept {uf uf' : UnionFind Node} (before : WellFormed uf)
    (known : ∀ node, node ∈ uf'.parent ↔ node ∈ uf.parent)
    (kept : ∀ node root, RootOf uf.parent node root → RootOf uf'.parent node root)
    (first second : Node) : uf'.Same first second ↔ uf.Same first second := by
  refine or_congr_right ⟨?_, ?_⟩
  · rintro ⟨root, one, other⟩
    obtain ⟨rootOne, climbsOne⟩ := before.forest.exists_root first ((known first).mp one.known)
    obtain ⟨rootOther, climbsOther⟩ :=
      before.forest.exists_root second ((known second).mp other.known)
    have atOne := (kept _ _ climbsOne).unique one
    have atOther := (kept _ _ climbsOther).unique other
    exact ⟨root, atOne ▸ climbsOne, atOther ▸ climbsOther⟩
  · rintro ⟨root, one, other⟩
    exact ⟨root, kept _ _ one, kept _ _ other⟩

theorem insert_new_rootOf {parent : HashMap Node Node} {node : Node} (unknown : node ∉ parent)
    (closed : ∀ below above, parent.lookup below = some above → above ∈ parent)
    {other root : Node} :
    RootOf (parent.insert node node) other root ↔
      RootOf parent other root ∨ other = node ∧ root = node := by
  have self : (parent.insert node node).lookup node = some node := AList.lookup_insert _
  constructor
  · intro climbs
    induction climbs with
    | root top found =>
      by_cases here : top = node
      · exact Or.inr ⟨here, here⟩
      · rw [AList.lookup_insert_ne here] at found
        exact Or.inl (RootOf.root top found)
    | up below above top found moved later inductionHypothesis =>
      by_cases here : below = node
      · subst here
        exact absurd (Option.some.inj (found.symm.trans self)) moved
      · rw [AList.lookup_insert_ne here] at found
        rcases inductionHypothesis with old | ⟨equal, _⟩
        · exact Or.inl (RootOf.up below above top found moved old)
        · exact absurd (equal ▸ closed below above found) unknown
  · rintro (climbs | ⟨rfl, rfl⟩)
    · induction climbs with
      | root top found =>
        have other : top ≠ node := fun equal => unknown (equal ▸ mem_of_lookup found)
        exact RootOf.root top (by rw [AList.lookup_insert_ne other, found])
      | up below above top found moved _ inductionHypothesis =>
        have other : below ≠ node := fun equal => unknown (equal ▸ mem_of_lookup found)
        exact RootOf.up below above top (by rw [AList.lookup_insert_ne other, found]) moved
          inductionHypothesis
    · exact RootOf.root _ self

theorem orInsert_of_mem {Value : Type} {map : HashMap Node Value} {key : Node} (value : Value)
    (known : key ∈ map) : orInsert map key value = map := if_pos known

theorem orInsert_of_notMem {Value : Type} {map : HashMap Node Value} {key : Node} (value : Value)
    (unknown : key ∉ map) : orInsert map key value = map.insert key value := if_neg unknown

/-- Making a node known keeps the invariant and every class. -/
theorem ensure_spec {uf : UnionFind Node} (before : WellFormed uf) (node : Node) :
    WellFormed (uf.ensure node) ∧ node ∈ (uf.ensure node).parent ∧
      (∀ first second, (uf.ensure node).Same first second ↔ uf.Same first second) ∧
      ∀ other root, RootOf uf.parent other root → RootOf (uf.ensure node).parent other root := by
  by_cases known : node ∈ uf.parent
  · have same : uf.ensure node = uf := by
      unfold ensure
      rw [orInsert_of_mem _ known, orInsert_of_mem _ ((before.ranked node).mpr known)]
    rw [same]
    exact ⟨before, known, fun _ _ => Iff.rfl, fun _ _ climbs => climbs⟩
  · have parent : (uf.ensure node).parent = uf.parent.insert node node :=
      orInsert_of_notMem _ known
    have unranked : node ∉ uf.rank := fun ranked => known ((before.ranked node).mp ranked)
    have rank : (uf.ensure node).rank = uf.rank.insert node 0 := orInsert_of_notMem _ unranked
    have sameRank (other : Node) : (uf.ensure node).rankOf other = uf.rankOf other := by
      unfold rankOf
      rw [rank]
      by_cases here : other = node
      · subst here
        rw [AList.lookup_insert, AList.lookup_eq_none.mpr unranked]
        rfl
      · rw [AList.lookup_insert_ne here]
    have roots {other root : Node} : RootOf (uf.ensure node).parent other root ↔
        RootOf uf.parent other root ∨ other = node ∧ root = node := by
      rw [parent]
      exact insert_new_rootOf known before.forest.closed
    refine ⟨⟨⟨?_, ?_⟩, ?_⟩, ?_, ?_, fun other root climbs => roots.mpr (Or.inl climbs)⟩
    · intro other above found
      rw [parent, AList.mem_insert]
      rw [parent] at found
      by_cases here : other = node
      · subst here
        rw [AList.lookup_insert] at found
        exact Or.inl (Option.some.inj found).symm
      · rw [AList.lookup_insert_ne here] at found
        exact Or.inr (before.forest.closed other above found)
    · intro other above found moved
      rw [sameRank, sameRank]
      rw [parent] at found
      by_cases here : other = node
      · subst here
        rw [AList.lookup_insert] at found
        exact absurd (Option.some.inj found).symm moved
      · rw [AList.lookup_insert_ne here] at found
        exact before.forest.increasing other above found moved
    · intro other
      rw [parent, rank, AList.mem_insert, AList.mem_insert, before.ranked]
    · rw [parent, AList.mem_insert]
      exact Or.inl rfl
    · intro first second
      refine ⟨?_, fun same => same.imp_right (fun ⟨root, one, other⟩ =>
        ⟨root, roots.mpr (Or.inl one), roots.mpr (Or.inl other)⟩)⟩
      rintro (equal | ⟨root, one, other⟩)
      · exact Or.inl equal
      rcases roots.mp one with climbsOne | ⟨rfl, rfl⟩
      · rcases roots.mp other with climbsOther | ⟨rfl, rfl⟩
        · exact Or.inr ⟨root, climbsOne, climbsOther⟩
        · exact absurd (mem_of_lookup climbsOne.isRoot) known
      · rcases roots.mp other with climbsOther | ⟨rfl, _⟩
        · exact absurd (mem_of_lookup climbsOther.isRoot) known
        · exact Or.inl rfl

/-- `find` answers with the root of the node, and keeps the invariant and every class. -/
theorem find_spec {uf : UnionFind Node} (before : WellFormed uf) (node : Node) :
    ∃ root uf', uf.find node = some (root, uf') ∧ WellFormed uf' ∧
      RootOf uf'.parent node root ∧
      (∀ first second, uf'.Same first second ↔ uf.Same first second) ∧
      ∀ other root, RootOf uf.parent other root → RootOf uf'.parent other root := by
  obtain ⟨ensured, known, sameEnsured, keptEnsured⟩ := ensure_spec before node
  have enough : (higher (uf.ensure node).rankOf (uf.ensure node).parent node).card <
      (uf.ensure node).parent.keys.length + 1 :=
    Nat.lt_succ_of_le ((Finset.card_filter_le _ _).trans (List.toFinset_card_le _))
  obtain ⟨root, parent', climbed, climbs, forest, keys, kept⟩ :=
    climb_spec _ ensured.forest known enough
  have after : WellFormed (⟨parent', (uf.ensure node).rank⟩ : UnionFind Node) :=
    ⟨forest, fun other => (ensured.ranked other).trans (keys other).symm⟩
  refine ⟨root, ⟨parent', (uf.ensure node).rank⟩, ?_, after, kept _ _ climbs,
    fun first second => ?_, fun other top reaches => kept _ _ (keptEnsured _ _ reaches)⟩
  · unfold find
    simp [climbed]
  · exact (same_of_kept ensured keys kept first second).trans (sameEnsured first second)

/-! ### Unions -/

/-- What a relation becomes when the classes of `a` and `b` are joined. -/
def Joined (same : Node → Node → Prop) (a b first second : Node) : Prop :=
  same first second ∨ same first a ∧ same b second ∨ same first b ∧ same a second

theorem link_rootOf {parent : HashMap Node Node} {big small : Node} (different : big ≠ small)
    (bigRoot : parent.lookup big = some big) (smallRoot : parent.lookup small = some small)
    {node root : Node} (climbs : RootOf parent node root) :
    RootOf (parent.insert small big) node (if root = small then big else root) := by
  have atBig : RootOf (parent.insert small big) big big :=
    RootOf.root big (by rw [AList.lookup_insert_ne different, bigRoot])
  induction climbs with
  | root node self =>
    split
    · rename_i equal
      subst equal
      exact RootOf.up node big big (AList.lookup_insert _) different atBig
    · rename_i other
      exact RootOf.root node (by rw [AList.lookup_insert_ne other, self])
  | up node above root found moved later inductionHypothesis =>
    by_cases here : node = small
    · subst here
      exact absurd (Option.some.inj (found.symm.trans smallRoot)) moved
    · exact RootOf.up node above _ (by rw [AList.lookup_insert_ne here, found]) moved
        inductionHypothesis

/-- Pointing a root at another of no lower rank joins their classes. -/
theorem link_spec {uf : UnionFind Node} (before : WellFormed uf) {big small : Node} (tie : Bool)
    (different : big ≠ small) (bigRoot : uf.parent.lookup big = some big)
    (smallRoot : uf.parent.lookup small = some small) (ordered : uf.rankOf small ≤ uf.rankOf big)
    (tied : uf.rankOf small = uf.rankOf big → tie = true) :
    ∃ uf', uf.link big small tie = some uf' ∧ WellFormed uf' ∧
      (∀ node, node ∈ uf'.parent ↔ node ∈ uf.parent) ∧
      ∀ node root, RootOf uf.parent node root →
        RootOf uf'.parent node (if root = small then big else root) := by
  have smallKnown : small ∈ uf.parent := mem_of_lookup smallRoot
  have bigKnown : big ∈ uf.parent := mem_of_lookup bigRoot
  obtain ⟨rank, atBig⟩ := lookup_of_mem ((before.ranked big).mpr bigKnown)
  have bigRank : uf.rankOf big = rank := by
    unfold rankOf
    rw [atBig]
    rfl
  -- The ranks after the link: only that of `big` may have grown, and it is above `small`'s.
  have linked (uf' : UnionFind Node) (parent : uf'.parent = uf.parent.insert small big)
      (ranked : ∀ node, node ∈ uf'.rank ↔ node ∈ uf.rank)
      (others : ∀ node, node ≠ big → uf'.rankOf node = uf.rankOf node)
      (grown : uf.rankOf big ≤ uf'.rankOf big) (above : uf.rankOf small < uf'.rankOf big) :
      WellFormed uf' := by
    refine ⟨⟨?_, ?_⟩, fun node => ?_⟩
    · intro node top found
      rw [parent] at found ⊢
      rw [mem_insert_known smallKnown]
      by_cases here : node = small
      · subst here
        rw [AList.lookup_insert] at found
        rw [← Option.some.inj found]
        exact bigKnown
      · rw [AList.lookup_insert_ne here] at found
        exact before.forest.closed node top found
    · intro node top found moved
      rw [parent] at found
      by_cases here : node = small
      · subst here
        rw [AList.lookup_insert] at found
        rw [← Option.some.inj found, others _ (Ne.symm different)]
        exact above
      · rw [AList.lookup_insert_ne here] at found
        have notBig : node ≠ big := by
          rintro rfl
          exact moved (Option.some.inj (found.symm.trans bigRoot))
        rw [others node notBig]
        refine (before.forest.increasing node top found moved).trans_le ?_
        by_cases toBig : top = big
        · rw [toBig]
          exact grown
        · rw [others top toBig]
    · rw [parent, mem_insert_known smallKnown, ranked, before.ranked]
  unfold link
  cases tie with
  | true =>
    refine ⟨⟨uf.parent.insert small big, uf.rank.insert big (rank + 1)⟩, by simp [atBig], ?_,
      fun node => mem_insert_known smallKnown,
      fun node root climbs => link_rootOf different bigRoot smallRoot climbs⟩
    have newRank : rankOf (⟨uf.parent.insert small big, uf.rank.insert big (rank + 1)⟩ :
        UnionFind Node) big = rank + 1 := by
      unfold rankOf
      rw [AList.lookup_insert]
      rfl
    refine linked _ rfl (fun node => ?_) (fun node other => ?_) ?_ ?_
    · exact mem_insert_known ((before.ranked big).mpr bigKnown)
    · unfold rankOf
      rw [AList.lookup_insert_ne other]
    · rw [newRank, bigRank]
      exact Nat.le_succ rank
    · rw [newRank, Nat.lt_succ_iff, ← bigRank]
      exact ordered
  | false =>
    refine ⟨⟨uf.parent.insert small big, uf.rank⟩, by simp, ?_,
      fun node => mem_insert_known smallKnown,
      fun node root climbs => link_rootOf different bigRoot smallRoot climbs⟩
    exact linked _ rfl (fun _ => Iff.rfl) (fun _ _ => rfl) le_rfl
      (lt_of_le_of_ne ordered (fun equal => Bool.false_ne_true (tied equal)))

theorem Same.rootOf {uf : UnionFind Node} {first second root : Node}
    (same : uf.Same first second) (climbs : RootOf uf.parent second root) :
    RootOf uf.parent first root := by
  rcases same with rfl | ⟨top, one, other⟩
  · exact climbs
  · rwa [climbs.unique other]

theorem Same.symm {uf : UnionFind Node} {first second : Node} (same : uf.Same first second) :
    uf.Same second first :=
  same.imp Eq.symm (fun ⟨root, one, other⟩ => ⟨root, other, one⟩)

theorem Same.trans {uf : UnionFind Node} {first second third : Node}
    (before : uf.Same first second) (after : uf.Same second third) : uf.Same first third := by
  rcases after with rfl | ⟨root, one, other⟩
  · exact before
  · exact Or.inr ⟨root, before.rootOf one, other⟩

/-- Once the root `small` of `b` is below the root `big` of `a`, the two classes are joined. -/
theorem same_iff_joined {uf uf' : UnionFind Node} (before : WellFormed uf) {big small a b : Node}
    (different : big ≠ small) (known : ∀ node, node ∈ uf'.parent ↔ node ∈ uf.parent)
    (linked : ∀ node root, RootOf uf.parent node root →
      RootOf uf'.parent node (if root = small then big else root))
    (climbsA : RootOf uf.parent a big) (climbsB : RootOf uf.parent b small)
    (first second : Node) : uf'.Same first second ↔ Joined uf.Same a b first second := by
  have below {node : Node} (climbs : RootOf uf.parent node small) : RootOf uf'.parent node big := by
    have moved := linked node small climbs
    rwa [if_pos rfl] at moved
  have stays {node root : Node} (climbs : RootOf uf.parent node root) (other : root ≠ small) :
      RootOf uf'.parent node root := by
    have moved := linked node root climbs
    rwa [if_neg other] at moved
  constructor
  · rintro (equal | ⟨root, one, other⟩)
    · exact Or.inl (Or.inl equal)
    obtain ⟨rootOne, climbsOne⟩ := before.forest.exists_root first ((known first).mp one.known)
    obtain ⟨rootOther, climbsOther⟩ :=
      before.forest.exists_root second ((known second).mp other.known)
    by_cases oneSmall : rootOne = small <;> by_cases otherSmall : rootOther = small
    · subst oneSmall
      subst otherSmall
      exact Or.inl (Or.inr ⟨_, climbsOne, climbsOther⟩)
    · subst oneSmall
      have atOne := (below climbsOne).unique one
      have atOther := (stays climbsOther otherSmall).unique other
      rw [atOther, ← atOne] at climbsOther
      exact Or.inr (Or.inr ⟨Or.inr ⟨_, climbsOne, climbsB⟩, Or.inr ⟨_, climbsA, climbsOther⟩⟩)
    · subst otherSmall
      have atOne := (stays climbsOne oneSmall).unique one
      have atOther := (below climbsOther).unique other
      rw [atOne, ← atOther] at climbsOne
      exact Or.inr (Or.inl ⟨Or.inr ⟨_, climbsOne, climbsA⟩, Or.inr ⟨_, climbsB, climbsOther⟩⟩)
    · have atOne := (stays climbsOne oneSmall).unique one
      have atOther := (stays climbsOther otherSmall).unique other
      exact Or.inl (Or.inr ⟨root, atOne ▸ climbsOne, atOther ▸ climbsOther⟩)
  · rintro (same | ⟨left, right⟩ | ⟨left, right⟩)
    · exact same.imp_right (fun ⟨root, one, other⟩ => ⟨_, linked _ _ one, linked _ _ other⟩)
    · exact Or.inr ⟨big, stays (left.rootOf climbsA) different, below (right.symm.rootOf climbsB)⟩
    · exact Or.inr ⟨big, below (left.rootOf climbsB), stays (right.symm.rootOf climbsA) different⟩

/-- A union joins the classes of its nodes. -/
theorem union_spec {uf : UnionFind Node} (before : WellFormed uf) (a b : Node) :
    ∃ uf', uf.union a b = some uf' ∧ WellFormed uf' ∧
      ∀ first second, uf'.Same first second ↔ Joined uf.Same a b first second := by
  obtain ⟨ra, uf₁, found₁, formed₁, climbs₁, same₁, _⟩ := find_spec before a
  obtain ⟨rb, uf₂, found₂, formed₂, climbsB, same₂, kept₂⟩ := find_spec formed₁ b
  have climbsA : RootOf uf₂.parent a ra := kept₂ _ _ climbs₁
  have same : uf₂.Same = uf.Same :=
    funext fun first => funext fun second =>
      propext ((same₂ first second).trans (same₁ first second))
  by_cases equal : ra = rb
  · subst equal
    have ab : uf.Same a b := same ▸ Or.inr ⟨ra, climbsA, climbsB⟩
    refine ⟨uf₂, by simp [union, found₁, found₂], formed₂, fun first second => ?_⟩
    rw [same]
    refine ⟨Or.inl, ?_⟩
    rintro (joined | ⟨left, right⟩ | ⟨left, right⟩)
    · exact joined
    · exact (left.trans ab).trans right
    · exact (left.trans ab.symm).trans right
  · obtain ⟨raRank, atA⟩ := lookup_of_mem ((formed₂.ranked ra).mpr (mem_of_lookup climbsA.isRoot))
    obtain ⟨rbRank, atB⟩ := lookup_of_mem ((formed₂.ranked rb).mpr (mem_of_lookup climbsB.isRoot))
    have rankA : uf₂.rankOf ra = raRank := by rw [rankOf, atA]; rfl
    have rankB : uf₂.rankOf rb = rbRank := by rw [rankOf, atB]; rfl
    by_cases heavier : raRank ≥ rbRank
    · obtain ⟨uf', linking, formed, known, linked⟩ := link_spec formed₂
        (decide (raRank = rbRank)) equal climbsA.isRoot climbsB.isRoot
        (by rw [rankA, rankB]; exact heavier)
        (fun tied => decide_eq_true (by rw [← rankA, ← rankB, tied]))
      refine ⟨uf', by simp [union, found₁, found₂, equal, atA, atB, heavier, linking], formed,
        fun first second => ?_⟩
      rw [same_iff_joined formed₂ equal known linked climbsA climbsB, same]
    · obtain ⟨uf', linking, formed, known, linked⟩ := link_spec formed₂
        (decide (raRank = rbRank)) (Ne.symm equal) climbsB.isRoot climbsA.isRoot
        (by rw [rankA, rankB]; exact (not_le.mp heavier).le)
        (fun tied => decide_eq_true (by rw [← rankA, ← rankB, tied]))
      refine ⟨uf', by simp [union, found₁, found₂, equal, atA, atB, heavier, linking], formed,
        fun first second => ?_⟩
      rw [same_iff_joined formed₂ (Ne.symm equal) known linked climbsB climbsA, same]
      exact or_congr_right or_comm

/-! ### Sequences of unions -/

/-- A structure in which every node is its own root. -/
structure Discrete (uf : UnionFind Node) : Prop where
  self : ∀ node above, uf.parent.lookup node = some above → above = node
  ranked : ∀ node, node ∈ uf.rank ↔ node ∈ uf.parent

theorem Discrete.wellFormed {uf : UnionFind Node} (discrete : Discrete uf) : WellFormed uf := by
  refine ⟨⟨fun node above found => ?_, fun node above found moved =>
    absurd (discrete.self node above found) moved⟩, discrete.ranked⟩
  rw [discrete.self node above found]
  exact mem_of_lookup found

theorem insertRoot_discrete {uf : UnionFind Node} (discrete : Discrete uf) (node : Node) :
    Discrete (uf.insertRoot node) := by
  refine ⟨fun other above found => ?_, fun other => ?_⟩
  · unfold insertRoot at found
    by_cases here : other = node
    · subst here
      rw [AList.lookup_insert] at found
      exact (Option.some.inj found).symm
    · rw [AList.lookup_insert_ne here] at found
      exact discrete.self other above found
  · unfold insertRoot
    rw [AList.mem_insert, AList.mem_insert, discrete.ranked]

theorem new_discrete (nodes : List Node) : Discrete (new nodes) := by
  have kept (uf : UnionFind Node) (discrete : Discrete uf) :
      Discrete (nodes.foldl insertRoot uf) := by
    induction nodes generalizing uf with
    | nil => exact discrete
    | cons head rest inductionHypothesis =>
      exact inductionHypothesis _ (insertRoot_discrete discrete head)
  exact kept ⟨∅, ∅⟩ ⟨fun node above found => absurd found (by simp), fun node => by simp⟩

/-- In the discrete structure every node is alone. -/
theorem new_same (nodes : List Node) (first second : Node) :
    (new nodes).Same first second ↔ first = second := by
  refine ⟨?_, Or.inl⟩
  have own {node root : Node} (climbs : RootOf (new nodes).parent node root) : node = root := by
    cases climbs with
    | root _ _ => rfl
    | up _ above _ step moved _ => exact absurd ((new_discrete nodes).self _ _ step) moved
  rintro (equal | ⟨root, one, other⟩)
  · exact equal
  · rw [own one, own other]

omit [DecidableEq Node] in
/-- The equivalence closure after one more pair. -/
theorem eqvGen_append (pairs : List (Node × Node)) (a b first second : Node) :
    Relation.EqvGen (fun x y => (x, y) ∈ pairs ++ [(a, b)]) first second ↔
      Joined (Relation.EqvGen (fun x y => (x, y) ∈ pairs)) a b first second := by
  have old {x y : Node} (closed : Relation.EqvGen (fun x y => (x, y) ∈ pairs) x y) :
      Relation.EqvGen (fun x y => (x, y) ∈ pairs ++ [(a, b)]) x y :=
    closed.mono (fun _ _ member => List.mem_append_left _ member)
  have ab : Relation.EqvGen (fun x y => (x, y) ∈ pairs ++ [(a, b)]) a b :=
    Relation.EqvGen.rel _ _ (by simp)
  constructor
  · intro closed
    induction closed with
    | rel x y member =>
      rcases List.mem_append.mp member with earlier | last
      · exact Or.inl (Relation.EqvGen.rel _ _ earlier)
      · obtain ⟨rfl, rfl⟩ := Prod.mk.inj (List.mem_singleton.mp last)
        exact Or.inr (Or.inl ⟨Relation.EqvGen.refl _, Relation.EqvGen.refl _⟩)
    | refl x => exact Or.inl (Relation.EqvGen.refl x)
    | symm x y _ inductionHypothesis =>
      rcases inductionHypothesis with same | ⟨left, right⟩ | ⟨left, right⟩
      · exact Or.inl same.symm
      · exact Or.inr (Or.inr ⟨right.symm, left.symm⟩)
      · exact Or.inr (Or.inl ⟨right.symm, left.symm⟩)
    | trans x y z _ _ before after =>
      rcases before with one | ⟨oneLeft, oneRight⟩ | ⟨oneLeft, oneRight⟩ <;>
        rcases after with other | ⟨otherLeft, otherRight⟩ | ⟨otherLeft, otherRight⟩
      · exact Or.inl (one.trans _ _ _ other)
      · exact Or.inr (Or.inl ⟨one.trans _ _ _ otherLeft, otherRight⟩)
      · exact Or.inr (Or.inr ⟨one.trans _ _ _ otherLeft, otherRight⟩)
      · exact Or.inr (Or.inl ⟨oneLeft, oneRight.trans _ _ _ other⟩)
      · exact Or.inr (Or.inl ⟨oneLeft, otherRight⟩)
      · exact Or.inl (oneLeft.trans _ _ _ otherRight)
      · exact Or.inr (Or.inr ⟨oneLeft, oneRight.trans _ _ _ other⟩)
      · exact Or.inl (oneLeft.trans _ _ _ otherRight)
      · exact Or.inr (Or.inr ⟨oneLeft, otherRight⟩)
  · rintro (same | ⟨left, right⟩ | ⟨left, right⟩)
    · exact old same
    · exact ((old left).trans _ _ _ ab).trans _ _ _ (old right)
    · exact ((old left).trans _ _ _ (ab.symm _ _)).trans _ _ _ (old right)

omit [DecidableEq Node] in
/-- No pair is closed under equality. -/
theorem eqvGen_nil (first second : Node) :
    Relation.EqvGen (fun x y => (x, y) ∈ ([] : List (Node × Node))) first second ↔
      first = second := by
  have none : (fun x y : Node => (x, y) ∈ ([] : List (Node × Node))) ≤ (· = ·) :=
    fun _ _ member => absurd member List.not_mem_nil
  exact ⟨fun closed => eq_equivalence.eqvGen_iff.mp (closed.mono none),
    fun equal => equal ▸ Relation.EqvGen.refl _⟩

/-- One more call. -/
theorem perform_spec {uf : UnionFind Node} (before : WellFormed uf) {pairs : List (Node × Node)}
    (same : ∀ first second, uf.Same first second ↔
      Relation.EqvGen (fun x y => (x, y) ∈ pairs) first second) (call : Call Node) :
    ∃ uf', uf.perform call = some uf' ∧ WellFormed uf' ∧ ∀ first second, uf'.Same first second ↔
      Relation.EqvGen (fun x y => (x, y) ∈ pairs ++ call.joins?.toList) first second := by
  cases call with
  | find node =>
    obtain ⟨root, uf', found, formed, _, kept, _⟩ := find_spec before node
    refine ⟨uf', by simp [perform, found], formed, fun first second => ?_⟩
    rw [kept, same, Call.joins?, Option.toList_none, List.append_nil]
  | union a b =>
    obtain ⟨uf', joining, formed, joined⟩ := union_spec before a b
    refine ⟨uf', joining, formed, fun first second => ?_⟩
    have closure : uf.Same = Relation.EqvGen (fun x y => (x, y) ∈ pairs) :=
      funext fun x => funext fun y => propext (same x y)
    rw [joined, closure]
    exact (eqvGen_append pairs a b first second).symm

/-- Calls on the discrete structure leave the equivalence closure of the pairs they join. -/
theorem performAll_spec (nodes : List Node) (calls : List (Call Node)) :
    ∃ uf, performAll (new nodes) calls = some uf ∧ WellFormed uf ∧
      ∀ first second, uf.Same first second ↔
        Relation.EqvGen (fun x y => (x, y) ∈ calls.filterMap Call.joins?) first second := by
  induction calls using List.reverseRecOn with
  | nil =>
    refine ⟨new nodes, rfl, (new_discrete nodes).wellFormed, fun first second => ?_⟩
    rw [new_same, List.filterMap_nil, eqvGen_nil]
  | append_singleton calls call inductionHypothesis =>
    obtain ⟨uf, performed, formed, same⟩ := inductionHypothesis
    obtain ⟨uf', performing, formed', same'⟩ := perform_spec formed same call
    refine ⟨uf', ?_, formed', fun first second => ?_⟩
    · unfold performAll at performed ⊢
      rw [List.foldlM_append, performed]
      simp [performing]
    · rw [same', List.filterMap_append]
      cases call <;> rfl

/-- Unions from the discrete structure leave the equivalence closure of their pairs. -/
theorem unionAll_spec (nodes : List Node) (pairs : List (Node × Node)) :
    ∃ uf, unionAll (new nodes) pairs = some uf ∧ WellFormed uf ∧
      ∀ first second, uf.Same first second ↔
        Relation.EqvGen (fun x y => (x, y) ∈ pairs) first second := by
  obtain ⟨uf, performed, formed, same⟩ :=
    performAll_spec nodes (pairs.map (fun pair => Call.union pair.1 pair.2))
  have joined : (pairs.map (fun pair => Call.union pair.1 pair.2)).filterMap Call.joins? =
      pairs := by
    rw [List.filterMap_map]
    exact List.filterMap_some
  rw [joined] at same
  unfold performAll at performed
  rw [List.foldlM_map] at performed
  exact ⟨uf, performed, formed, same⟩

/-- What two calls of `find` tell is what the classes are. -/
theorem equivalent_iff {uf : UnionFind Node} (formed : WellFormed uf) (first second : Node) :
    uf.Equivalent first second ↔ uf.Same first second := by
  obtain ⟨root, found, finds, formed₁, climbs₁, same₁, _⟩ := find_spec formed first
  obtain ⟨root', found', finds', _, climbs₂, same₂, kept₂⟩ := find_spec formed₁ second
  have same : found'.Same first second ↔ uf.Same first second :=
    (same₂ first second).trans (same₁ first second)
  rw [← same]
  constructor
  · rintro ⟨top, other, other', one, two⟩
    obtain ⟨rfl, rfl⟩ := Prod.mk.inj (Option.some.inj (finds.symm.trans one))
    obtain ⟨rfl, rfl⟩ := Prod.mk.inj (Option.some.inj (finds'.symm.trans two))
    exact Or.inr ⟨_, kept₂ _ _ climbs₁, climbs₂⟩
  · intro together
    have equal : root' = root := climbs₂.unique (together.symm.rootOf (kept₂ _ _ climbs₁))
    rw [equal] at finds'
    exact ⟨root, found, found', finds, finds'⟩

/-- A node that is not a root has a rank below that of its parent. -/
theorem WellFormed.rank_lt {uf : UnionFind Node} (formed : WellFormed uf) {node above : Node}
    (step : uf.parent.lookup node = some above) (moved : above ≠ node) :
    ∃ low high, uf.rank.lookup node = some low ∧ uf.rank.lookup above = some high ∧ low < high := by
  obtain ⟨low, atNode⟩ := lookup_of_mem ((formed.ranked node).mpr (mem_of_lookup step))
  obtain ⟨high, atAbove⟩ :=
    lookup_of_mem ((formed.ranked above).mpr (formed.forest.closed node above step))
  have increasing := formed.forest.increasing node above step moved
  unfold rankOf at increasing
  rw [atNode, atAbove] at increasing
  exact ⟨low, high, atNode, atAbove, increasing⟩

end UnionFind

end Collections
