/-
This file relates two ways of grouping items. A program sorts them and cuts the
sorted list between neighbours; a specification takes the classes of the items
that chains of near items join. Where a cut is never bridged by two near items,
one on either side, the two agree, and the order in which the items came does
not matter. The program cuts with two nested loops, which split a list as `splitBy`
does. It names nothing of the program.
-/

import Mathlib

namespace Collections

section Scans

variable {Item : Type}

/-- `while i < len && continues(first, previous, items[i]) { previous = items[i]; i += 1; }`:
the items of the run, and those left. -/
def scanRun (continues : Item → Item → Item → Bool) (first previous : Item) :
    List Item → List Item × List Item
  | [] => ([], [])
  | item :: rest =>
    if continues first previous item then
      let (run, left) := scanRun continues first item rest
      (item :: run, left)
    else ([], item :: rest)

/-- `while i < len { .. }` with the loop above in its body: one group a run. Every round takes
an item, so the length of the list is enough fuel. -/
def scanRuns (continues : Item → Item → Item → Bool) : (fuel : Nat) → List Item → List (List Item)
  | 0, _ => []
  | _ + 1, [] => []
  | fuel + 1, first :: rest =>
    let (run, left) := scanRun continues first first rest
    (first :: run) :: scanRuns continues fuel left

/-- The groups of two nested loops. -/
def runsBy (continues : Item → Item → Item → Bool) (items : List Item) : List (List Item) :=
  scanRuns continues items.length items

variable {continues : Item → Item → Item → Bool} {linked : Item → Item → Bool}

variable (continues) in
theorem scanRun_append (first previous : Item) (items : List Item) :
    (scanRun continues first previous items).1 ++ (scanRun continues first previous items).2 =
      items := by
  induction items generalizing previous with
  | nil => rfl
  | cons item rest inductionHypothesis =>
    unfold scanRun
    split
    · exact congrArg (item :: ·) (inductionHypothesis item)
    · rfl

/-- A loop that looks at the first item of a run and at the last one splits as comparing
neighbours does, as long as `joined` tells it what the first item is good for. -/
theorem runsBy_eq_splitBy (joined : Item → Item → Prop) (reflexive : ∀ item, joined item item)
    (compares : ∀ first previous item, joined first previous →
      continues first previous item = linked previous item)
    (stays : ∀ first previous item, joined first previous → linked previous item = true →
      joined first item) (items : List Item) :
    runsBy continues items = items.splitBy linked := by
  -- One run is a chain that the item after it does not continue.
  have run (first previous : Item) (here : joined first previous) (items : List Item) :
      (previous :: (scanRun continues first previous items).1).IsChain
        (fun x y => linked x y = true) ∧
      ∀ last ∈ (previous :: (scanRun continues first previous items).1).getLast?,
        ∀ next ∈ (scanRun continues first previous items).2.head?, linked last next = false := by
    induction items generalizing previous with
    | nil => exact ⟨List.isChain_singleton _, fun _ _ _ head => absurd head (by simp [scanRun])⟩
    | cons item rest inductionHypothesis =>
      have test := compares first previous item here
      unfold scanRun
      split
      · rename_i continued
        rw [test] at continued
        obtain ⟨chain, cut⟩ := inductionHypothesis item (stays first previous item here continued)
        refine ⟨List.isChain_cons_cons.mpr ⟨continued, chain⟩, fun last atLast => ?_⟩
        rw [List.getLast?_cons_cons] at atLast
        exact cut last atLast
      · rename_i stopped
        rw [test, Bool.not_eq_true] at stopped
        refine ⟨List.isChain_singleton _, fun last atLast next atNext => ?_⟩
        rw [List.getLast?_singleton, Option.mem_some_iff] at atLast
        rw [List.head?_cons, Option.mem_some_iff] at atNext
        rw [← atLast, ← atNext]
        exact stopped
  have scan (fuel : Nat) (items : List Item) (enough : items.length ≤ fuel) :
      scanRuns continues fuel items = items.splitBy linked := by
    induction fuel generalizing items with
    | zero =>
      rw [List.eq_nil_of_length_eq_zero (Nat.le_zero.mp enough)]
      rfl
    | succ fuel inductionHypothesis =>
      cases items with
      | nil => rfl
      | cons first rest =>
        obtain ⟨chain, cut⟩ := run first first (reflexive first) rest
        have whole := scanRun_append continues first first rest
        have shorter : (scanRun continues first first rest).2.length ≤ fuel := by
          have lengths := congrArg List.length whole
          rw [List.length_append] at lengths
          rw [List.length_cons] at enough
          omega
        have split := List.splitBy_append (r := linked)
          (l := first :: (scanRun continues first first rest).1)
          (m := (scanRun continues first first rest).2) cut
        rw [List.cons_append, whole, List.splitBy_of_isChain (List.cons_ne_nil _ _) chain] at split
        rw [split, ← inductionHypothesis _ shorter]
        rfl
  exact scan items.length items le_rfl

/-- Splitting commutes with a map that the test does not see. -/
theorem splitBy_map {Image : Type} (image : Item → Image) (linked : Image → Image → Bool)
    (items : List Item) : (items.map image).splitBy linked =
      (items.splitBy (fun x y => linked (image x) (image y))).map (List.map image) := by
  have flat : items.map image =
      ((items.splitBy (fun x y => linked (image x) (image y))).map (List.map image)).flatten := by
    rw [← List.map_flatten, List.flatten_splitBy]
  rw [flat]
  refine List.splitBy_flatten (fun empty => ?_) (fun group member => ?_) ?_
  · obtain ⟨group, member, nothing⟩ := List.mem_map.mp empty
    exact List.ne_nil_of_mem_splitBy member (List.map_eq_nil_iff.mp nothing)
  · obtain ⟨group, inSplit, rfl⟩ := List.mem_map.mp member
    exact (List.isChain_map image).mpr (List.isChain_of_mem_splitBy inSplit)
  · rw [List.isChain_map]
    refine (List.isChain_getLast_head_splitBy _ items).imp (fun {group next} cut => ?_)
    obtain ⟨some, other, unlinked⟩ := cut
    refine ⟨fun nothing => some (List.map_eq_nil_iff.mp nothing),
      fun nothing => other (List.map_eq_nil_iff.mp nothing), ?_⟩
    rw [List.getLast_map, List.head_map]
    exact unlinked

/-- Splitting asks nothing but what its test says of the items of the list. -/
theorem splitBy_congr {other : Item → Item → Bool} {items : List Item}
    (same : ∀ x ∈ items, ∀ y ∈ items, linked x y = other x y) :
    items.splitBy linked = items.splitBy other := by
  have inside {group : List Item} (member : group ∈ items.splitBy linked) {item : Item}
      (one : item ∈ group) : item ∈ items := by
    rw [← List.flatten_splitBy linked items]
    exact List.mem_flatten.mpr ⟨group, member, one⟩
  have split := List.splitBy_flatten (r := other) (List.nil_notMem_splitBy linked items)
    (fun group member => (List.isChain_of_mem_splitBy member).imp_of_mem_imp
      (fun x y one two link => (same x (inside member one) y (inside member two)) ▸ link))
    ((List.isChain_getLast_head_splitBy linked items).imp_of_mem_imp
      (fun group next member after cut => by
        obtain ⟨some, nonempty, unlinked⟩ := cut
        refine ⟨some, nonempty, ?_⟩
        rw [← same _ (inside member (List.getLast_mem some)) _
          (inside after (List.head_mem nonempty))]
        exact unlinked))
  rw [List.flatten_splitBy] at split
  exact split.symm

end Scans

section Chains

variable {Item : Type}

/-- Two items are joined by a chain of items, each near the next. -/
def Chained (near : Item → Item → Prop) (items : Finset Item) : Item → Item → Prop :=
  Relation.EqvGen (fun first second => first ∈ items ∧ second ∈ items ∧ near first second)

/-- Neighbours that are linked are near, and near items are never on two sides of a cut. -/
structure Cuts (before near : Item → Item → Prop) (linked : Item → Item → Bool) : Prop where
  neighbours : ∀ x y, before x y → linked x y = true → near x y
  bridged : ∀ u x y v, (u = x ∨ before u x) → before x y → (y = v ∨ before y v) →
    near u v ∨ near v u → linked x y = true

/-- Cuts between the images of items are cuts between the items. -/
theorem Cuts.comap {Image : Type} {before near : Image → Image → Prop}
    {linked : Image → Image → Bool} (cuts : Cuts before near linked) (image : Item → Image) :
    Cuts (fun x y => before (image x) (image y)) (fun x y => near (image x) (image y))
      (fun x y => linked (image x) (image y)) where
  neighbours x y := cuts.neighbours (image x) (image y)
  bridged _ _ _ _ below split above close := cuts.bridged _ _ _ _
    (below.imp_left (congrArg image)) split (above.imp_left (congrArg image)) close

/-- Edges that a retraction collapses join no two items it fixes. -/
theorem eqvGen_retract {related collapsed : Item → Item → Prop} (retract : Item → Item)
    (fixed : ∀ x y, related x y → retract x = x ∧ retract y = y)
    (collapses : ∀ x y, collapsed x y → retract x = retract y) {first second : Item}
    (one : retract first = first) (other : retract second = second) :
    Relation.EqvGen (fun x y => collapsed x y ∨ related x y) first second ↔
      Relation.EqvGen related first second := by
  constructor
  · intro joined
    have equivalence := (Relation.EqvGen.is_equivalence related).comap retract
    have images := equivalence.eqvGen_iff.mp (joined.mono (fun x y either => by
      rcases either with edge | edge
      · show Relation.EqvGen related (retract x) (retract y)
        rw [collapses x y edge]
        exact Relation.EqvGen.refl _
      · show Relation.EqvGen related (retract x) (retract y)
        rw [(fixed x y edge).1, (fixed x y edge).2]
        exact Relation.EqvGen.rel _ _ edge))
    have joinedImages : Relation.EqvGen related (retract first) (retract second) := images
    rwa [one, other] at joinedImages
  · exact fun joined => joined.mono (fun _ _ => Or.inr)

variable {before near : Item → Item → Prop} {linked : Item → Item → Bool}

/-- Items of different groups are not near. -/
theorem Cuts.apart (cuts : Cuts before near linked) {groups : List (List Item)}
    (inhabited : [] ∉ groups) (sorted : groups.flatten.Pairwise before)
    (cut : groups.IsChain (fun group next => ∃ (some : group ≠ []) (other : next ≠ []),
      linked (group.getLast some) (next.head other) = false)) :
    groups.Pairwise (fun group other => ∀ u ∈ group, ∀ v ∈ other, ¬ near u v ∧ ¬ near v u) := by
  induction groups with
  | nil => exact List.Pairwise.nil
  | cons group rest inductionHypothesis =>
    rw [List.flatten_cons, List.pairwise_append] at sorted
    obtain ⟨groupSorted, restSorted, across⟩ := sorted
    refine List.pairwise_cons.mpr ⟨fun other member u inGroup v inOther => ?_,
      inductionHypothesis (fun empty => inhabited (List.mem_cons_of_mem _ empty)) restSorted
        cut.tail⟩
    cases rest with
    | nil => exact absurd member List.not_mem_nil
    | cons next later =>
      obtain ⟨⟨some, nonempty, unlinked⟩, _⟩ := List.isChain_cons_cons.mp cut
      -- `u` is at most the last item before the cut, and `v` at least the first after it.
      have below : u = group.getLast some ∨ before u (group.getLast some) := by
        rw [← List.dropLast_append_getLast some, List.mem_append] at inGroup
        rw [← List.dropLast_append_getLast some, List.pairwise_append] at groupSorted
        rcases inGroup with earlier | last
        · exact Or.inr (groupSorted.2.2 u earlier _ (List.mem_singleton.mpr rfl))
        · exact Or.inl (List.mem_singleton.mp last)
      have above : next.head nonempty = v ∨ before (next.head nonempty) v := by
        have inRest : v ∈ (next :: later).flatten := List.mem_flatten.mpr ⟨other, member, inOther⟩
        rw [List.flatten_cons, ← List.cons_head_tail nonempty,
          List.cons_append] at inRest restSorted
        rcases List.mem_cons.mp inRest with first | after
        · exact Or.inl first.symm
        · exact Or.inr ((List.pairwise_cons.mp restSorted).1 v after)
      have split := across _ (List.getLast_mem some) (next.head nonempty)
        (List.mem_flatten.mpr ⟨next, List.mem_cons_self, List.head_mem nonempty⟩)
      have bridge := cuts.bridged u _ _ v below split above
      rw [unlinked] at bridge
      exact ⟨fun close => Bool.false_ne_true (bridge (Or.inl close)),
        fun close => Bool.false_ne_true (bridge (Or.inr close))⟩

/-- The items of one group are joined by a chain. -/
theorem Cuts.chained (cuts : Cuts before near linked) {items : Finset Item} {group : List Item}
    (sorted : group.Pairwise before) (chain : group.IsChain (fun x y => linked x y = true))
    (inside : ∀ item ∈ group, item ∈ items) {first second : Item} (one : first ∈ group)
    (other : second ∈ group) : Chained near items first second := by
  have fromHead (head : Item) (rest : List Item) (sorted : (head :: rest).Pairwise before)
      (chain : (head :: rest).IsChain (fun x y => linked x y = true))
      (inside : ∀ item ∈ head :: rest, item ∈ items) :
      ∀ item ∈ rest, Chained near items head item := by
    induction rest generalizing head with
    | nil => exact fun item member => absurd member List.not_mem_nil
    | cons next later inductionHypothesis =>
      obtain ⟨link, chainLater⟩ := List.isChain_cons_cons.mp chain
      obtain ⟨below, sortedLater⟩ := List.pairwise_cons.mp sorted
      have step : Chained near items head next :=
        Relation.EqvGen.rel _ _ ⟨inside head List.mem_cons_self,
          inside next (List.mem_cons_of_mem _ List.mem_cons_self),
          cuts.neighbours _ _ (below next List.mem_cons_self) link⟩
      intro item member
      rcases List.mem_cons.mp member with rfl | after
      · exact step
      · exact step.trans _ _ _ (inductionHypothesis next sortedLater chainLater
          (fun item member => inside item (List.mem_cons_of_mem _ member)) item after)
  cases group with
  | nil => exact absurd one List.not_mem_nil
  | cons head rest =>
    have reach {item : Item} (member : item ∈ head :: rest) : Chained near items head item := by
      rcases List.mem_cons.mp member with rfl | later
      · exact Relation.EqvGen.refl _
      · exact fromHead head rest sorted chain inside item later
    exact (reach one).symm.trans _ _ _ (reach other)

variable [DecidableEq Item]

open Classical in
/-- The classes of the items that chains join. -/
noncomputable def chainClasses (near : Item → Item → Prop) (items : Finset Item) :
    Finset (Finset Item) :=
  items.image (fun item => items.filter (Chained near items item))

/-- The class of an item is the only one it is in. -/
theorem mem_class_iff {items set : Finset Item} (member : set ∈ chainClasses near items)
    {item : Item} (inside : item ∈ set) :
    ∀ other : Item, other ∈ set ↔ other ∈ items ∧ Chained near items item other := by
  classical
  obtain ⟨first, _, rfl⟩ := Finset.mem_image.mp member
  rw [Finset.mem_filter] at inside
  intro other
  rw [Finset.mem_filter]
  exact and_congr_right fun _ =>
    ⟨fun chained => (inside.2.symm).trans _ _ _ chained,
      fun chained => inside.2.trans _ _ _ chained⟩

theorem chainClasses_unique {items set other : Finset Item} (one : set ∈ chainClasses near items)
    (two : other ∈ chainClasses near items) {item : Item} (inSet : item ∈ set)
    (inOther : item ∈ other) : set = other := by
  ext member
  rw [mem_class_iff one inSet, mem_class_iff two inOther]

theorem chainClasses_subset {items set : Finset Item} (member : set ∈ chainClasses near items) :
    set ⊆ items := by
  classical
  obtain ⟨first, _, rfl⟩ := Finset.mem_image.mp member
  exact Finset.filter_subset _ _

/-- Where no two items are near, every item is alone in its class. -/
theorem chainClasses_alone {items set : Finset Item} (member : set ∈ chainClasses near items)
    (apart : ∀ x ∈ items, ∀ y ∈ items, ¬ near x y) {first second : Item} (one : first ∈ set)
    (other : second ∈ set) : first = second := by
  have chained := ((mem_class_iff member one) second).mp other
  exact eq_equivalence.eqvGen_iff.mp (chained.2.mono
    (fun x y close => absurd close.2.2 (apart x close.1 y close.2.1)))

omit [DecidableEq Item] in
/-- Without repetitions, no item is in two groups. -/
theorem splitBy_disjoint (linked : Item → Item → Bool) {items : List Item} (nodup : items.Nodup) :
    (items.splitBy linked).Pairwise List.Disjoint := by
  rw [← List.flatten_splitBy linked items, List.nodup_flatten] at nodup
  exact nodup.2

omit [DecidableEq Item] in
/-- Where every item is near itself, its repetitions are in its group. -/
theorem Cuts.splitBy_disjoint (cuts : Cuts before near linked) (itself : ∀ item, near item item)
    {items : List Item} (sorted : items.Pairwise before) :
    (items.splitBy linked).Pairwise List.Disjoint := by
  refine (cuts.apart (List.nil_notMem_splitBy linked items)
    (by rwa [List.flatten_splitBy linked items])
    (List.isChain_getLast_head_splitBy linked items)).imp ?_
  exact fun far item one other => (far item one item other).1 (itself item)

/-- Disjoint groups of a list are pairwise different sets. -/
theorem splitBy_sets_nodup {items : List Item}
    (disjoint : (items.splitBy linked).Pairwise List.Disjoint) :
    ((items.splitBy linked).map List.toFinset).Nodup := by
  refine List.pairwise_map.mpr (disjoint.imp_of_mem ?_)
  intro first second member _ apart equal
  obtain ⟨item, inside⟩ := List.exists_mem_of_ne_nil first (List.ne_nil_of_mem_splitBy member)
  refine apart inside ?_
  rw [← List.mem_toFinset, ← equal, List.mem_toFinset]
  exact inside

open Classical in
/-- The groups of a sorted list are the classes. -/
theorem splitBy_classes (cuts : Cuts before near linked) {items : List Item}
    (sorted : items.Pairwise before)
    (disjoint : (items.splitBy linked).Pairwise List.Disjoint) :
    ((items.splitBy linked).map List.toFinset).toFinset = chainClasses near items.toFinset := by
  have flat := List.flatten_splitBy linked items
  have inside {group : List Item} (member : group ∈ items.splitBy linked) :
      group.Sublist items := by
    rw [← flat]
    exact List.sublist_flatten_of_mem member
  have apart := cuts.apart (List.nil_notMem_splitBy linked items) (by rwa [flat])
    (List.isChain_getLast_head_splitBy linked items)
  have unique {group other : List Item} (member : group ∈ items.splitBy linked)
      (otherMember : other ∈ items.splitBy linked) {item : Item} (one : item ∈ group)
      (two : item ∈ other) : group = other := by
    by_contra different
    have symmetric : Std.Symm (@List.Disjoint Item) := ⟨fun _ _ => List.Disjoint.symm⟩
    exact disjoint.forall member otherMember different one two
  -- Near items share every group, so that chained items do.
  have shared (first second : Item) (chained : Chained near items.toFinset first second) :
      ∀ group ∈ items.splitBy linked, first ∈ group ↔ second ∈ group := by
    have equivalence : Equivalence (fun x y : Item =>
        ∀ group ∈ items.splitBy linked, x ∈ group ↔ y ∈ group) :=
      ⟨fun _ _ _ => Iff.rfl, fun same group member => (same group member).symm,
        fun one other group member => (one group member).trans (other group member)⟩
    refine equivalence.eqvGen_iff.mp (chained.mono (fun x y close => ?_))
    obtain ⟨xItem, yItem, close⟩ := close
    rw [List.mem_toFinset, ← flat, List.mem_flatten] at xItem yItem
    obtain ⟨xGroup, xMember, xInside⟩ := xItem
    obtain ⟨yGroup, yMember, yInside⟩ := yItem
    have together : xGroup = yGroup := by
      by_contra different
      have symmetric : Std.Symm (fun group other : List Item =>
          ∀ u ∈ group, ∀ v ∈ other, ¬ near u v ∧ ¬ near v u) :=
        ⟨fun _ _ far u inOther v inGroup => (far v inGroup u inOther).symm⟩
      exact (apart.forall xMember yMember different x xInside y yInside).1 close
    subst together
    intro group member
    exact ⟨fun xAlso => unique member xMember xAlso xInside ▸ yInside,
      fun yAlso => unique member xMember yAlso yInside ▸ xInside⟩
  have reached {group : List Item} (member : group ∈ items.splitBy linked) {first : Item}
      (one : first ∈ group) :
      group.toFinset = items.toFinset.filter (Chained near items.toFinset first) := by
    ext second
    rw [List.mem_toFinset, Finset.mem_filter, List.mem_toFinset]
    constructor
    · intro other
      exact ⟨(inside member).subset other, cuts.chained (sorted.sublist (inside member))
        (List.isChain_of_mem_splitBy member)
        (fun item within => List.mem_toFinset.mpr ((inside member).subset within)) one other⟩
    · rintro ⟨_, chained⟩
      exact (shared first second chained group member).mp one
  ext set
  simp only [chainClasses, List.mem_toFinset, List.mem_map, Finset.mem_image]
  constructor
  · rintro ⟨group, member, rfl⟩
    obtain ⟨first, one⟩ := List.exists_mem_of_ne_nil group (List.ne_nil_of_mem_splitBy member)
    exact ⟨first, (inside member).subset one, (reached member one).symm⟩
  · rintro ⟨first, one, rfl⟩
    rw [← flat, List.mem_flatten] at one
    obtain ⟨group, member, within⟩ := one
    exact ⟨group, member, reached member within⟩

open Classical in
/-- Two items are in one group exactly when a chain joins them. -/
theorem together_iff (cuts : Cuts before near linked) {items : List Item}
    (sorted : items.Pairwise before)
    (disjoint : (items.splitBy linked).Pairwise List.Disjoint) {first second : Item}
    (inside : first ∈ items) :
    (∃ group ∈ items.splitBy linked, first ∈ group ∧ second ∈ group) ↔
      second ∈ items ∧ Chained near items.toFinset first second := by
  have classes := splitBy_classes cuts sorted disjoint
  have ofGroup {group : List Item} (member : group ∈ items.splitBy linked) :
      group.toFinset ∈ chainClasses near items.toFinset := by
    rw [← classes, List.mem_toFinset]
    exact List.mem_map_of_mem member
  constructor
  · rintro ⟨group, member, one, other⟩
    have both := (mem_class_iff (ofGroup member) (List.mem_toFinset.mpr one) second).mp
      (List.mem_toFinset.mpr other)
    exact ⟨List.mem_toFinset.mp both.1, both.2⟩
  · rintro ⟨other, chained⟩
    rw [← List.flatten_splitBy linked items, List.mem_flatten] at inside
    obtain ⟨group, member, one⟩ := inside
    refine ⟨group, member, one, List.mem_toFinset.mp ?_⟩
    exact (mem_class_iff (ofGroup member) (List.mem_toFinset.mpr one) second).mpr
      ⟨List.mem_toFinset.mpr other, chained⟩

/-- Adding up over the groups is adding up over the classes. -/
theorem sum_splitBy (cuts : Cuts before near linked) {items : List Item}
    (sorted : items.Pairwise before)
    (disjoint : (items.splitBy linked).Pairwise List.Disjoint) (weight : Finset Item → Nat) :
    ((items.splitBy linked).map (fun group => weight group.toFinset)).sum =
      ∑ group ∈ chainClasses near items.toFinset, weight group := by
  rw [← splitBy_classes cuts sorted disjoint,
    List.sum_toFinset weight (splitBy_sets_nodup disjoint), List.map_map]
  rfl

/-- What holds of some group holds of some class. -/
theorem exists_splitBy (cuts : Cuts before near linked) {items : List Item}
    (sorted : items.Pairwise before)
    (disjoint : (items.splitBy linked).Pairwise List.Disjoint) (holds : Finset Item → Prop) :
    (∃ group ∈ items.splitBy linked, holds group.toFinset) ↔
      ∃ group ∈ chainClasses near items.toFinset, holds group := by
  rw [← splitBy_classes cuts sorted disjoint]
  simp

end Chains

end Collections
