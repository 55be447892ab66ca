/-
This file collects what the crates use of the standard collections. A
`BTreeMap` is the list of its entries, strictly sorted by key, and carries the
proof of it; a `BTreeSet` is a `BTreeMap` to the unit type, as in the standard
library. A `HashMap` is an association list with distinct keys.

The order in which a hash map is iterated depends on the random seed of that
map. A `HashOrder` is one choice of such orders for a whole run: it answers
each iteration, told apart by a label, with some permutation of the entries.

What the crates build with `entry(..).or_insert(..)` is a fold over keyed items.
Its lookup is described once, for any way of adding items up, and then read for
counts, for lists and for sets.
-/

import Mathlib

namespace Collections

/-! ### Ordered maps -/

/-- `BTreeMap`: the entries in ascending order of their distinct keys. -/
structure BTreeMap (Key Value : Type) [LinearOrder Key] where
  entries : List (Key × Value)
  sorted : entries.Pairwise (fun first second => first.1 < second.1)

/-- `BTreeSet`. -/
abbrev BTreeSet (Key : Type) [LinearOrder Key] := BTreeMap Key Unit

namespace BTreeMap

variable {Key Value : Type} [LinearOrder Key]

/-- The map without entries. -/
def empty : BTreeMap Key Value := ⟨[], List.Pairwise.nil⟩

/-- The keys in ascending order. -/
def keys (map : BTreeMap Key Value) : List Key := map.entries.map Prod.fst

/-- The values in ascending order of their keys. -/
def values (map : BTreeMap Key Value) : List Value := map.entries.map Prod.snd

/-- `map.get(&key)`. -/
def get? (map : BTreeMap Key Value) (key : Key) : Option Value := map.entries.lookup key

/-- Put an entry in its place, over an entry of the same key. -/
def insertEntry (key : Key) (value : Value) : List (Key × Value) → List (Key × Value)
  | [] => [(key, value)]
  | head :: rest =>
    if key < head.1 then (key, value) :: head :: rest
    else if key = head.1 then (key, value) :: rest
    else head :: insertEntry key value rest

theorem mem_insertEntry {key : Key} {value : Value} {entries : List (Key × Value)}
    {entry : Key × Value} (member : entry ∈ insertEntry key value entries) :
    entry = (key, value) ∨ entry ∈ entries := by
  induction entries with
  | nil => exact Or.inl (List.mem_singleton.mp member)
  | cons head rest inductionHypothesis =>
    unfold insertEntry at member
    split at member
    · exact List.mem_cons.mp member
    · split at member
      · exact (List.mem_cons.mp member).imp_right (List.mem_cons_of_mem _)
      · rcases List.mem_cons.mp member with rfl | later
        · exact Or.inr List.mem_cons_self
        · exact (inductionHypothesis later).imp_right (List.mem_cons_of_mem _)

theorem insertEntry_sorted (key : Key) (value : Value) {entries : List (Key × Value)}
    (sorted : entries.Pairwise (fun first second => first.1 < second.1)) :
    (insertEntry key value entries).Pairwise (fun first second => first.1 < second.1) := by
  induction entries with
  | nil => exact List.pairwise_singleton _ _
  | cons head rest inductionHypothesis =>
    obtain ⟨headBelow, restSorted⟩ := List.pairwise_cons.mp sorted
    unfold insertEntry
    split
    · rename_i below
      refine List.pairwise_cons.mpr ⟨fun entry member => ?_, sorted⟩
      rcases List.mem_cons.mp member with rfl | later
      · exact below
      · exact below.trans (headBelow entry later)
    · split
      · rename_i equal
        exact List.pairwise_cons.mpr
          ⟨fun entry member => by rw [equal]; exact headBelow entry member, restSorted⟩
      · rename_i notBelow different
        refine List.pairwise_cons.mpr ⟨fun entry member => ?_, inductionHypothesis restSorted⟩
        rcases mem_insertEntry member with rfl | later
        · exact lt_of_le_of_ne (not_lt.mp notBelow) (Ne.symm different)
        · exact headBelow entry later

/-- `map.insert(key, value)`. -/
def insert (map : BTreeMap Key Value) (key : Key) (value : Value) : BTreeMap Key Value :=
  ⟨insertEntry key value map.entries, insertEntry_sorted key value map.sorted⟩

/-- `pairs.collect()`: a later pair overrides an earlier one of the same key. -/
def ofList (pairs : List (Key × Value)) : BTreeMap Key Value :=
  pairs.foldl (fun map pair => map.insert pair.1 pair.2) empty

theorem keys_sorted (map : BTreeMap Key Value) : map.keys.Pairwise (· < ·) :=
  List.pairwise_map.mpr map.sorted

theorem keys_nodup (map : BTreeMap Key Value) : map.keys.Nodup :=
  map.keys_sorted.imp ne_of_lt

/-- The set of some items. -/
def setOf (items : List Key) : BTreeSet Key :=
  items.foldl (fun collected item => collected.insert item ()) empty

@[simp]
theorem keys_empty : (empty : BTreeMap Key Value).keys = [] := rfl

theorem mem_keys_insertEntry {key other : Key} {value : Value} {entries : List (Key × Value)} :
    other ∈ (insertEntry key value entries).map Prod.fst ↔
      other = key ∨ other ∈ entries.map Prod.fst := by
  induction entries with
  | nil => simp [insertEntry]
  | cons head rest inductionHypothesis =>
    unfold insertEntry
    split
    · simp
    · split
      · rename_i equal
        simp [equal]
      · rw [List.map_cons, List.mem_cons, inductionHypothesis, List.map_cons, List.mem_cons]
        exact or_left_comm

@[simp]
theorem mem_keys_insert {map : BTreeMap Key Value} {key other : Key} {value : Value} :
    other ∈ (map.insert key value).keys ↔ other = key ∨ other ∈ map.keys :=
  mem_keys_insertEntry

theorem mem_foldl_insert (items : List Key) (start : BTreeSet Key) (item : Key) :
    item ∈ (items.foldl (fun collected item => collected.insert item ()) start).keys ↔
      item ∈ start.keys ∨ item ∈ items := by
  induction items generalizing start with
  | nil => simp
  | cons head rest inductionHypothesis =>
    rw [List.foldl_cons, inductionHypothesis, mem_keys_insert, List.mem_cons]
    tauto

@[simp]
theorem mem_setOf {items : List Key} {item : Key} : item ∈ (setOf items).keys ↔ item ∈ items := by
  unfold setOf
  rw [mem_foldl_insert, keys_empty]
  simp

/-- Two ordered lists of keys with the same members are one list. -/
theorem keys_ext {Other : Type} {first : BTreeMap Key Value} {second : BTreeMap Key Other}
    (same : ∀ key, key ∈ first.keys ↔ key ∈ second.keys) : first.keys = second.keys :=
  ((List.perm_ext_iff_of_nodup first.keys_nodup second.keys_nodup).mpr same).eq_of_pairwise
    (fun _ _ _ _ below above => absurd below (lt_asymm above)) first.keys_sorted second.keys_sorted

theorem lookup_insertEntry (key other : Key) (value : Value) {entries : List (Key × Value)}
    (sorted : entries.Pairwise (fun first second => first.1 < second.1)) :
    (insertEntry key value entries).lookup other =
      if other = key then some value else entries.lookup other := by
  induction entries with
  | nil =>
    unfold insertEntry
    by_cases here : other = key
    · rw [if_pos here, here, List.lookup_cons_self]
    · rw [if_neg here, List.lookup_cons, beq_false_of_ne here]
  | cons head rest inductionHypothesis =>
    obtain ⟨below, restSorted⟩ := List.pairwise_cons.mp sorted
    unfold insertEntry
    split
    · by_cases here : other = key
      · rw [if_pos here, here, List.lookup_cons_self]
      · rw [if_neg here, List.lookup_cons, beq_false_of_ne here]
    · split
      · rename_i equal
        by_cases here : other = key
        · rw [if_pos here, here, List.lookup_cons_self]
        · rw [if_neg here, List.lookup_cons, List.lookup_cons, beq_false_of_ne here,
            beq_false_of_ne (by rwa [← equal])]
      · rename_i _ different
        rw [List.lookup_cons, List.lookup_cons]
        by_cases here : other = head.1
        · rw [beq_iff_eq.mpr here, if_neg (fun equal => different (equal.symm.trans here))]
        · rw [beq_false_of_ne here]
          exact inductionHypothesis restSorted

/-- A map answers with what was inserted last. -/
theorem get?_insert (map : BTreeMap Key Value) (key other : Key) (value : Value) :
    (map.insert key value).get? other = if other = key then some value else map.get? other :=
  lookup_insertEntry key other value map.sorted

@[simp]
theorem get?_empty (key : Key) : (empty : BTreeMap Key Value).get? key = none := rfl

/-- What is stored under a key is in the one entry of the key. -/
theorem get?_eq_some (map : BTreeMap Key Value) {key : Key} {value : Value} :
    map.get? key = some value ↔ (key, value) ∈ map.entries := by
  unfold get?
  rw [List.lookup_eq_some_iff]
  constructor
  · rintro ⟨before, after, whole, _⟩
    rw [whole]
    exact List.mem_append_right _ List.mem_cons_self
  · intro member
    obtain ⟨before, after, whole⟩ := List.append_of_mem member
    have sorted := map.sorted
    rw [whole, List.pairwise_append] at sorted
    refine ⟨before, after, whole, fun entry earlier => ?_⟩
    rw [bne_iff_ne]
    exact (sorted.2.2 entry earlier _ List.mem_cons_self).ne'

theorem mem_keys_iff (map : BTreeMap Key Value) (key : Key) :
    key ∈ map.keys ↔ (map.get? key).isSome := by
  unfold keys get?
  induction map.entries with
  | nil => simp
  | cons head rest inductionHypothesis =>
    rw [List.map_cons, List.mem_cons, inductionHypothesis, List.lookup_cons]
    by_cases here : key = head.1
    · rw [beq_iff_eq.mpr here]
      simp [here]
    · rw [beq_false_of_ne here]
      simp [here]

end BTreeMap

/-! ### Hash maps -/

/-- `HashMap`: entries with distinct keys, in the order they were last written. -/
abbrev HashMap (Key Value : Type) := AList (fun _ : Key => Value)

section HashMap

variable {Key Value Item : Type} [DecidableEq Key]

/-- `*map.entry(key).or_insert(initial) = change(..)`. -/
def update (map : HashMap Key Value) (key : Key) (initial : Value) (change : Value → Value) :
    HashMap Key Value :=
  map.insert key (change ((map.lookup key).getD initial))

/-- Add each item to the value of its key, which starts out as `initial`. -/
def gather (initial : Value) (add : Value → Item → Value) (pairs : List (Key × Item)) :
    HashMap Key Value :=
  pairs.foldl (fun map pair => update map pair.1 initial (fun value => add value pair.2)) ∅

/-- The value of a key that occurs is what its items add up to, in the order they came. -/
theorem lookup_gather (initial : Value) (add : Value → Item → Value) (pairs : List (Key × Item))
    (key : Key) :
    (gather initial add pairs).lookup key =
      if key ∈ pairs.map Prod.fst then
        some (((pairs.filter (fun pair => pair.1 = key)).map Prod.snd).foldl add initial)
      else none := by
  induction pairs using List.reverseRecOn with
  | nil => rfl
  | append_singleton pairs pair inductionHypothesis =>
    have unfolded : gather initial add (pairs ++ [pair]) =
        update (gather initial add pairs) pair.1 initial (fun value => add value pair.2) := by
      unfold gather
      rw [List.foldl_append]
      rfl
    rw [unfolded, update, List.map_append, List.filter_append]
    by_cases here : key = pair.1
    · subst here
      have occurs : pair.1 ∈ pairs.map Prod.fst ++ [pair].map Prod.fst :=
        List.mem_append_right _ (List.mem_singleton.mpr rfl)
      have last : [pair].filter (fun other => other.1 = pair.1) = [pair] := by simp
      rw [AList.lookup_insert, inductionHypothesis, if_pos occurs, last, List.map_append,
        List.foldl_append]
      by_cases earlier : pair.1 ∈ pairs.map Prod.fst
      · rw [if_pos earlier]
        rfl
      · have nothing : pairs.filter (fun other => other.1 = pair.1) = [] := by
          rw [List.filter_eq_nil_iff]
          intro other member equal
          exact earlier (List.mem_map.mpr ⟨other, member, of_decide_eq_true equal⟩)
        rw [if_neg earlier, nothing]
        rfl
    · have elsewhere : [pair].filter (fun other => other.1 = key) = [] := by
        rw [List.filter_eq_nil_iff]
        intro other member equal
        rw [List.mem_singleton.mp member] at equal
        exact here (of_decide_eq_true equal).symm
      have sameKeys : key ∈ pairs.map Prod.fst ++ [pair].map Prod.fst ↔
          key ∈ pairs.map Prod.fst := by
        rw [List.mem_append]
        exact or_iff_left (fun member => here (List.mem_singleton.mp member))
      rw [AList.lookup_insert_ne here, inductionHypothesis, elsewhere, List.append_nil]
      simp only [sameKeys]

/-- Count how often each key occurs. -/
def tally (keys : List Key) : HashMap Key Nat :=
  gather 0 (fun count _ => count + 1) (keys.map (fun key => (key, ())))

theorem foldl_count {Other : Type} (items : List Other) (start : Nat) :
    items.foldl (fun count _ => count + 1) start = start + items.length := by
  induction items generalizing start with
  | nil => rfl
  | cons item rest inductionHypothesis =>
    rw [List.foldl_cons, inductionHypothesis, List.length_cons, Nat.add_assoc, Nat.add_comm 1]

/-- A key comes once for each time it is counted. -/
theorem length_filter_units [BEq Key] [LawfulBEq Key] (keys : List Key) (key : Key) :
    (((keys.map (fun key => (key, ()))).filter (fun pair => pair.1 = key)).map
      Prod.snd).length = keys.count key := by
  rw [List.length_map, List.filter_map, List.length_map, List.count, List.countP_eq_length_filter]
  exact congrArg (fun test => (keys.filter test).length)
    (funext fun other => (beq_eq_decide other key).symm)

omit [DecidableEq Key] in
theorem mem_units [BEq Key] [LawfulBEq Key] (keys : List Key) (key : Key) :
    key ∈ (keys.map (fun key => (key, ()))).map Prod.fst ↔ keys.count key ≠ 0 := by
  rw [List.map_map, Ne, List.count_eq_zero, not_not]
  exact (List.map_id keys).symm ▸ Iff.rfl

/-- The count of a key that comes; a key that never comes has none. -/
theorem lookup_tally_eq [BEq Key] [LawfulBEq Key] (keys : List Key) (key : Key) :
    (tally keys).lookup key = if keys.count key = 0 then none else some (keys.count key) := by
  unfold tally
  rw [lookup_gather, foldl_count, length_filter_units, Nat.zero_add]
  by_cases never : keys.count key = 0
  · rw [if_neg (fun member => (mem_units keys key).mp member never), if_pos never]
  · rw [if_pos ((mem_units keys key).mpr never), if_neg never]

theorem lookup_tally [BEq Key] [LawfulBEq Key] (keys : List Key) (key : Key) (count : Nat) :
    (tally keys).lookup key = some count ↔ keys.count key = count ∧ 0 < count := by
  rw [lookup_tally_eq]
  by_cases never : keys.count key = 0
  · rw [if_pos never, never]
    exact ⟨fun impossible => absurd impossible (by simp), fun both => absurd both.2 (by omega)⟩
  · rw [if_neg never, Option.some_inj]
    exact ⟨fun equal => ⟨equal, by omega⟩, And.left⟩

/-- Collect the items of each key in the order they came. -/
def collectLists (pairs : List (Key × Item)) : HashMap Key (List Item) :=
  gather [] (fun items item => items ++ [item]) pairs

theorem foldl_collect (items start : List Item) :
    items.foldl (fun collected item => collected ++ [item]) start = start ++ items := by
  induction items generalizing start with
  | nil => exact (List.append_nil start).symm
  | cons item rest inductionHypothesis =>
    rw [List.foldl_cons, inductionHypothesis, List.append_assoc]
    rfl

theorem lookup_collectLists (pairs : List (Key × Item)) (key : Key) (items : List Item) :
    (collectLists pairs).lookup key = some items ↔
      (pairs.filter (fun pair => pair.1 = key)).map Prod.snd = items ∧ items ≠ [] := by
  unfold collectLists
  rw [lookup_gather, foldl_collect, List.nil_append]
  by_cases occurs : key ∈ pairs.map Prod.fst
  · rw [if_pos occurs, Option.some_inj]
    refine ⟨fun equal => ⟨equal, ?_⟩, And.left⟩
    obtain ⟨pair, member, rfl⟩ := List.mem_map.mp occurs
    rintro rfl
    have found : pair ∈ pairs.filter (fun other => other.1 = pair.1) :=
      List.mem_filter.mpr ⟨member, decide_eq_true rfl⟩
    rw [List.map_eq_nil_iff.mp equal] at found
    exact absurd found List.not_mem_nil
  · rw [if_neg occurs]
    refine ⟨fun impossible => absurd impossible (by simp), fun both => absurd ?_ both.2⟩
    rw [← both.1, List.map_eq_nil_iff, List.filter_eq_nil_iff]
    exact fun pair member equal =>
      occurs (List.mem_map.mpr ⟨pair, member, of_decide_eq_true equal⟩)

theorem lookup_collectLists_none (pairs : List (Key × Item)) (key : Key) :
    (collectLists pairs).lookup key = none ↔ key ∉ pairs.map Prod.fst := by
  unfold collectLists
  rw [lookup_gather]
  split <;> simp_all

/-- Collect the set of the items of each key. -/
def collectSets [LinearOrder Item] (pairs : List (Key × Item)) : HashMap Key (BTreeSet Item) :=
  gather BTreeMap.empty (fun items item => items.insert item ()) pairs

/-- A collected set holds exactly the items of its key, of which there is one. -/
theorem mem_collectSets [LinearOrder Item] {pairs : List (Key × Item)} {key : Key}
    {items : BTreeSet Item} (found : (collectSets pairs).lookup key = some items) (item : Item) :
    item ∈ items.keys ↔ (key, item) ∈ pairs := by
  unfold collectSets at found
  rw [lookup_gather] at found
  split at found
  · rw [← Option.some.inj found, BTreeMap.mem_foldl_insert, BTreeMap.keys_empty]
    simp
  · exact absurd found (by simp)

theorem collectSets_isSome [LinearOrder Item] (pairs : List (Key × Item)) (key : Key) :
    ((collectSets pairs).lookup key).isSome ↔ key ∈ pairs.map Prod.fst := by
  unfold collectSets
  rw [lookup_gather]
  split <;> simp_all

/-- Insert one entry after the other. -/
def insertAll {Value : Type} (pairs : List (Key × Value)) : HashMap Key Value :=
  pairs.foldl (fun map pair => map.insert pair.1 pair.2) ∅

theorem lookup_insertAll_concat {Value : Type} (earlier : List (Key × Value)) (last : Key × Value)
    (key : Key) : (insertAll (earlier ++ [last])).lookup key =
      if key = last.1 then some last.2 else (insertAll earlier).lookup key := by
  have step : insertAll (earlier ++ [last]) = (insertAll earlier).insert last.1 last.2 :=
    List.foldl_append
  rw [step]
  split
  · rename_i here
    rw [here, AList.lookup_insert]
  · rename_i elsewhere
    rw [AList.lookup_insert_ne elsewhere]

/-- An entry of the map was inserted. -/
theorem mem_of_lookup_insertAll {Value : Type} {pairs : List (Key × Value)} {key : Key}
    {value : Value} (found : (insertAll pairs).lookup key = some value) :
    (key, value) ∈ pairs := by
  induction pairs using List.reverseRecOn with
  | nil => exact absurd found (by simp [insertAll])
  | append_singleton earlier last inductionHypothesis =>
    rw [lookup_insertAll_concat] at found
    split at found
    · rename_i here
      rw [here, ← Option.some.inj found]
      exact List.mem_append_right _ List.mem_cons_self
    · exact List.mem_append_left _ (inductionHypothesis found)

/-- A key that is only ever inserted with one value has it. -/
theorem lookup_insertAll {Value : Type} {pairs : List (Key × Value)} {key : Key}
    (agree : ∀ value value', (key, value) ∈ pairs → (key, value') ∈ pairs → value = value')
    (value : Value) : (insertAll pairs).lookup key = some value ↔ (key, value) ∈ pairs := by
  refine ⟨mem_of_lookup_insertAll, fun member => ?_⟩
  obtain ⟨other, found⟩ : ∃ other, (insertAll pairs).lookup key = some other := by
    clear agree
    induction pairs using List.reverseRecOn with
    | nil => exact absurd member List.not_mem_nil
    | append_singleton earlier last inductionHypothesis =>
      rw [lookup_insertAll_concat]
      split
      · exact ⟨_, rfl⟩
      · rename_i elsewhere
        refine inductionHypothesis ((List.mem_append.mp member).resolve_right (fun last => ?_))
        exact elsewhere (congrArg Prod.fst (List.mem_singleton.mp last))
  rw [found, agree other value (mem_of_lookup_insertAll found) member]

end HashMap

/-! ### Positions in lists -/

section Positions

variable {Item : Type} {items : List Item}

/-- Items of which no two are related are found related at one position only. -/
theorem getElem?_unique {related : Item → Item → Prop}
    (apart : items.Pairwise (fun first second => ¬ related first second))
    (symmetric : ∀ {first second}, related first second → related second first) {i j : Nat}
    {first second : Item} (atFirst : items[i]? = some first) (atSecond : items[j]? = some second)
    (both : related first second) : i = j := by
  obtain ⟨firstBound, firstEq⟩ := List.getElem?_eq_some_iff.mp atFirst
  obtain ⟨secondBound, secondEq⟩ := List.getElem?_eq_some_iff.mp atSecond
  rw [List.pairwise_iff_getElem] at apart
  rcases lt_trichotomy i j with before | same | after
  · have differ := apart i j firstBound secondBound before
    rw [firstEq, secondEq] at differ
    exact absurd both differ
  · exact same
  · have differ := apart j i secondBound firstBound after
    rw [firstEq, secondEq] at differ
    exact absurd (symmetric both) differ

/-- Two items of a list are the same or stand in its order, one way or the other. -/
theorem pairwise_either {related : Item → Item → Prop} (pairwise : items.Pairwise related)
    {first second : Item} (one : first ∈ items) (other : second ∈ items) :
    first = second ∨ related first second ∨ related second first := by
  induction items with
  | nil => exact absurd one List.not_mem_nil
  | cons item rest inductionHypothesis =>
    obtain ⟨here, later⟩ := List.pairwise_cons.mp pairwise
    rcases List.mem_cons.mp one with rfl | oneLater
    · rcases List.mem_cons.mp other with rfl | otherLater
      · exact Or.inl rfl
      · exact Or.inr (Or.inl (here second otherLater))
    · rcases List.mem_cons.mp other with rfl | otherLater
      · exact Or.inr (Or.inr (here first oneLater))
      · exact inductionHypothesis later oneLater otherLater

theorem getElem?_concat {last item : Item} {index : Nat} :
    (items ++ [last])[index]? = some item ↔
      items[index]? = some item ∨ index = items.length ∧ last = item := by
  rcases lt_trichotomy index items.length with inside | rfl | outside
  · rw [List.getElem?_append_left inside]
    exact (or_iff_left (fun both => absurd both.1 inside.ne)).symm
  · simp
  · rw [List.getElem?_eq_none (by simp; omega), List.getElem?_eq_none outside.le]
    simp [outside.ne']

theorem pairwise_concat {related : Item → Item → Prop} {last : Item}
    (before : items.Pairwise related) (here : ∀ item ∈ items, related item last) :
    (items ++ [last]).Pairwise related := by
  refine List.pairwise_append.mpr ⟨before, List.pairwise_singleton _ _, ?_⟩
  intro item member other new
  rw [List.mem_singleton.mp new]
  exact here item member

/-- Related lists have partners for all their items. -/
theorem forall₂_exists_left {Other : Type} {related : Item → Other → Prop} {others : List Other}
    (all : List.Forall₂ related items others) :
    ∀ other ∈ others, ∃ item ∈ items, related item other := by
  induction all with
  | nil => exact fun other member => absurd member List.not_mem_nil
  | cons here _ inductionHypothesis =>
    intro other member
    rcases List.mem_cons.mp member with rfl | later
    · exact ⟨_, List.mem_cons_self, here⟩
    · obtain ⟨item, inRest, holds⟩ := inductionHypothesis other later
      exact ⟨item, List.mem_cons_of_mem _ inRest, holds⟩

theorem forall₂_exists_right {Other : Type} {related : Item → Other → Prop}
    {others : List Other} (all : List.Forall₂ related items others) :
    ∀ item ∈ items, ∃ other ∈ others, related item other :=
  forall₂_exists_left all.flip

/-- A traversal that succeeds pairs every item with its result. -/
theorem forall₂_mapM {Other : Type} {compute : Item → Option Other} {others : List Other}
    (computed : items.mapM compute = some others) :
    List.Forall₂ (fun item other => compute item = some other) items others := by
  induction items generalizing others with
  | nil =>
    obtain rfl := Option.some.inj computed
    exact List.Forall₂.nil
  | cons item rest inductionHypothesis =>
    rw [List.mapM_cons] at computed
    simp only [Option.bind_eq_bind, Option.bind_eq_some_iff] at computed
    obtain ⟨other, here, later, there, equal⟩ := computed
    rw [← Option.some.inj equal]
    exact List.Forall₂.cons here (inductionHypothesis there)

/-- A traversal whose every step returns is a map. -/
theorem mapM_some {Other : Type} {compute : Item → Option Other} {value : Item → Other}
    (each : ∀ item ∈ items, compute item = some (value item)) :
    items.mapM compute = some (items.map value) := by
  induction items with
  | nil => rfl
  | cons item rest inductionHypothesis =>
    rw [List.mapM_cons, each item List.mem_cons_self,
      inductionHypothesis (fun item later => each item (List.mem_cons_of_mem _ later))]
    rfl

theorem forall₂_map_eq {Other Value : Type} {related : Item → Other → Prop} {others : List Other}
    {value : Item → Value} {otherValue : Other → Value}
    (all : List.Forall₂ related items others)
    (same : ∀ item other, related item other → value item = otherValue other) :
    items.map value = others.map otherValue := by
  induction all with
  | nil => rfl
  | cons here _ inductionHypothesis =>
    rw [List.map_cons, List.map_cons, same _ _ here, inductionHypothesis]

end Positions

/-! ### Writing into a list -/

section Writing

variable {Item Value : Type} (value : Item → Value)

theorem length_foldl_set (entries : List (Item × Nat)) (start : List Value) :
    (entries.foldl (fun written entry => written.set entry.2 (value entry.1)) start).length =
      start.length := by
  induction entries generalizing start with
  | nil => rfl
  | cons entry rest inductionHypothesis =>
    rw [List.foldl_cons, inductionHypothesis, List.length_set]

/-- Nothing is written at an index that no entry names. -/
theorem foldl_set_outside {entries : List (Item × Nat)} {start : List Value} {index : Nat}
    (outside : ∀ item, (item, index) ∉ entries) :
    (entries.foldl (fun written entry => written.set entry.2 (value entry.1)) start)[index]? =
      start[index]? := by
  induction entries generalizing start with
  | nil => rfl
  | cons entry rest inductionHypothesis =>
    rw [List.foldl_cons,
      inductionHypothesis (fun item later => outside item (List.mem_cons_of_mem _ later))]
    refine List.getElem?_set_ne (fun here => outside entry.1 ?_)
    rw [← here]
    exact List.mem_cons_self

/-- The entry that names an index is written there. -/
theorem foldl_set_inside {entries : List (Item × Nat)} {start : List Value} {item : Item}
    {index : Nat} (bound : index < start.length) (member : (item, index) ∈ entries)
    (unique : ∀ other, (other, index) ∈ entries → other = item) :
    (entries.foldl (fun written entry => written.set entry.2 (value entry.1)) start)[index]? =
      some (value item) := by
  induction entries generalizing start with
  | nil => exact absurd member List.not_mem_nil
  | cons entry rest inductionHypothesis =>
    rw [List.foldl_cons]
    by_cases later : (item, index) ∈ rest
    · exact inductionHypothesis (by rwa [List.length_set]) later
        (fun other inRest => unique other (List.mem_cons_of_mem _ inRest))
    · obtain rfl := (List.mem_cons.mp member).resolve_right later
      rw [foldl_set_outside value (fun other inRest =>
        later (unique other (List.mem_cons_of_mem _ inRest) ▸ inRest))]
      exact List.getElem?_set_self bound

end Writing

/-! ### Pairs of a list -/

/-- `for x in 0..n { for y in (x + 1)..n { (items[x], items[y]) } }`. -/
def orderedPairs {Item : Type} : List Item → List (Item × Item)
  | [] => []
  | item :: rest => rest.map (fun later => (item, later)) ++ orderedPairs rest

theorem mem_orderedPairs {Item : Type} [LinearOrder Item] {items : List Item}
    (sorted : items.Pairwise (· < ·)) (first second : Item) :
    (first, second) ∈ orderedPairs items ↔ first ∈ items ∧ second ∈ items ∧ first < second := by
  induction items with
  | nil => simp [orderedPairs]
  | cons item rest inductionHypothesis =>
    obtain ⟨below, restSorted⟩ := List.pairwise_cons.mp sorted
    rw [orderedPairs, List.mem_append, inductionHypothesis restSorted, List.mem_map, List.mem_cons,
      List.mem_cons]
    constructor
    · rintro (⟨later, member, equal⟩ | ⟨one, other, ordered⟩)
      · obtain ⟨rfl, rfl⟩ := Prod.mk.inj equal
        exact ⟨Or.inl rfl, Or.inr member, below _ member⟩
      · exact ⟨Or.inr one, Or.inr other, ordered⟩
    · rintro ⟨rfl | one, rfl | other, ordered⟩
      · exact absurd ordered (lt_irrefl _)
      · exact Or.inl ⟨second, other, rfl⟩
      · exact absurd ordered (lt_asymm (below _ one))
      · exact Or.inr ⟨one, other, ordered⟩

theorem orderedPairs_nodup {Item : Type} [LinearOrder Item] {items : List Item}
    (sorted : items.Pairwise (· < ·)) : (orderedPairs items).Nodup := by
  induction items with
  | nil => exact List.nodup_nil
  | cons item rest inductionHypothesis =>
    obtain ⟨below, restSorted⟩ := List.pairwise_cons.mp sorted
    rw [orderedPairs, List.nodup_append]
    refine ⟨?_, inductionHypothesis restSorted, ?_⟩
    · exact List.Nodup.map (fun _ _ equal => (Prod.mk.inj equal).2) (restSorted.imp ne_of_lt)
    · rintro ⟨first, second⟩ here ⟨first', second'⟩ later equal
      obtain ⟨_, _, pairEq⟩ := List.mem_map.mp here
      obtain ⟨rfl, rfl⟩ := Prod.mk.inj equal
      obtain ⟨rfl, rfl⟩ := Prod.mk.inj pairEq
      exact lt_irrefl _ (below _ ((mem_orderedPairs restSorted _ _).mp later).1)

theorem countP_product {First Second : Type} (items : List First) (others : List Second)
    (test : First × Second → Bool) :
    (items ×ˢ others).countP test =
      (items.map (fun item => others.countP (fun other => test (item, other)))).sum := by
  induction items with
  | nil => rfl
  | cons item rest inductionHypothesis =>
    rw [List.product_cons, List.countP_append, List.countP_map, inductionHypothesis,
      List.map_cons, List.sum_cons]
    rfl

/-! ### Iteration orders -/

/-- The iteration orders of all the hash maps of one run: for each map, told apart by a label,
and each number of entries, the positions in the order they are met. -/
structure HashOrder where
  positions : List Nat → Nat → List Nat
  positions_perm : ∀ label count, (positions label count).Perm (List.range count)

namespace HashOrder

/-- The order in which the entries were written. -/
def asWritten : HashOrder := ⟨fun _ count => List.range count, fun _ _ => List.Perm.refl _⟩

/-- The entries in the order the iteration meets them. -/
def arrange {Entry : Type} (order : HashOrder) (label : List Nat) (entries : List Entry) :
    List Entry :=
  (order.positions label entries.length).filterMap (fun position => entries[position]?)

/-- `for (key, value) in &map`. -/
def iterate {Key Value : Type} (order : HashOrder) (label : List Nat) (map : HashMap Key Value) :
    List (Key × Value) :=
  order.arrange label (map.entries.map (fun entry => (entry.1, entry.2)))

theorem range_filterMap_getElem? {Entry : Type} (entries : List Entry) :
    (List.range entries.length).filterMap (fun position => entries[position]?) = entries := by
  induction entries with
  | nil => rfl
  | cons entry rest inductionHypothesis =>
    rw [List.length_cons, List.range_succ_eq_map, List.filterMap_cons, List.filterMap_map]
    exact congrArg (entry :: ·) inductionHypothesis

theorem arrange_perm {Entry : Type} (order : HashOrder) (label : List Nat)
    (entries : List Entry) : (order.arrange label entries).Perm entries := by
  have perm := (order.positions_perm label entries.length).filterMap
    (fun position => entries[position]?)
  rwa [range_filterMap_getElem?] at perm

theorem mem_iterate {Key Value : Type} [DecidableEq Key] (order : HashOrder) (label : List Nat)
    (map : HashMap Key Value) (key : Key) (value : Value) :
    (key, value) ∈ order.iterate label map ↔ map.lookup key = some value := by
  unfold iterate
  rw [(order.arrange_perm label _).mem_iff, ← Option.mem_def, AList.mem_lookup_iff, List.mem_map]
  constructor
  · rintro ⟨⟨other, stored⟩, member, equal⟩
    obtain ⟨rfl, rfl⟩ := Prod.mk.inj equal
    exact member
  · exact fun member => ⟨⟨key, value⟩, member, rfl⟩

theorem iterate_perm {Key Value : Type} (order : HashOrder) (label : List Nat)
    (map : HashMap Key Value) :
    (order.iterate label map).Perm (map.entries.map (fun entry => (entry.1, entry.2))) :=
  order.arrange_perm label _

/-- What an iteration adds up to: every key of the support counts once. -/
theorem sum_iterate {Key Value : Type} [DecidableEq Key] (order : HashOrder) (label : List Nat)
    (map : HashMap Key Value) {weight : Key × Value → Nat} {total : Key → Nat}
    {support : Finset Key}
    (inside : ∀ key value, map.lookup key = some value →
      key ∈ support ∧ weight (key, value) = total key)
    (outside : ∀ key ∈ support, map.lookup key = none → total key = 0) :
    ((order.iterate label map).map weight).sum = ∑ key ∈ support, total key := by
  have weights : (map.entries.map (fun entry => (entry.1, entry.2))).map weight =
      map.keys.map total := by
    show _ = (map.entries.map Sigma.fst).map total
    rw [List.map_map, List.map_map]
    exact List.map_congr_left
      (fun entry member => (inside _ _ (AList.mem_lookup_iff.mpr member)).2)
  rw [((iterate_perm order label map).map weight).sum_eq, weights,
    ← List.sum_toFinset total map.keys_nodup]
  refine Finset.sum_subset (fun key member => ?_) (fun key member absent => outside key member ?_)
  · obtain ⟨value, found⟩ := Option.isSome_iff_exists.mp
      (AList.lookup_isSome.mpr (AList.mem_keys.mpr (List.mem_toFinset.mp member)))
    exact (inside key value found).1
  · rw [List.mem_toFinset, ← AList.mem_keys] at absent
    exact AList.lookup_eq_none.mpr absent

end HashOrder

end Collections
