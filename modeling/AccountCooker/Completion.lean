/-
This file is about computations that return: from one tape with what is asked of
the result, or from every tape, whatever the generator hands out. Drawing never
fails, so what remains are the checks: a computation in sequence returns when
its first part does and every value the first part can yield lets the second
return.
-/

import Mathlib
import AccountCooker.Random

namespace AccountCooker

namespace Draw

variable {Generator Result Next : Type}

/-! ### From one tape -/

/-- The computation returns, with a result and a tape that satisfy `post`. -/
def Returns (action : Draw Generator Result) (before : Tape Generator)
    (post : Result → Tape Generator → Prop) : Prop :=
  ∃ result after, action before = some (result, after) ∧ post result after

theorem returns_pure {value : Result} {before : Tape Generator}
    {post : Result → Tape Generator → Prop} :
    Returns (pure value) before post ↔ post value before := by
  constructor
  · rintro ⟨result, after, ran, holds⟩
    obtain ⟨rfl, rfl⟩ := pure_eq_some.mp ran
    exact holds
  · intro holds
    exact ⟨value, before, rfl, holds⟩

theorem returns_bind {first : Draw Generator Result} {second : Result → Draw Generator Next}
    {before : Tape Generator} {post : Next → Tape Generator → Prop} :
    Returns (first >>= second) before post ↔
      Returns first before (fun value middle => Returns (second value) middle post) := by
  constructor
  · rintro ⟨result, after, ran, holds⟩
    obtain ⟨value, middle, ranFirst, ranSecond⟩ := bind_eq_some.mp ran
    exact ⟨value, middle, ranFirst, result, after, ranSecond, holds⟩
  · rintro ⟨value, middle, ranFirst, result, after, ranSecond, holds⟩
    exact ⟨result, after, bind_eq_some.mpr ⟨value, middle, ranFirst, ranSecond⟩, holds⟩

theorem returns_checked {value : Option Result} {before : Tape Generator}
    {post : Result → Tape Generator → Prop} :
    Returns (checked value) before post ↔ ∃ result, value = some result ∧ post result before := by
  constructor
  · rintro ⟨result, after, ran, holds⟩
    obtain ⟨found, rfl⟩ := checked_eq_some.mp ran
    exact ⟨result, found, holds⟩
  · rintro ⟨result, found, holds⟩
    exact ⟨result, before, checked_eq_some.mpr ⟨found, rfl⟩, holds⟩

/-- A run that is known returns exactly what is known of it. -/
theorem returns_of_run {action : Draw Generator Result} {before after : Tape Generator}
    {result : Result} {post : Result → Tape Generator → Prop}
    (ran : action before = some (result, after)) :
    Returns action before post ↔ post result after := by
  constructor
  · rintro ⟨other, later, ran', holds⟩
    obtain ⟨rfl, rfl⟩ := Prod.mk.inj (Option.some.inj (ran.symm.trans ran'))
    exact holds
  · intro holds
    exact ⟨result, after, ran, holds⟩

/-- Checks one after the other are one check. -/
theorem mapM_checked {Item : Type} (items : List Item) (compute : Item → Option Result) :
    (items.mapM (fun item => checked (compute item)) : Draw Generator (List Result)) =
      checked (items.mapM compute) := by
  induction items with
  | nil => rfl
  | cons item rest inductionHypothesis =>
    rw [List.mapM_cons, List.mapM_cons, inductionHypothesis]
    funext tape
    cases compute item with
    | none => rfl
    | some result => cases rest.mapM compute <;> rfl

/-- What is known of a result may be weakened. -/
theorem Returns.mono {action : Draw Generator Result} {before : Tape Generator}
    {strong weak : Result → Tape Generator → Prop} (returns : Returns action before strong)
    (weaker : ∀ result after, strong result after → weak result after) :
    Returns action before weak := by
  obtain ⟨result, after, ran, holds⟩ := returns
  exact ⟨result, after, ran, weaker result after holds⟩

/-- The rest returns from wherever the first part can leave it. -/
theorem Returns.bind {first : Draw Generator Result} {second : Result → Draw Generator Next}
    {before : Tape Generator} {middle : Result → Tape Generator → Prop}
    {post : Next → Tape Generator → Prop} (returns : Returns first before middle)
    (returnsSecond : ∀ value tape, middle value tape → Returns (second value) tape post) :
    Returns (first >>= second) before post :=
  returns_bind.mpr (returns.mono returnsSecond)

/-- A loop returns with its invariant when every round keeps it. -/
theorem returns_foldlM {Item State : Type} {body : State → Item → Draw Generator State}
    {items : List Item} {invariant : State → Prop}
    (step : ∀ state, invariant state → ∀ item ∈ items, ∀ before,
      Returns (body state item) before (fun next _ => invariant next))
    {state : State} (start : invariant state) (before : Tape Generator) :
    Returns (items.foldlM body state) before (fun last _ => invariant last) := by
  induction items generalizing state before with
  | nil => exact returns_pure.mpr start
  | cons item rest inductionHypothesis =>
    rw [List.foldlM_cons]
    refine Returns.bind (step state start item List.mem_cons_self before) ?_
    intro next tape holds
    exact inductionHypothesis
      (fun state holds item member => step state holds item (List.mem_cons_of_mem _ member))
      holds tape

/-- A loop returns when its state pays for every round out of what is left of a supply. -/
theorem returns_foldlM_paying {Item State : Type} {body : State → Item → Draw Generator State}
    {items : List Item} (supplied : Nat → State → Prop) (cost : Nat)
    (step : ∀ left state, supplied (left + cost) state → ∀ item ∈ items, ∀ before,
      Returns (body state item) before (fun next _ => supplied left next))
    {left : Nat} {state : State} (start : supplied (left + items.length * cost) state)
    (before : Tape Generator) :
    Returns (items.foldlM body state) before (fun last _ => supplied left last) := by
  induction items generalizing state before with
  | nil =>
    rw [List.length_nil, Nat.zero_mul] at start
    exact returns_pure.mpr start
  | cons item rest inductionHypothesis =>
    rw [List.length_cons, Nat.succ_mul, ← Nat.add_assoc] at start
    rw [List.foldlM_cons]
    refine Returns.bind (step _ state start item List.mem_cons_self before) ?_
    intro next tape holds
    exact inductionHypothesis
      (fun left state holds item member => step left state holds item
        (List.mem_cons_of_mem _ member))
      holds tape

/-! ### From every tape -/

/-- The computation returns from every tape. -/
def Total (action : Draw Generator Result) : Prop :=
  ∀ before, ∃ result after, action before = some (result, after)

theorem total_pure (value : Result) : Total (pure value : Draw Generator Result) :=
  fun before => ⟨value, before, rfl⟩

theorem total_checked {value : Option Result} {result : Result} (passes : value = some result) :
    Total (checked value : Draw Generator Result) :=
  fun before => ⟨result, before, checked_eq_some.mpr ⟨passes, rfl⟩⟩

theorem total_sample (draw : Generator → Result × Generator) : Total (sample draw) :=
  fun _ => ⟨_, _, rfl⟩

theorem Total.bind {first : Draw Generator Result} {second : Result → Draw Generator Next}
    {middle : List AccountId → Result → Prop} (total : Total first) (yields : Yields first middle)
    (totalSecond : ∀ ids value, middle ids value → Total (second value)) :
    Total (first >>= second) := by
  intro before
  obtain ⟨value, between, ran⟩ := total before
  obtain ⟨ids, _, holds⟩ := yields before value between ran
  obtain ⟨result, after, ranSecond⟩ := totalSecond ids value holds between
  exact ⟨result, after, bind_eq_some.mpr ⟨value, between, ran, ranSecond⟩⟩

/-- A computation whose value does not matter for what follows. -/
theorem Total.then {first : Draw Generator Result} {second : Result → Draw Generator Next}
    (total : Total first) (totalSecond : ∀ value, Total (second value)) :
    Total (first >>= second) := by
  intro before
  obtain ⟨value, between, ran⟩ := total before
  obtain ⟨result, after, ranSecond⟩ := totalSecond value between
  exact ⟨result, after, bind_eq_some.mpr ⟨value, between, ran, ranSecond⟩⟩

/-- A computation that always returns does so with what it can yield. -/
theorem Total.returns {action : Draw Generator Result} {post : Result → Prop}
    (total : Total action) (silent : Silent action post) (before : Tape Generator) :
    Returns action before (fun result _ => post result) := by
  obtain ⟨result, after, ran⟩ := total before
  obtain ⟨_, _, _, holds⟩ := silent before result after ran
  exact ⟨result, after, ran, holds⟩

theorem Total.map {action : Draw Generator Result} (total : Total action)
    (transform : Result → Next) : Total (transform <$> action) := by
  intro before
  obtain ⟨value, after, ran⟩ := total before
  exact ⟨transform value, after, map_eq_some.mpr ⟨value, ran, rfl⟩⟩

/-- A loop whose rounds return from every state. -/
theorem total_foldlM_always {Item State : Type} {body : State → Item → Draw Generator State}
    {items : List Item} (always : ∀ state, ∀ item ∈ items, Total (body state item))
    (state : State) : Total (items.foldlM body state) := by
  induction items generalizing state with
  | nil => exact total_pure state
  | cons item rest inductionHypothesis =>
    rw [List.foldlM_cons]
    exact Total.then (always state item List.mem_cons_self) (inductionHypothesis
      (fun state item member => always state item (List.mem_cons_of_mem _ member)))

theorem total_mapM {Item : Type} {body : Item → Draw Generator Result} {items : List Item}
    (total : ∀ item, Total (body item)) : Total (items.mapM body) := by
  induction items with
  | nil => exact total_pure []
  | cons item rest inductionHypothesis =>
    rw [List.mapM_cons]
    exact Total.then (total item) (fun value =>
      Total.then inductionHypothesis (fun values => total_pure (value :: values)))

variable [Rng Generator]

theorem total_random : Total (random : Draw Generator Float) := total_sample _

theorem total_randomRange (type : IntegerType) {low high : Int} (ordered : low ≤ high) :
    Total (randomRange type low high : Draw Generator Int) := by
  unfold randomRange
  rw [if_pos ordered]
  exact total_sample _

theorem total_randomRangeNat (type : IntegerType) {low high : Nat} (ordered : low ≤ high) :
    Total (randomRangeNat type low high : Draw Generator Nat) :=
  (total_randomRange type (Int.ofNat_le.mpr ordered)).map Int.toNat

theorem total_randomIndex {length : Nat} (positive : 0 < length) :
    Total (randomIndex length : Draw Generator Nat) := by
  unfold randomIndex
  rw [if_pos positive]
  exact total_randomRangeNat _ (Nat.zero_le _)

theorem total_randomAccount : Total (randomAccount : Draw Generator AccountId) :=
  fun _ => ⟨_, _, rfl⟩

theorem returns_randomRangeNat (type : IntegerType) {low high : Nat} (ordered : low ≤ high)
    (before : Tape Generator) :
    Returns (randomRangeNat type low high : Draw Generator Nat) before
      (fun value _ => low ≤ value ∧ value ≤ high) :=
  (total_randomRangeNat type ordered).returns (yields_randomRangeNat type low high) before

theorem randomIndex_returns {length : Nat} (positive : 0 < length) (before : Tape Generator) :
    Returns (randomIndex length : Draw Generator Nat) before (fun index _ => index < length) :=
  (total_randomIndex positive).returns (yields_randomIndex length) before

end Draw

end AccountCooker
