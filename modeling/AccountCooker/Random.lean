/-
This file models the random draws. A generator is any type with the operations
the crates call on it; what they may rely on are the documented ranges. The
generator is one stream: every draw moves it on, whatever the draw is for.

An engine is a computation in `Draw`: it threads the generator and may panic.
Along with the generator goes the list of the account identifiers handed out,
so that one can speak of the runs whose identifiers are pairwise distinct. It is
bookkeeping: no computation reads it, and it is not part of any state.

The two elementary functions the sampling needs, `ln` and `exp`, come from the
platform's mathematical library and stay parameters.
-/

import Mathlib
import AccountCooker.Ledger

namespace AccountCooker

/-! ### Generators -/

/-- The integer types a range is sampled at; each consumes the generator in its own way. -/
inductive IntegerType
  | i32
  | i64
  | u64
  | usize
deriving DecidableEq

/-- A seedable generator with the sampling operations the crates use. -/
class Rng (Generator : Type) where
  seedFromU64 : Nat → Generator
  /-- `rng.random::<f64>()`. -/
  random : Generator → Float × Generator
  /-- `rng.random_range(low..=high)` of a nonempty range. -/
  randomRange : IntegerType → Int → Int → Generator → Int × Generator
  /-- `rng.fill_bytes` on thirty-two bytes. -/
  fillBytes : Generator → AccountId × Generator
  /-- `LogNormal::new(mean, deviation)`, then `sample`. -/
  logNormal : Float → Float → Option (Generator → Float × Generator)
  random_unit : ∀ generator, 0 ≤ (random generator).1 ∧ (random generator).1 < 1
  randomRange_mem : ∀ type low high generator, low ≤ high →
    low ≤ (randomRange type low high generator).1 ∧
      (randomRange type low high generator).1 ≤ high

/-- The elementary functions of the platform. -/
class Libm where
  /-- `x.ln()`. -/
  ln : Float → Float
  /-- `x.exp()`. -/
  exp : Float → Float

/-! ### A generator -/

/-- A generator that only counts its draws: it hands out its position as an identifier, and every
eighth unit is small. -/
structure Counter where
  position : Fin 256
deriving DecidableEq

namespace Counter

instance positions_neZero : NeZero (256 : Nat) := ⟨by decide⟩

/-- A position is a number of thirty-two bytes. -/
theorem position_lt (position : Fin 256) : position.val < 2 ^ 256 :=
  position.isLt.trans (by decide)

def next (counter : Counter) : Counter := ⟨counter.position + 1⟩

def unit (counter : Counter) : Float :=
  if counter.position.val % 8 = 3 then 0.0078125 else 0.25

theorem unit_bounds (counter : Counter) : 0 ≤ counter.unit ∧ counter.unit < 1 := by
  have small : (0 : Float) ≤ 0.0078125 ∧ (0.0078125 : Float) < 1 := by decide
  have quarter : (0 : Float) ≤ 0.25 ∧ (0.25 : Float) < 1 := by decide
  unfold unit
  split
  · exact small
  · exact quarter

instance : Rng Counter where
  seedFromU64 _ := ⟨0⟩
  random counter := (counter.unit, counter.next)
  randomRange _ low high counter :=
    (if low ≤ high then low + counter.position.val % (high - low + 1) else low, counter.next)
  fillBytes counter := (⟨⟨counter.position.val, by omega⟩⟩, counter.next)
  logNormal _ _ := some (fun counter => (2000000.0, counter.next))
  random_unit := unit_bounds
  randomRange_mem type low high counter ordered := by
    rw [if_pos ordered]
    have positive : 0 < high - low + 1 := by omega
    have above := Int.emod_nonneg counter.position.val (ne_of_gt positive)
    have below := Int.emod_lt_of_pos counter.position.val positive
    omega

/-- The elementary functions at the few arguments a `Counter` leads to. -/
instance (priority := low) libm : Libm where
  ln x :=
    if x == 0.25 then -1.3862943611198906
    else if x == 0.0078125 then -4.852030263919617
    else 14.508657738524219
  exp _ := 0.36787944117144233

end Counter

/-! ### Computations that draw -/

/-- The generator and the account identifiers drawn from it. -/
structure Tape (Generator : Type) where
  generator : Generator
  drawn : List AccountId

/-- A computation that moves the generator on and may panic. -/
abbrev Draw (Generator Result : Type) := StateT (Tape Generator) Option Result

namespace Draw

variable {Generator Result Next : Type}

/-- The computation panics. -/
def panic : Draw Generator Result := fun _ => none

/-- A value the language computes with an overflow or bounds check. -/
def checked (value : Option Result) : Draw Generator Result :=
  fun tape => value.map (fun result => (result, tape))

/-- One draw that is not of an identifier. -/
def sample (draw : Generator → Result × Generator) : Draw Generator Result := fun tape =>
  some ((draw tape.generator).1, ⟨(draw tape.generator).2, tape.drawn⟩)

section Sampling

variable [Rng Generator]

def random : Draw Generator Float := sample Rng.random

/-- `rng.random_range(low..=high)`: an empty range panics. -/
def randomRange (type : IntegerType) (low high : Int) : Draw Generator Int :=
  if low ≤ high then sample (Rng.randomRange type low high) else panic

/-- `rng.random_range(low..=high)` at an unsigned type. -/
def randomRangeNat (type : IntegerType) (low high : Nat) : Draw Generator Nat :=
  Int.toNat <$> randomRange type low high

/-- `rng.random_range(0..length)`: the index of an element, which an empty slice has not. -/
def randomIndex (length : Nat) : Draw Generator Nat :=
  if 0 < length then randomRangeNat .usize 0 (length - 1) else panic

/-- `AccountId::random(rng)`. -/
def randomAccount : Draw Generator AccountId := fun tape =>
  some ((Rng.fillBytes tape.generator).1,
    ⟨(Rng.fillBytes tape.generator).2, tape.drawn ++ [(Rng.fillBytes tape.generator).1]⟩)

/-- `items[rng.random_range(0..items.len())]`. -/
def choose {Item : Type} (items : List Item) : Draw Generator Item := do
  let index ← randomIndex items.length
  checked items[index]?

end Sampling

/-! ### Outcomes of a computation -/

theorem pure_eq_some {value result : Result} {before after : Tape Generator} :
    (pure value : Draw Generator Result) before = some (result, after) ↔
      value = result ∧ before = after := by
  show some (value, before) = some (result, after) ↔ _
  rw [Option.some_inj, Prod.mk.injEq]

theorem bind_eq_some {first : Draw Generator Result} {second : Result → Draw Generator Next}
    {result : Next} {before after : Tape Generator} :
    (first >>= second) before = some (result, after) ↔
      ∃ value middle, first before = some (value, middle) ∧
        second value middle = some (result, after) := by
  show (first before).bind (fun found => second found.1 found.2) = _ ↔ _
  rw [Option.bind_eq_some_iff]
  exact ⟨fun ⟨⟨value, middle⟩, both⟩ => ⟨value, middle, both⟩,
    fun ⟨value, middle, both⟩ => ⟨⟨value, middle⟩, both⟩⟩

theorem map_eq_some {transform : Result → Next} {action : Draw Generator Result}
    {result : Next} {before after : Tape Generator} :
    (transform <$> action) before = some (result, after) ↔
      ∃ value, action before = some (value, after) ∧ transform value = result := by
  show (action before).bind (fun found => some (transform found.1, found.2)) = _ ↔ _
  rw [Option.bind_eq_some_iff]
  constructor
  · rintro ⟨⟨value, middle⟩, drawn, equal⟩
    obtain ⟨rfl, rfl⟩ := Prod.mk.inj (Option.some.inj equal)
    exact ⟨value, drawn, rfl⟩
  · rintro ⟨value, drawn, rfl⟩
    exact ⟨⟨value, after⟩, drawn, rfl⟩

theorem checked_eq_some {value : Option Result} {result : Result} {before after : Tape Generator} :
    (checked value : Draw Generator Result) before = some (result, after) ↔
      value = some result ∧ before = after := by
  cases value with
  | none => simp [checked]
  | some found => simp [checked]

theorem panic_eq_some {result : Result} {before after : Tape Generator} :
    ¬ (panic : Draw Generator Result) before = some (result, after) := by
  simp [panic]

end Draw

/-! ### What a computation yields -/

namespace Draw

variable {Generator Result Next : Type}

/-- Whenever the computation returns, the identifiers it drew and its result satisfy `post`. -/
def Yields (action : Draw Generator Result) (post : List AccountId → Result → Prop) : Prop :=
  ∀ before result after, action before = some (result, after) →
    ∃ ids, after.drawn = before.drawn ++ ids ∧ post ids result

/-- The computation draws no identifier, and its result satisfies `post`. -/
def Silent (action : Draw Generator Result) (post : Result → Prop) : Prop :=
  Yields action (fun ids result => ids = [] ∧ post result)

theorem Yields.mono {action : Draw Generator Result} {weak strong : List AccountId → Result → Prop}
    (yields : Yields action strong) (weaker : ∀ ids result, strong ids result → weak ids result) :
    Yields action weak := by
  intro before result after ran
  obtain ⟨ids, draws, holds⟩ := yields before result after ran
  exact ⟨ids, draws, weaker ids result holds⟩

theorem yields_pure (value : Result) :
    Silent (pure value : Draw Generator Result) (fun result => result = value) := by
  intro before result after ran
  obtain ⟨rfl, rfl⟩ := pure_eq_some.mp ran
  exact ⟨[], (List.append_nil _).symm, rfl, rfl⟩

theorem yields_checked (value : Option Result) :
    Silent (checked value : Draw Generator Result) (fun result => value = some result) := by
  intro before result after ran
  obtain ⟨found, rfl⟩ := checked_eq_some.mp ran
  exact ⟨[], (List.append_nil _).symm, rfl, found⟩

theorem yields_panic (post : List AccountId → Result → Prop) :
    Yields (panic : Draw Generator Result) post :=
  fun _ _ _ ran => absurd ran panic_eq_some

theorem yields_bind {first : Draw Generator Result} {second : Result → Draw Generator Next}
    {middle : List AccountId → Result → Prop} {post : List AccountId → Next → Prop}
    (yieldsFirst : Yields first middle)
    (yieldsSecond : ∀ ids value, middle ids value →
      Yields (second value) (fun more result => post (ids ++ more) result)) :
    Yields (first >>= second) post := by
  intro before result after ran
  obtain ⟨value, between, ranFirst, ranSecond⟩ := bind_eq_some.mp ran
  obtain ⟨ids, draws, holds⟩ := yieldsFirst before value between ranFirst
  obtain ⟨more, later, concluded⟩ := yieldsSecond ids value holds between result after ranSecond
  exact ⟨ids ++ more, by rw [later, draws, List.append_assoc], concluded⟩

/-- After a silent computation the identifiers are those of the rest. -/
theorem Silent.bind {first : Draw Generator Result} {second : Result → Draw Generator Next}
    {middle : Result → Prop} {post : List AccountId → Next → Prop} (silent : Silent first middle)
    (yieldsSecond : ∀ value, middle value → Yields (second value) post) :
    Yields (first >>= second) post := by
  refine yields_bind silent ?_
  rintro ids value ⟨rfl, holds⟩
  exact yieldsSecond value holds

theorem Silent.mono {action : Draw Generator Result} {weak strong : Result → Prop}
    (silent : Silent action strong) (weaker : ∀ result, strong result → weak result) :
    Silent action weak :=
  Yields.mono silent (fun _ result both => ⟨both.1, weaker result both.2⟩)

theorem Yields.map {action : Draw Generator Result} {transform : Result → Next}
    {post : List AccountId → Next → Prop}
    (yields : Yields action (fun ids result => post ids (transform result))) :
    Yields (transform <$> action) post := by
  intro before next after ran
  obtain ⟨result, drawn, rfl⟩ := map_eq_some.mp ran
  exact yields before result after drawn

theorem Silent.map {action : Draw Generator Result} {transform : Result → Next}
    {post : Result → Prop} (silent : Silent action post) :
    Silent (transform <$> action)
      (fun next => ∃ result, post result ∧ transform result = next) := by
  intro before next after ran
  obtain ⟨result, drawn, equal⟩ := map_eq_some.mp ran
  obtain ⟨ids, draws, empty, holds⟩ := silent before result after drawn
  exact ⟨ids, draws, empty, result, holds, equal⟩

theorem yields_sample (draw : Generator → Result × Generator) :
    Silent (sample draw) (fun result => ∃ generator, result = (draw generator).1) := by
  intro before result after ran
  obtain ⟨rfl, rfl⟩ := Prod.mk.inj (Option.some.inj ran)
  exact ⟨[], (List.append_nil _).symm, rfl, before.generator, rfl⟩

/-- A loop keeps an invariant of the identifiers drawn so far and the state it threads. -/
theorem yields_foldlM {Item State : Type} (invariant : List AccountId → State → Prop)
    (body : State → Item → Draw Generator State) (items : List Item)
    (step : ∀ ids state, invariant ids state → ∀ item ∈ items,
      Yields (body state item) (fun more next => invariant (ids ++ more) next))
    (ids : List AccountId) (state : State) (start : invariant ids state) :
    Yields (items.foldlM body state) (fun more last => invariant (ids ++ more) last) := by
  induction items generalizing ids state with
  | nil =>
    have finished : Silent (pure state : Draw Generator State) (fun last => last = state) :=
      yields_pure state
    refine Yields.mono finished ?_
    rintro more last ⟨rfl, rfl⟩
    rwa [List.append_nil]
  | cons item rest inductionHypothesis =>
    rw [List.foldlM_cons]
    refine yields_bind (step ids state start item List.mem_cons_self) (fun more next holds => ?_)
    refine (inductionHypothesis
      (fun ids state holds item member => step ids state holds item (List.mem_cons_of_mem _ member))
      (ids ++ more) next holds).mono (fun later last concluded => ?_)
    rwa [List.append_assoc] at concluded

/-- A loop over `0..count` keeps an invariant that knows how many rounds are done. -/
theorem yields_foldlM_range {State : Type} (invariant : Nat → List AccountId → State → Prop)
    (body : State → Nat → Draw Generator State) (count : Nat)
    (step : ∀ round ids state, invariant round ids state →
      Yields (body state round) (fun more next => invariant (round + 1) (ids ++ more) next))
    (state : State) (start : invariant 0 [] state) :
    Yields ((List.range count).foldlM body state) (invariant count) := by
  induction count with
  | zero =>
    have finished : Silent (pure state : Draw Generator State) (fun last => last = state) :=
      yields_pure state
    refine Yields.mono finished ?_
    rintro ids last ⟨rfl, rfl⟩
    exact start
  | succ count inductionHypothesis =>
    rw [List.range_succ, List.foldlM_append]
    refine yields_bind inductionHypothesis (fun ids middle holds => ?_)
    rw [List.foldlM_cons]
    refine yields_bind (step count ids middle holds) (fun more next concluded => ?_)
    refine Yields.mono (yields_pure next) ?_
    rintro _ last ⟨rfl, rfl⟩
    rwa [List.append_nil]

theorem yields_mapM_silent {Item : Type} (body : Item → Draw Generator Result)
    (items : List Item) (silent : ∀ item, Silent (body item) (fun _ => True)) :
    Silent (items.mapM body) (fun _ => True) := by
  induction items with
  | nil => exact (yields_pure []).mono (fun _ _ => trivial)
  | cons item rest inductionHypothesis =>
    rw [List.mapM_cons]
    refine Silent.bind (silent item) (fun value _ => ?_)
    refine Silent.bind inductionHypothesis (fun values _ => ?_)
    exact (yields_pure _).mono (fun _ _ => trivial)

variable [Rng Generator]

theorem yields_random :
    Silent (random : Draw Generator Float) (fun unit => 0 ≤ unit ∧ unit < 1) := by
  refine (yields_sample Rng.random).mono ?_
  rintro unit ⟨generator, rfl⟩
  exact Rng.random_unit generator

theorem yields_randomRange (type : IntegerType) (low high : Int) :
    Silent (randomRange type low high : Draw Generator Int)
      (fun value => low ≤ value ∧ value ≤ high) := by
  unfold randomRange
  split
  · rename_i nonempty
    refine (yields_sample _).mono ?_
    rintro value ⟨generator, rfl⟩
    exact Rng.randomRange_mem type low high generator nonempty
  · exact yields_panic _

theorem yields_randomRangeNat (type : IntegerType) (low high : Nat) :
    Silent (randomRangeNat type low high : Draw Generator Nat)
      (fun value => low ≤ value ∧ value ≤ high) := by
  refine (Silent.map (yields_randomRange type low high)).mono ?_
  rintro value ⟨drawn, ⟨above, below⟩, rfl⟩
  exact ⟨(Int.le_toNat (le_trans (Int.natCast_nonneg low) above)).mpr above,
    Int.toNat_le.mpr below⟩

theorem yields_randomIndex (length : Nat) :
    Silent (randomIndex length : Draw Generator Nat) (fun index => index < length) := by
  unfold randomIndex
  split
  · rename_i positive
    exact (yields_randomRangeNat _ _ _).mono
      (fun index range => lt_of_le_of_lt range.2 (Nat.sub_lt positive one_pos))
  · exact yields_panic _

theorem yields_choose {Item : Type} (items : List Item) :
    Silent (choose items : Draw Generator Item) (fun item => item ∈ items) := by
  refine Silent.bind (yields_randomIndex items.length) (fun index _ => ?_)
  exact (yields_checked _).mono (fun item found => List.mem_of_getElem? found)

theorem yields_randomAccount :
    Yields (randomAccount : Draw Generator AccountId) (fun ids account => ids = [account]) := by
  intro before result after ran
  obtain ⟨rfl, rfl⟩ := Prod.mk.inj (Option.some.inj ran)
  exact ⟨_, rfl, rfl⟩

end Draw

end AccountCooker
