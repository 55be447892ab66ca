/-
This file is about balance maintenance: which sub-accounts a wake moves into
fresh successors or sweeps into the main account, and whether it returns. Both
ways pick a number between clamped limits, shuffle the front of the operational
indices, and write one record per index, each a gap later than the one before.

They return with this, whatever is drawn, when the limit on the sources is not
zero and the clock and the counters have room for so many records. The sweep caps
its limit where the rotation clamps it, so a limit of zero makes the sweep panic.
-/

import Mathlib
import AccountCooker.Completion
import AccountCooker.Custody

namespace AccountCooker

open Draw

section Maintenance

variable [Libm]

/-! ### Room -/

/-- The gap a unit leads to. -/
def gapOf (cfg : SimConfig) (unit : Float) : Int :=
  F64.toI64 (F64.max (-Libm.ln (F64.clamp unit 1e-9 1.0) *
    F64.max cfg.hardening.intraGapMeanSecs 1.0) 1.0)

theorem one_le_gapOf (cfg : SimConfig) (unit : Float) : 1 ≤ gapOf cfg unit :=
  F64.one_le_toI64_max_one _

/-- So many records a gap apart fit behind a point of a wake: their times and counters are in
range. -/
structure RoomFor (cfg : SimConfig) (clocked : Clocked) (unit : Float) (count : Nat) : Prop where
  low : i64Min ≤ clocked.t + gapOf cfg unit
  high : clocked.t + count * gapOf cfg unit ≤ i64Max
  sig : clocked.chain.sig + count ≤ u64Max
  slot : clocked.chain.slot + count ≤ u64Max

/-- There is room for so many records, whatever units lead to their gaps. -/
def Room (cfg : SimConfig) (clocked : Clocked) (count : Nat) : Prop :=
  ∀ unit, 0 ≤ unit → unit < 1 → RoomFor cfg clocked unit count

variable {cfg : SimConfig} {clocked : Clocked} {agent : Agent}

theorem Room.mono {few many : Nat} (room : Room cfg clocked many) (fewer : few ≤ many) :
    Room cfg clocked few := by
  intro unit low high
  have fits := room unit low high
  have gaps : (few : Int) * gapOf cfg unit ≤ many * gapOf cfg unit :=
    mul_le_mul_of_nonneg_right (Int.ofNat_le.mpr fewer)
      (le_trans (by decide) (one_le_gapOf cfg unit))
  have := fits.high
  have := fits.sig
  have := fits.slot
  exact ⟨fits.low, by omega, by omega, by omega⟩

/-! ### One record -/

/-- One record of a source was written, a gap later. -/
structure Advanced (cfg : SimConfig) (source : AccountId) (clocked next : Clocked) : Prop where
  later : ∃ unit, 0 ≤ unit ∧ unit < 1 ∧ next.t = clocked.t + gapOf cfg unit
  record : ∃ record, next.chain.ledger.records = clocked.chain.ledger.records ++ [record] ∧
    record.source = source ∧ record.ts = next.t
  sig : next.chain.sig = clocked.chain.sig + 1
  slot : next.chain.slot = clocked.chain.slot + 1

theorem Advanced.lt {source : AccountId} {next : Clocked}
    (advanced : Advanced cfg source clocked next) : clocked.t < next.t := by
  obtain ⟨unit, _, _, later⟩ := advanced.later
  have := one_le_gapOf cfg unit
  omega

/-- After a record there is room for one less. The gaps to come may be longer or shorter than the
one that was: the longest of them is what the room was for. -/
theorem Room.next {source : AccountId} {next : Clocked} {count : Nat}
    (room : Room cfg clocked (count + 1)) (advanced : Advanced cfg source clocked next) :
    Room cfg next count := by
  obtain ⟨drawn, drawnLow, drawnHigh, later⟩ := advanced.later
  have before := room drawn drawnLow drawnHigh
  intro unit low high
  have fits := room unit low high
  have positive := one_le_gapOf cfg unit
  have some : (0 : Int) ≤ count := Int.natCast_nonneg count
  refine ⟨?_, ?_, ?_, ?_⟩
  · have := before.low
    omega
  · rw [later]
    rcases le_total (gapOf cfg drawn) (gapOf cfg unit) with shorter | longer
    · calc clocked.t + gapOf cfg drawn + count * gapOf cfg unit
          ≤ clocked.t + gapOf cfg unit + count * gapOf cfg unit := by omega
        _ = clocked.t + ((count + 1 : Nat) : Int) * gapOf cfg unit := by push_cast; ring
        _ ≤ i64Max := fits.high
    · have gaps : (count : Int) * gapOf cfg unit ≤ count * gapOf cfg drawn :=
        mul_le_mul_of_nonneg_left longer some
      calc clocked.t + gapOf cfg drawn + count * gapOf cfg unit
          ≤ clocked.t + gapOf cfg drawn + count * gapOf cfg drawn := by omega
        _ = clocked.t + ((count + 1 : Nat) : Int) * gapOf cfg drawn := by push_cast; ring
        _ ≤ i64Max := before.high
  · rw [advanced.sig]
    have := fits.sig
    omega
  · rw [advanced.slot]
    have := fits.slot
    omega

variable {Generator : Type} [Rng Generator]

/-- With room for a record the clock moves on by a gap. -/
theorem advance_returns {count : Nat} (room : Room cfg clocked (count + 1))
    (before : Tape Generator) :
    Returns (clocked.advance cfg) before (fun moved _ => ∃ unit, 0 ≤ unit ∧ unit < 1 ∧
      moved = ⟨clocked.chain.setTime (clocked.t + gapOf cfg unit),
        clocked.t + gapOf cfg unit⟩) := by
  have drawn : Returns (intraGap cfg) before
      (fun gap _ => ∃ unit, 0 ≤ unit ∧ unit < 1 ∧ gap = gapOf cfg unit) := by
    refine Returns.bind (total_random.returns yields_random before) ?_
    rintro unit tape ⟨low, high⟩
    exact returns_pure.mpr ⟨unit, low, high, rfl⟩
  refine Returns.bind drawn ?_
  rintro _ tape ⟨unit, low, high, rfl⟩
  have fits := (room.mono (Nat.le_add_left 1 count)) unit low high
  refine returns_bind.mpr (returns_checked.mpr ⟨_, checkedI64_eq_some.mpr ⟨⟨fits.low, ?_⟩, rfl⟩,
    returns_pure.mpr ⟨unit, low, high, rfl⟩⟩)
  have := fits.high
  omega

omit [Libm] [Rng Generator] in
/-- With room for its counters a record is written. -/
theorem record_returns {chain : MockChain} {t : Int} (sig : chain.sig + 1 ≤ u64Max)
    (slot : chain.slot + 1 ≤ u64Max) (tx : PlannedTx) (feePayer : AccountId)
    (before : Tape Generator) :
    Returns (Clocked.record ⟨chain, t⟩ agent tx feePayer) before
      (fun next _ => next.t = t ∧ next.chain.sig = chain.sig + 1 ∧
        next.chain.slot = chain.slot + 1 ∧ next.chain.ledger.records =
          chain.ledger.records ++ [chain.stamp tx feePayer (some agent.id)]) := by
  have recorded : ∃ next, chain.record tx feePayer (some agent.id) = some next := by
    unfold MockChain.record
    rw [checkedU64_eq_some.mpr ⟨sig, rfl⟩, checkedU64_eq_some.mpr ⟨slot, rfl⟩]
    exact ⟨_, rfl⟩
  obtain ⟨next, appended⟩ := recorded
  refine returns_bind.mpr (returns_checked.mpr ⟨next, appended, returns_pure.mpr ?_⟩)
  rw [record_eq appended]
  exact ⟨rfl, rfl, rfl, rfl⟩

theorem sampleAmount_total (persona : Persona) :
    Total (persona.sampleAmount : Draw Generator Nat) := by
  unfold Persona.sampleAmount
  dsimp only
  split
  · exact (total_sample _).map _
  · exact total_pure _

omit [Rng Generator] in
/-- What an advanced clock writes is a record of its source. -/
theorem advanced_of_record {count : Nat} (room : Room cfg clocked (count + 1)) {unit : Float}
    (low : 0 ≤ unit) (high : unit < 1) (tx : PlannedTx) (feePayer : AccountId)
    (before : Tape Generator) :
    Returns (Clocked.record ⟨clocked.chain.setTime (clocked.t + gapOf cfg unit),
        clocked.t + gapOf cfg unit⟩ agent tx feePayer) before
      (fun next _ => Advanced cfg tx.source clocked next) := by
  have fits := (room.mono (Nat.le_add_left 1 count)) unit low high
  have sig : (clocked.chain.setTime (clocked.t + gapOf cfg unit)).sig + 1 ≤ u64Max := fits.sig
  have slot : (clocked.chain.setTime (clocked.t + gapOf cfg unit)).slot + 1 ≤ u64Max := fits.slot
  refine (record_returns sig slot tx feePayer before).mono ?_
  rintro next _ ⟨time, sig, slot, records⟩
  exact ⟨⟨unit, low, high, time⟩, ⟨_, records, rfl, time.symm⟩, sig, slot⟩

/-- With room for it, a source is swept. -/
theorem sweepOne_returns {count sub : Nat} (room : Room cfg clocked (count + 1))
    {source : AccountId} (found : agent.subaccounts[sub]? = some source)
    (before : Tape Generator) :
    Returns (sweepOne cfg agent clocked sub) before
      (fun next _ => Advanced cfg source clocked next) := by
  refine returns_bind.mpr (returns_checked.mpr ⟨source, found, ?_⟩)
  refine Returns.bind (advance_returns room before) ?_
  rintro _ tape ⟨unit, low, high, rfl⟩
  refine Returns.bind ((sampleAmount_total agent.persona).returns
    (Persona.sampleAmount_silent _) tape) (fun amount tape _ => ?_)
  refine returns_bind.mpr ⟨_, _, rfl, ?_⟩
  exact advanced_of_record room low high _ _ _

/-- With room for it, a source is rotated; the other places of the table stay. -/
theorem rotateOne_returns {rotating : Rotating} {count sub : Nat}
    (room : Room cfg rotating.clocked (count + 1)) {source : AccountId}
    (found : rotating.agent.subaccounts[sub]? = some source) (before : Tape Generator) :
    Returns (rotateOne cfg rotating sub) before
      (fun next _ => Advanced cfg source rotating.clocked next.clocked ∧
        ∀ other, other ≠ sub →
          next.agent.subaccounts[other]? = rotating.agent.subaccounts[other]?) := by
  refine returns_bind.mpr (returns_checked.mpr ⟨source, found, ?_⟩)
  refine returns_bind.mpr ⟨_, _, rfl, ?_⟩
  refine Returns.bind (advance_returns room _) ?_
  rintro _ tape ⟨unit, low, high, rfl⟩
  refine Returns.bind ((sampleAmount_total rotating.agent.persona).returns
    (Persona.sampleAmount_silent _) tape) (fun amount tape _ => ?_)
  refine returns_bind.mpr ⟨_, _, rfl, ?_⟩
  refine Returns.bind (advanced_of_record room low high _ _ _) (fun next tape advanced => ?_)
  exact returns_pure.mpr ⟨advanced, fun other different => List.getElem?_set_ne different.symm⟩

/-! ### All records -/

/-- One record of each of the indices' accounts was written, each later than the one before. -/
structure Moved (agent : Agent) (clocked last : Clocked) (idxs : List Nat) : Prop where
  records : ∃ records, last.chain.ledger.records = clocked.chain.ledger.records ++ records ∧
    List.Forall₂ (fun index record => agent.subaccounts[index]? = some record.source) idxs
      records ∧
    (records.map (·.ts)).Pairwise (· < ·) ∧ ∀ record ∈ records, clocked.t < record.ts

theorem Moved.cons {agent : Agent} {clocked next last : Clocked} {index : Nat} {rest : List Nat}
    {source : AccountId} (found : agent.subaccounts[index]? = some source)
    (advanced : Advanced cfg source clocked next) (moved : Moved agent next last rest) :
    Moved agent clocked last (index :: rest) := by
  obtain ⟨record, written, from_source, time⟩ := advanced.record
  obtain ⟨records, appended, sources, rising, after⟩ := moved.records
  refine ⟨record :: records, ?_, .cons (found.trans (congrArg some from_source.symm)) sources, ?_,
    ?_⟩
  · rw [appended, written, List.append_assoc, List.singleton_append]
  · rw [List.map_cons, List.pairwise_cons]
    refine ⟨fun ts member => ?_, rising⟩
    obtain ⟨other, inside, rfl⟩ := List.mem_map.mp member
    rw [time]
    exact after other inside
  · refine List.forall_mem_cons.mpr ⟨?_, fun other inside => ?_⟩
    · rw [time]
      exact advanced.lt
    · exact advanced.lt.trans (after other inside)

variable (cfg) in
omit [Rng Generator] in
/-- A loop over indices writes a record of each when every round writes one of its index, from a
state that is ready for the indices that are left. -/
theorem foldlM_moved {State : Type} (clockOf : State → Clocked)
    (ready : List Nat → State → Prop) {body : State → Nat → Draw Generator State}
    (step : ∀ index rest state, ready (index :: rest) state →
      Room cfg (clockOf state) (rest.length + 1) → ∀ before,
        Returns (body state index) before (fun next _ => ready rest next ∧
          ∃ source, agent.subaccounts[index]? = some source ∧
            Advanced cfg source (clockOf state) (clockOf next)))
    (idxs : List Nat) {state : State} (start : ready idxs state)
    (room : Room cfg (clockOf state) idxs.length) (before : Tape Generator) :
    Returns (idxs.foldlM body state) before
      (fun last _ => Moved agent (clockOf state) (clockOf last) idxs) := by
  induction idxs generalizing state before with
  | nil => exact returns_pure.mpr ⟨[], (List.append_nil _).symm, .nil, .nil, by simp⟩
  | cons index rest inductionHypothesis =>
    rw [List.foldlM_cons]
    refine Returns.bind (step index rest state start room before) ?_
    rintro next tape ⟨going, source, found, advanced⟩
    refine (inductionHypothesis going (room.next advanced) tape).mono (fun last _ moved => ?_)
    exact moved.cons found advanced

/-! ### The indices -/

omit [Libm] in
theorem sweepCount_returns {kmin kmax : Nat} (ordered : kmin ≤ kmax) (before : Tape Generator) :
    Returns (sweepCount kmin kmax : Draw Generator Nat) before
      (fun k _ => kmin ≤ k ∧ k ≤ kmax) := by
  unfold sweepCount
  split
  · exact returns_pure.mpr ⟨ordered, le_rfl⟩
  · exact returns_randomRangeNat _ ordered before

omit [Libm] in
/-- The shuffle picks so many distinct operational indices. -/
theorem sweepIndices_returns {n k : Nat} (enough : k ≤ n - 1) (before : Tape Generator) :
    Returns (sweepIndices n k : Draw Generator (List Nat)) before
      (fun idxs _ => idxs.length = k ∧ idxs.Nodup ∧ ∀ index ∈ idxs, 1 ≤ index ∧ index < n) := by
  have shuffled : Returns
      ((List.range k).foldlM (shuffleStep (n - 1)) (List.range' 1 (n - 1)) :
        Draw Generator (List Nat)) before (fun idxs _ => idxs.Perm (List.range' 1 (n - 1))) := by
    refine returns_foldlM (fun (idxs : List Nat) (permuted : idxs.Perm (List.range' 1 (n - 1))) i
      inside before => ?_) (List.Perm.refl _) before
    have below : i < n - 1 := (List.mem_range.mp inside).trans_le enough
    have length : idxs.length = n - 1 := by rw [permuted.length_eq, List.length_range']
    refine returns_bind.mpr (returns_checked.mpr
      ⟨n - 1 - i, checkedSub_eq_some.mpr ⟨below.le, rfl⟩, ?_⟩)
    refine Returns.bind (randomIndex_returns (Nat.sub_pos_of_lt below) before) ?_
    intro offset tape inside
    have exchanged : ∃ swapped, swap idxs i (i + offset) = some swapped := by
      unfold swap
      rw [List.getElem?_eq_getElem (by omega), List.getElem?_eq_getElem (by omega)]
      exact ⟨_, rfl⟩
    obtain ⟨swapped, exchanged⟩ := exchanged
    exact returns_checked.mpr ⟨swapped, exchanged, (swap_perm exchanged).trans permuted⟩
  refine Returns.bind shuffled (fun idxs tape permuted => returns_pure.mpr ⟨?_, ?_, ?_⟩)
  · rw [List.length_take, permuted.length_eq, List.length_range', Nat.min_eq_left enough]
  · exact (permuted.nodup_iff.mpr List.nodup_range').sublist (List.take_sublist _ _)
  · intro index member
    have range := List.mem_range'_1.mp (permuted.mem_iff.mp (List.mem_of_mem_take member))
    omega

/-! ### Both ways return -/

/-- How many sources there can be at most. -/
def mostSources (cfg : SimConfig) (agent : Agent) : Nat :=
  min cfg.hardening.sweepMaxSources (agent.subaccounts.length - 1)

/-- The indices that may be picked: distinct operational ones, as many as the limits allow. -/
structure Picked (cfg : SimConfig) (agent : Agent) (idxs : List Nat) : Prop where
  distinct : idxs.Nodup
  operational : ∀ index ∈ idxs, 1 ≤ index ∧ index < agent.subaccounts.length
  some : 1 ≤ idxs.length
  available : idxs.length ≤ agent.subaccounts.length - 1
  most : idxs.length ≤ max 1 cfg.hardening.sweepMaxSources
  least : min (min (max 1 cfg.hardening.sweepMinSources) cfg.hardening.sweepMaxSources)
    (agent.subaccounts.length - 1) ≤ idxs.length

/-- Balance maintenance wrote exactly a record of each of the picked accounts. -/
def Maintained (cfg : SimConfig) (agent : Agent) (clocked last : Clocked) : Prop :=
  ∃ idxs, Picked cfg agent idxs ∧ Moved agent clocked last idxs

omit [Libm] in
/-- Between the limits, the clamped numbers are as they should be. -/
theorem picked_of_clamped {k kmin kmax : Nat} {idxs : List Nat}
    (several : 2 ≤ agent.subaccounts.length)
    (most : kmax = max 1 (min cfg.hardening.sweepMaxSources (agent.subaccounts.length - 1)))
    (least : kmin = max 1 (min cfg.hardening.sweepMinSources kmax))
    (between : kmin ≤ k ∧ k ≤ kmax) (length : idxs.length = k) (distinct : idxs.Nodup)
    (operational : ∀ index ∈ idxs, 1 ≤ index ∧ index < agent.subaccounts.length) :
    Picked cfg agent idxs :=
  ⟨distinct, operational, by omega, by omega, by omega, by omega⟩

/-- With room for the sources there can be, a rotation returns. -/
theorem rotateAccounts_returns (several : 2 ≤ agent.subaccounts.length)
    (room : Room cfg clocked (max 1 (mostSources cfg agent))) (before : Tape Generator) :
    Returns (rotateAccounts cfg clocked agent) before
      (fun rotating _ => Maintained cfg agent clocked rotating.clocked) := by
  unfold rotateAccounts
  rw [if_neg (by omega)]
  refine returns_bind.mpr (returns_checked.mpr ⟨_, clampNat_eq_some.mpr ⟨by omega, rfl⟩, ?_⟩)
  refine returns_bind.mpr (returns_checked.mpr ⟨_, clampNat_eq_some.mpr ⟨by omega, rfl⟩, ?_⟩)
  refine Returns.bind (sweepCount_returns (by omega) before) (fun k tape between => ?_)
  have enough : k ≤ agent.subaccounts.length - 1 := by omega
  refine Returns.bind (sweepIndices_returns enough tape) ?_
  rintro idxs tape ⟨length, distinct, operational⟩
  have loop : Returns (idxs.foldlM (rotateOne cfg) ⟨clocked, agent⟩) tape
      (fun rotating _ => Moved agent clocked rotating.clocked idxs) := by
    refine foldlM_moved cfg Rotating.clocked (fun idxs rotating => idxs.Nodup ∧ ∀ index ∈ idxs,
      index < agent.subaccounts.length ∧
        rotating.agent.subaccounts[index]? = agent.subaccounts[index]?) ?_ idxs
      ⟨distinct, fun index member => ⟨(operational index member).2, rfl⟩⟩ ?_ tape
    · rintro index rest rotating ⟨apart, kept⟩ room before
      obtain ⟨fresh, later⟩ := List.nodup_cons.mp apart
      obtain ⟨inside, same⟩ := kept index List.mem_cons_self
      have found := List.getElem?_eq_getElem inside
      refine (rotateOne_returns room (same.trans found) before).mono ?_
      rintro next _ ⟨advanced, others⟩
      refine ⟨⟨later, fun other member => ?_⟩, _, found, advanced⟩
      obtain ⟨bound, equal⟩ := kept other (List.mem_cons_of_mem _ member)
      exact ⟨bound, (others other (fun same => fresh (same ▸ member))).trans equal⟩
    · refine room.mono ?_
      unfold mostSources
      omega
  refine loop.mono (fun rotating _ moved => ⟨idxs, ?_, moved⟩)
  exact picked_of_clamped several rfl rfl between length distinct operational

/-- With room for the sources there can be and a limit that is not zero, a sweep returns. -/
theorem consolidateSweep_returns (several : 2 ≤ agent.subaccounts.length)
    (limited : 1 ≤ cfg.hardening.sweepMaxSources)
    (room : Room cfg clocked (mostSources cfg agent)) (before : Tape Generator) :
    Returns (consolidateSweep cfg clocked agent) before
      (fun last _ => Maintained cfg agent clocked last) := by
  unfold consolidateSweep
  rw [if_neg (by omega)]
  refine returns_bind.mpr (returns_checked.mpr ⟨_, clampNat_eq_some.mpr ⟨by omega, rfl⟩, ?_⟩)
  refine Returns.bind (sweepCount_returns (by omega) before) (fun k tape between => ?_)
  have enough : k ≤ agent.subaccounts.length - 1 := by omega
  refine Returns.bind (sweepIndices_returns enough tape) ?_
  rintro idxs tape ⟨length, distinct, operational⟩
  have loop : Returns (idxs.foldlM (sweepOne cfg agent) clocked) tape
      (fun last _ => Moved agent clocked last idxs) := by
    refine foldlM_moved cfg id
      (fun idxs _ => ∀ index ∈ idxs, index < agent.subaccounts.length) ?_ idxs
      (fun index member => (operational index member).2) ?_ tape
    · intro index rest state inside room before
      have found := List.getElem?_eq_getElem (inside index List.mem_cons_self)
      refine (sweepOne_returns room found before).mono (fun next _ advanced => ?_)
      exact ⟨fun other member => inside other (List.mem_cons_of_mem _ member), _, found, advanced⟩
    · refine room.mono ?_
      unfold mostSources
      omega
  refine loop.mono (fun last _ moved => ⟨idxs, ?_, moved⟩)
  refine picked_of_clamped several ?_ rfl between length distinct operational
  omega

/-! ### Steady streams -/

/-- A generator of one unit only, whose integers are the largest there can be. -/
structure Steady (unit : {unit : Float // 0 ≤ unit ∧ unit < 1}) where

instance steadyRng (unit : {unit : Float // 0 ≤ unit ∧ unit < 1}) : Rng (Steady unit) where
  seedFromU64 _ := ⟨⟩
  random steady := (unit.1, steady)
  randomRange _ low high steady := (max low high, steady)
  fillBytes steady := (⟨0⟩, steady)
  logNormal _ _ := none
  random_unit _ := unit.2
  randomRange_mem _ _ _ _ ordered := ⟨le_max_left _ _, max_le ordered le_rfl⟩

section Steadiness

variable {unit : {unit : Float // 0 ≤ unit ∧ unit < 1}}

/-- The clock moves on by the gap of the unit, and stays in range. -/
theorem advance_steady : Silent (clocked.advance cfg : Draw (Steady unit) Clocked)
    (fun moved => (i64Min ≤ clocked.t + gapOf cfg unit.1 ∧
      clocked.t + gapOf cfg unit.1 ≤ i64Max) ∧
      moved = ⟨clocked.chain.setTime (clocked.t + gapOf cfg unit.1),
        clocked.t + gapOf cfg unit.1⟩) := by
  have gap : Silent (intraGap cfg : Draw (Steady unit) Int)
      (fun gap => gap = gapOf cfg unit.1) := by
    refine Silent.bind (yields_sample _) ?_
    rintro value ⟨_, rfl⟩
    exact yields_pure _
  refine Silent.bind gap ?_
  rintro _ rfl
  refine Silent.bind (yields_checked _) (fun t computed => ?_)
  obtain ⟨range, rfl⟩ := checkedI64_eq_some.mp computed
  refine (yields_pure _).mono ?_
  rintro moved rfl
  exact ⟨range, rfl⟩

/-- A source that was swept had room for its record. -/
theorem sweepOne_steady (sub : Nat) :
    Yields (sweepOne cfg agent clocked sub : Draw (Steady unit) Clocked)
      (fun _ next => RoomFor cfg clocked unit.1 1 ∧ next.t = clocked.t + gapOf cfg unit.1 ∧
        next.chain.sig = clocked.chain.sig + 1 ∧ next.chain.slot = clocked.chain.slot + 1) := by
  refine Silent.bind (yields_checked _) (fun source _ => ?_)
  refine Silent.bind advance_steady ?_
  rintro _ ⟨⟨low, high⟩, rfl⟩
  refine Silent.bind (Persona.sampleAmount_silent _) (fun amount _ => ?_)
  refine yields_bind yields_randomAccount (fun _ feePayer _ => ?_)
  refine Yields.mono (Silent.bind (yields_checked _) (fun recorded appended => ?_))
    (fun _ _ holds => holds)
  have counted := appended
  simp only [MockChain.record, Option.bind_eq_bind, Option.bind_eq_some_iff] at counted
  obtain ⟨sig, countedSig, slot, countedSlot, _⟩ := counted
  rw [record_eq appended]
  refine Yields.mono (yields_pure _) ?_
  rintro _ next ⟨_, rfl⟩
  refine ⟨⟨low, ?_, (checkedU64_eq_some.mp countedSig).1, (checkedU64_eq_some.mp countedSlot).1⟩,
    rfl, rfl, rfl⟩
  rwa [Nat.cast_one, one_mul]

/-- Sources that were swept had room for their records. -/
theorem foldlM_sweepOne_steady (index : Nat) (rest : List Nat) :
    Yields ((index :: rest).foldlM (sweepOne cfg agent) clocked : Draw (Steady unit) Clocked)
      (fun _ _ => RoomFor cfg clocked unit.1 (index :: rest).length) := by
  induction rest generalizing index clocked with
  | nil =>
    rw [List.foldlM_cons]
    refine yields_bind (sweepOne_steady index) (fun _ next both => ?_)
    exact Yields.mono (yields_pure next) (fun _ _ _ => both.1)
  | cons second rest inductionHypothesis =>
    rw [List.foldlM_cons]
    refine yields_bind (sweepOne_steady index) ?_
    rintro _ next ⟨first, later, sig, slot⟩
    refine Yields.mono (inductionHypothesis second) (fun _ last fits => ?_)
    have high := fits.high
    have counted := fits.sig
    have numbered := fits.slot
    rw [later] at high
    rw [sig] at counted
    rw [slot] at numbered
    refine ⟨first.low, ?_, ?_, ?_⟩
    · calc clocked.t + ((index :: second :: rest).length : Int) * gapOf cfg unit.1
          = clocked.t + gapOf cfg unit.1 + ((second :: rest).length : Int) * gapOf cfg unit.1 := by
            rw [List.length_cons]
            push_cast
            ring
        _ ≤ i64Max := high
    · rw [List.length_cons]
      omega
    · rw [List.length_cons]
      omega

omit [Libm] in
theorem randomRange_steady (type : IntegerType) (low high : Int) :
    Silent (randomRange type low high : Draw (Steady unit) Int)
      (fun value => value = max low high) := by
  unfold randomRange
  split
  · refine (yields_sample _).mono ?_
    rintro value ⟨_, rfl⟩
    rfl
  · exact yields_panic _

/-- On a steady stream a sweep takes as many sources as there can be: it had room for them. -/
theorem consolidateSweep_steady (several : 2 ≤ agent.subaccounts.length) :
    Yields (consolidateSweep cfg clocked agent : Draw (Steady unit) Clocked)
      (fun _ _ => 1 ≤ cfg.hardening.sweepMaxSources ∧
        RoomFor cfg clocked unit.1 (mostSources cfg agent)) := by
  unfold consolidateSweep
  rw [if_neg (by omega)]
  refine Silent.bind (yields_checked _) (fun kmin clamped => ?_)
  obtain ⟨limited, _⟩ := clampNat_eq_some.mp clamped
  have count : Silent (sweepCount kmin (mostSources cfg agent) : Draw (Steady unit) Nat)
      (fun k => k = mostSources cfg agent) := by
    unfold sweepCount
    split
    · exact yields_pure _
    · refine (Silent.map (randomRange_steady _ _ _)).mono ?_
      rintro k ⟨_, rfl, rfl⟩
      omega
  refine Silent.bind count ?_
  rintro _ rfl
  have enough : mostSources cfg agent ≤ agent.subaccounts.length - 1 := min_le_right _ _
  have indices : Silent (sweepIndices agent.subaccounts.length (mostSources cfg agent) :
      Draw (Steady unit) (List Nat)) (fun idxs => idxs.length = mostSources cfg agent) := by
    intro before idxs after ran
    obtain ⟨ids, draws, none, _⟩ := sweepIndices_silent _ _ before idxs after ran
    obtain ⟨length, _⟩ := (returns_of_run ran).mp (sweepIndices_returns enough before)
    exact ⟨ids, draws, none, length⟩
  refine Silent.bind indices (fun idxs length => ?_)
  have positive : 1 ≤ mostSources cfg agent := limited
  cases idxs with
  | nil => exact absurd (length.trans_ge positive) (by decide)
  | cons index rest =>
    refine (foldlM_sweepOne_steady index rest).mono (fun _ _ fits => ?_)
    rw [← length]
    exact ⟨positive.trans (min_le_left _ _), fits⟩

end Steadiness

/-- Both ways of balance maintenance return with valid distinct sources, whatever is drawn, exactly
when the limit on the sources is not zero and there is room for as many as there can be. -/
theorem maintenance_always_iff (cfg : SimConfig) (agent : Agent) (clocked : Clocked)
    (several : 2 ≤ agent.subaccounts.length) :
    (∀ (Generator : Type) [Rng Generator] (tape : Tape Generator),
        Returns (rotateAccounts cfg clocked agent) tape
            (fun rotating _ => Maintained cfg agent clocked rotating.clocked) ∧
          Returns (consolidateSweep cfg clocked agent) tape
            (fun last _ => Maintained cfg agent clocked last)) ↔
      1 ≤ cfg.hardening.sweepMaxSources ∧ Room cfg clocked (mostSources cfg agent) := by
  constructor
  · intro always
    have fits (unit : {unit : Float // 0 ≤ unit ∧ unit < 1}) :
        1 ≤ cfg.hardening.sweepMaxSources ∧
          RoomFor cfg clocked unit.1 (mostSources cfg agent) := by
      obtain ⟨last, after, ran, _⟩ := (always (Steady unit) ⟨⟨⟩, []⟩).2
      obtain ⟨_, _, room⟩ := consolidateSweep_steady several _ last after ran
      exact room
    exact ⟨(fits ⟨0, by decide⟩).1, fun unit low high => (fits ⟨unit, low, high⟩).2⟩
  · rintro ⟨limited, room⟩ Generator _ tape
    refine ⟨rotateAccounts_returns several ?_ tape,
      consolidateSweep_returns several limited room tape⟩
    have positive : 1 ≤ mostSources cfg agent := le_min limited (by omega)
    rwa [max_eq_right positive]

end Maintenance

/-- The ablation that sweeps into the hub, with a limit on the sources. -/
def sweepRun (most : Nat) : SimConfig :=
  { SimConfig.default with
    hardening := { HardeningConfig.default with
      rebalance := .directHub
      sweepMaxSources := most } }

/-- A retail user of three sub-accounts. -/
def hubAgent : Agent := ⟨0, Persona.retail, [⟨0⟩, ⟨1⟩, ⟨2⟩], [], ⟨0⟩⟩

/-- The start of a wake. -/
def hubWake : Clocked := ⟨MockChain.new 1700000000, 1700000000⟩

theorem gapOf_sweepRun (most : Nat) (unit : Float) : gapOf (sweepRun most) unit ≤ 34 := by
  have gaps : F64.toI64 (F64.max (-(-1.3862943611198906) * F64.max 7.0 1.0) 1.0) ≤ 34 ∧
      F64.toI64 (F64.max (-(-4.852030263919617) * F64.max 7.0 1.0) 1.0) ≤ 34 ∧
      F64.toI64 (F64.max (-(14.508657738524219) * F64.max 7.0 1.0) 1.0) ≤ 34 := by decide +kernel
  have logarithm (x : Float) : Libm.ln x = -1.3862943611198906 ∨ Libm.ln x = -4.852030263919617 ∨
      Libm.ln x = 14.508657738524219 := by
    unfold Libm.ln Counter.libm
    dsimp only
    split
    · exact Or.inl rfl
    · split
      · exact Or.inr (Or.inl rfl)
      · exact Or.inr (Or.inr rfl)
  have mean : (sweepRun most).hardening.intraGapMeanSecs = 7.0 := rfl
  unfold gapOf
  rw [mean]
  rcases logarithm (F64.clamp unit 1e-9 1.0) with same | same | same
  · rw [same]
    exact gaps.1
  · rw [same]
    exact gaps.2.1
  · rw [same]
    exact gaps.2.2

/-- Two sources of the retail user are maintained in either way. -/
theorem maintenance_hubAgent :
    Returns (rotateAccounts (sweepRun 2) hubWake hubAgent) (⟨⟨3⟩, []⟩ : Tape Counter)
        (fun rotating _ => Maintained (sweepRun 2) hubAgent hubWake rotating.clocked) ∧
      Returns (consolidateSweep (sweepRun 2) hubWake hubAgent) (⟨⟨3⟩, []⟩ : Tape Counter)
        (fun last _ => Maintained (sweepRun 2) hubAgent hubWake last) := by
  have room : Room (sweepRun 2) hubWake (mostSources (sweepRun 2) hubAgent) := by
    intro unit _ _
    have positive := one_le_gapOf (sweepRun 2) unit
    have short := gapOf_sweepRun 2 unit
    have two : mostSources (sweepRun 2) hubAgent = 2 := rfl
    have start : hubWake.t = 1700000000 := rfl
    rw [two]
    refine ⟨?_, ?_, by decide, by decide⟩
    · rw [start]
      unfold i64Min
      omega
    · rw [start]
      unfold i64Max
      push_cast
      omega
  have several : 2 ≤ hubAgent.subaccounts.length := by decide
  have limited : 1 ≤ (sweepRun 2).hardening.sweepMaxSources := by decide
  exact (maintenance_always_iff (sweepRun 2) hubAgent hubWake several).mpr ⟨limited, room⟩
    Counter ⟨⟨3⟩, []⟩

/-- With a limit of no sources the sweep panics. -/
theorem sweep_hubAgent_panics :
    consolidateSweep (sweepRun 0) hubWake hubAgent (⟨⟨3⟩, []⟩ : Tape Counter) = none := rfl

/-- So maintenance does not always return. -/
theorem maintenance_hubAgent_astray :
    ¬ ∀ (Generator : Type) [Rng Generator] (tape : Tape Generator),
        Returns (rotateAccounts (sweepRun 0) hubWake hubAgent) tape
            (fun rotating _ => Maintained (sweepRun 0) hubAgent hubWake rotating.clocked) ∧
          Returns (consolidateSweep (sweepRun 0) hubWake hubAgent) tape
            (fun last _ => Maintained (sweepRun 0) hubAgent hubWake last) := by
  intro always
  obtain ⟨last, after, ran, _⟩ := (always Counter ⟨⟨3⟩, []⟩).2
  rw [sweep_hubAgent_panics] at ran
  exact nomatch ran

end AccountCooker
