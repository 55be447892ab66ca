/-
This file bounds what a wake can take. A wake writes the parts of one transfer,
its decoys and its maintenance: no more records than its persona and its engine
allow. Each record takes a signature and a slot, and in the hardened engine a gap
of the clock. With that many records and gaps left to the chain a wake does not
panic, whatever is drawn, and what it does not use is still left.

Two things are asked of a persona of the legacy and the hardened engine besides:
a limit on the amounts that are drawn for it, and that its split policy keeps an
amount within the limit whole.
-/

import Mathlib
import AccountCooker.Maintenance
import AccountCooker.Splitting

namespace AccountCooker

open Draw

/-! ### Allowances -/

/-- The limits of a run: its end, the longest gap between two records of a wake, and the number of
its records. -/
structure Limits where
  finish : Int
  gap : Int
  latest : Int
  records : Nat
  forward : 0 ≤ gap
  horizon : latest ≤ i64Max
  counters : records ≤ u64Max

/-- So many gaps, behind the clock and the end of the run, and so many records are left to a
chain. -/
structure Allowance (limits : Limits) (gaps records : Nat) (chain : MockChain) : Prop where
  low : i64Min ≤ chain.clock
  clock : max chain.clock limits.finish + gaps * limits.gap ≤ limits.latest
  count : chain.ledger.records.length + records ≤ limits.records
  sig : chain.sig = chain.ledger.records.length
  slot : chain.slot = chain.ledger.records.length

variable {limits : Limits} {gaps records left : Nat} {chain : MockChain}

theorem Allowance.mono {fewerGaps fewerRecords : Nat}
    (allowance : Allowance limits gaps records chain)
    (gapsLe : fewerGaps ≤ gaps) (recordsLe : fewerRecords ≤ records) :
    Allowance limits fewerGaps fewerRecords chain := by
  have less : (fewerGaps : Int) * limits.gap ≤ gaps * limits.gap :=
    mul_le_mul_of_nonneg_right (Int.ofNat_le.mpr gapsLe) limits.forward
  have clock := allowance.clock
  have count := allowance.count
  exact ⟨allowance.low, by omega, by omega, allowance.sig, allowance.slot⟩

/-- A record is taken from what is left. -/
theorem Allowance.record (allowance : Allowance limits gaps (records + 1) chain) (tx : PlannedTx)
    (feePayer : AccountId) (operator : Option AgentId) :
    ∃ next, chain.record tx feePayer operator = some next ∧ next.clock = chain.clock ∧
      Allowance limits gaps records next := by
  have count := allowance.count
  have counters := limits.counters
  have sig : chain.sig + 1 ≤ u64Max := by
    rw [allowance.sig]
    omega
  have slot : chain.slot + 1 ≤ u64Max := by
    rw [allowance.slot]
    omega
  have recorded : ∃ next, chain.record tx feePayer operator = some next := by
    unfold MockChain.record
    rw [checkedU64_eq_some.mpr ⟨sig, rfl⟩, checkedU64_eq_some.mpr ⟨slot, rfl⟩]
    exact ⟨_, rfl⟩
  obtain ⟨next, appended⟩ := recorded
  refine ⟨next, appended, record_clock appended, ?_⟩
  rw [record_eq appended]
  refine ⟨allowance.low, allowance.clock, ?_, ?_, ?_⟩
  · rw [List.length_append, List.length_singleton]
    omega
  · rw [List.length_append, List.length_singleton, allowance.sig]
  · rw [List.length_append, List.length_singleton, allowance.slot]

/-- The clock may be set forward to a time before the end of the run. -/
theorem Allowance.tick (allowance : Allowance limits gaps records chain) {ts : Int}
    (later : chain.clock ≤ ts) (early : ts ≤ max chain.clock limits.finish) :
    Allowance limits gaps records (chain.setTime ts) := by
  have clock := allowance.clock
  refine ⟨allowance.low.trans later, ?_, allowance.count, allowance.sig, allowance.slot⟩
  show max ts limits.finish + gaps * limits.gap ≤ limits.latest
  omega

/-! ### Personas -/

section Wakes

variable {Generator : Type} [Rng Generator] [Libm]

/-- Amounts drawn for a persona have a limit, and its split policy keeps every amount within the
limit whole. -/
structure Persona.Measured (Generator : Type) [Rng Generator] [Libm] (most : Nat)
    (persona : Persona) : Prop where
  inRange : most ≤ u64Max
  valid : persona.split.Valid
  sampled : Silent (persona.sampleAmount : Draw Generator Nat) (fun amount => amount ≤ most)
  dust : max persona.decoy.dustLamportsMax 1 ≤ most
  divides : ∀ amount ≤ most, ∀ n, persona.split.Allows amount n →
    SplitPolicy.SharesWithin n (amount - persona.split.minPartLamports * n)

variable {most : Nat} {persona : Persona} {agent : Agent} {externals : List AccountId}
  {cfg : SimConfig}

omit [Libm] in
theorem choose_returns {Item : Type} {items : List Item} (some : items ≠ [])
    (before : Tape Generator) :
    Returns (choose items) before (fun item _ => item ∈ items) := by
  refine Returns.bind (randomIndex_returns (List.length_pos_iff.mpr some) before) ?_
  intro index tape inside
  exact returns_checked.mpr
    ⟨_, List.getElem?_eq_getElem inside, List.getElem_mem inside⟩

omit [Libm] in
theorem chooseAction_total (persona : Persona) :
    Total (persona.chooseAction : Draw Generator ActionKind) := by
  unfold Persona.chooseAction
  dsimp only
  split
  · exact total_pure _
  · exact Total.then total_random (fun unit => total_pure _)

/-- An amount within the limit is split into no more parts than the policy has. -/
theorem partsOf_returns (measured : persona.Measured Generator most) {amount : Nat}
    (small : amount ≤ most) (before : Tape Generator) :
    Returns (partsOf amount persona.split) before
      (fun parts _ => parts.length ≤ persona.split.maxParts) := by
  have split : Returns (splitAmount amount persona.split) before
      (fun parts _ => persona.split.Splits amount parts) :=
    (splitAmount_always_iff measured.valid (small.trans measured.inRange)).mpr
      (measured.divides amount small) Generator before
  have one : 1 ≤ persona.split.maxParts := measured.valid.positive.trans measured.valid.ordered
  refine Returns.bind split (fun parts tape splits => returns_pure.mpr ?_)
  by_cases nothing : amount = 0
  · rw [splits.empty.mpr nothing]
    exact one
  · rw [if_neg (fun empty => nothing (splits.empty.mp (List.isEmpty_iff.mp empty)))]
    exact (splits.count nothing).2.trans (min_le_left _ _)

theorem dustAmount_returns (measured : persona.Measured Generator most)
    (before : Tape Generator) :
    Returns (persona.decoy.dustAmount : Draw Generator Nat) before
      (fun dust _ => dust ≤ most) :=
  (returns_randomRangeNat .u64 (le_max_right _ 1) before).mono
    (fun _ _ range => range.2.trans measured.dust)

omit [Libm] in
/-- Knuth's loop returns, after as many rounds as it may take. -/
theorem poissonRounds_returns (l : Float) (rounds k : Nat) (p : Float) (before : Tape Generator) :
    Returns (poissonRounds l rounds k p) before (fun n _ => n ≤ k + rounds - 1) := by
  induction rounds generalizing k p before with
  | zero => exact returns_pure.mpr (Nat.le_refl _)
  | succ rounds inductionHypothesis =>
    refine Returns.bind (total_random.returns yields_random before) (fun unit tape _ => ?_)
    split
    · exact returns_pure.mpr (by omega)
    · exact (inductionHypothesis (k + 1) (p * unit) tape).mono (fun n _ few => by omega)

/-- There are at most sixty-four decoys. -/
theorem numDecoys_returns (policy : DecoyPolicy) (before : Tape Generator) :
    Returns (policy.numDecoys : Draw Generator Nat) before (fun n _ => n ≤ 64) := by
  unfold DecoyPolicy.numDecoys
  split
  · exact returns_pure.mpr (Nat.zero_le _)
  · exact poissonRounds_returns _ 65 0 1.0 before

/-! ### Naive and legacy wakes -/

/-- The most records of one transfer. -/
def Mode.transferRecords (mode : Mode) (policy : SplitPolicy) : Nat :=
  match mode with
  | .naive => 1
  | .cooker => policy.maxParts

/-- The most records of the decoys of a wake. -/
def Mode.decoyRecords (mode : Mode) (policy : SplitPolicy) : Nat :=
  match mode with
  | .naive => 0
  | .cooker => 64 * policy.maxParts

/-- The most records of the maintenance of a naive or legacy wake. -/
def Mode.rebalanceRecords (mode : Mode) (accounts : Nat) : Nat :=
  match mode with
  | .naive => accounts
  | .cooker => 1

omit [Rng Generator] [Libm] in
/-- A record at the time of the clock leaves one less of both. -/
theorem record_paid (allowance : Allowance limits (left + 1) (left + 1) chain) (tx : PlannedTx)
    (feePayer : AccountId) (operator : Option AgentId) (before : Tape Generator) :
    Returns (checked (chain.record tx feePayer operator)) before
      (fun next _ => Allowance limits left left next) := by
  obtain ⟨next, appended, _, less⟩ := allowance.record tx feePayer operator
  exact returns_checked.mpr ⟨next, appended, less.mono (Nat.le_succ left) le_rfl⟩

omit [Libm] in
theorem emitPart_returns (allowance : Allowance limits (left + 1) (left + 1) chain)
    (some : agent.subaccounts ≠ []) (planned : PlannedTx) (part : Nat) (before : Tape Generator) :
    Returns (emitPart agent planned chain part) before
      (fun next _ => Allowance limits left left next) := by
  refine returns_bind.mpr ⟨_, _, rfl, ?_⟩
  refine Returns.bind (choose_returns some _) (fun source tape _ => ?_)
  exact record_paid allowance _ _ _ tape

/-- A transfer of an amount within the limit is written. -/
theorem emitWithNoise_returns {mode : Mode}
    (measured : mode = .cooker → agent.persona.Measured Generator most)
    (some : agent.subaccounts ≠ []) {planned : PlannedTx}
    (small : mode = .cooker → planned.amount ≤ most)
    (allowance : Allowance limits (left + mode.transferRecords agent.persona.split)
      (left + mode.transferRecords agent.persona.split) chain) (before : Tape Generator) :
    Returns (emitWithNoise agent mode chain planned) before
      (fun next _ => Allowance limits left left next) := by
  cases mode with
  | naive => exact record_paid allowance _ _ _ before
  | cooker =>
    refine Returns.bind (partsOf_returns (measured rfl) (small rfl) before)
      (fun parts tape few => ?_)
    refine returns_foldlM_paying (fun left chain => Allowance limits left left chain) 1
      (fun left chain allowance part _ tape => emitPart_returns allowance some planned part tape)
      ?_ tape
    have enough : left + parts.length * 1 ≤ left + agent.persona.split.maxParts := by omega
    exact allowance.mono enough enough

theorem emitDecoys_returns {mode : Mode}
    (measured : mode = .cooker → agent.persona.Measured Generator most)
    (some : agent.subaccounts ≠ []) (outside : externals ≠ [])
    (allowance : Allowance limits (left + mode.decoyRecords agent.persona.split)
      (left + mode.decoyRecords agent.persona.split) chain) (before : Tape Generator) :
    Returns (emitDecoys agent externals mode chain) before
      (fun next _ => Allowance limits left left next) := by
  cases mode with
  | naive => exact returns_pure.mpr allowance
  | cooker =>
    refine Returns.bind (numDecoys_returns _ before) (fun n tape few => ?_)
    refine returns_foldlM_paying (fun left chain => Allowance limits left left chain)
      agent.persona.split.maxParts (fun left chain allowance _ _ tape => ?_) ?_ tape
    · refine Returns.bind (choose_returns some tape) (fun source tape _ => ?_)
      refine Returns.bind (choose_returns outside tape) (fun dest tape _ => ?_)
      refine Returns.bind (dustAmount_returns (measured rfl) tape) (fun dust tape small => ?_)
      exact emitWithNoise_returns measured some (fun _ => small) allowance tape
    · have enough : left + (List.range n).length * agent.persona.split.maxParts ≤
          left + 64 * agent.persona.split.maxParts := by
        rw [List.length_range]
        exact Nat.add_le_add_left (Nat.mul_le_mul_right _ few) _
      exact allowance.mono enough enough

omit [Libm] in
theorem maybeRebalance_returns {mode : Mode} (some : agent.subaccounts ≠ [])
    (allowance : Allowance limits (left + mode.rebalanceRecords agent.subaccounts.length)
      (left + mode.rebalanceRecords agent.subaccounts.length) chain) (before : Tape Generator) :
    Returns (maybeRebalance chain agent mode) before
      (fun next _ => Allowance limits left left next) := by
  have unspent : Allowance limits left left chain :=
    allowance.mono (Nat.le_add_right _ _) (Nat.le_add_right _ _)
  cases mode with
  | naive =>
    refine Returns.bind (total_random.returns yields_random before) (fun unit tape _ => ?_)
    split
    · refine returns_foldlM_paying (fun left chain => Allowance limits left left chain) 1
        (fun left chain allowance sub _ tape => ?_) ?_ tape
      · unfold consolidateInto
        split
        · exact returns_pure.mpr (allowance.mono (Nat.le_succ left) (Nat.le_succ left))
        · refine Returns.bind (returns_randomRangeNat .u64 (by decide) tape)
            (fun amount tape _ => ?_)
          exact record_paid allowance _ _ _ tape
      · rw [mul_one]
        exact allowance
    · exact returns_pure.mpr unspent
  | cooker =>
    refine Returns.bind (total_random.returns yields_random before) (fun unit tape _ => ?_)
    split
    · refine Returns.bind (choose_returns some tape) (fun source tape _ => ?_)
      refine returns_bind.mpr ⟨_, _, rfl, ?_⟩
      refine Returns.bind (returns_randomRangeNat .u64 (by decide) _) (fun amount tape _ => ?_)
      refine returns_bind.mpr ⟨_, _, rfl, ?_⟩
      exact record_paid allowance _ _ _ _
    · exact returns_pure.mpr unspent

omit [Libm] in
/-- An adapter plans one transfer, of no more than it is given. -/
theorem plan_single (kind : ActionKind) (ctx : ActionContext) :
    ∃ planned, (adapterFor kind).plan ctx = [planned] ∧ planned.amount ≤ ctx.amount := by
  cases kind
  case memo => exact ⟨_, rfl, Nat.zero_le _⟩
  all_goals exact ⟨_, rfl, le_rfl⟩

/-- The most records of a naive or legacy wake. -/
def Mode.wakeRecords (mode : Mode) (policy : SplitPolicy) (accounts : Nat) : Nat :=
  mode.rebalanceRecords accounts + mode.decoyRecords policy + mode.transferRecords policy

theorem performAction_returns {mode : Mode}
    (measured : mode = .cooker → agent.persona.Measured Generator most)
    (some : agent.subaccounts ≠ []) (outside : externals ≠ [])
    (allowance : Allowance limits
      (left + mode.wakeRecords agent.persona.split agent.subaccounts.length)
      (left + mode.wakeRecords agent.persona.split agent.subaccounts.length) chain)
    (before : Tape Generator) :
    Returns (performAction chain agent externals mode) before
      (fun next _ => Allowance limits left left next) := by
  have sampled (tape : Tape Generator) : Returns agent.persona.sampleAmount tape
      (fun amount _ => mode = .cooker → amount ≤ most) := by
    refine (sampleAmount_total agent.persona).returns ?_ tape
    cases mode with
    | naive => exact (Persona.sampleAmount_silent _).mono (fun _ _ cooker => by cases cooker)
    | cooker => exact (measured rfl).sampled.mono (fun _ small _ => small)
  refine Returns.bind ((chooseAction_total _).returns (Persona.chooseAction_silent _) before)
    (fun kind tape _ => ?_)
  refine Returns.bind (choose_returns some tape) (fun source tape _ => ?_)
  refine Returns.bind (choose_returns outside tape) (fun counterparty tape _ => ?_)
  refine Returns.bind (sampled tape) (fun amount tape small => ?_)
  obtain ⟨planned, plan, less⟩ := plan_single kind ⟨source, counterparty, amount⟩
  unfold Mode.wakeRecords at allowance
  rw [← Nat.add_assoc, ← Nat.add_assoc] at allowance
  have written : Returns (((adapterFor kind).plan ⟨source, counterparty, amount⟩).foldlM
      (emitWithNoise agent mode) chain) tape (fun next _ => Allowance limits
        (left + mode.rebalanceRecords agent.subaccounts.length +
          mode.decoyRecords agent.persona.split)
        (left + mode.rebalanceRecords agent.subaccounts.length +
          mode.decoyRecords agent.persona.split) next) := by
    rw [plan, List.foldlM_cons]
    refine Returns.bind (emitWithNoise_returns measured some
      (fun cooker => less.trans (small cooker)) allowance tape) (fun next tape allowed => ?_)
    exact returns_pure.mpr allowed
  refine Returns.bind written (fun next tape allowed => ?_)
  refine Returns.bind (emitDecoys_returns measured some outside allowed tape)
    (fun next tape allowed => ?_)
  exact maybeRebalance_returns some allowed tape

/-! ### Hardened wakes -/

/-- So many gaps and records are left to a hardened wake, whose clock is that of its chain. -/
structure Supplied (limits : Limits) (left : Nat) (clocked : Clocked) : Prop where
  allowance : Allowance limits left left clocked.chain
  time : clocked.t = clocked.chain.clock

omit [Rng Generator] [Libm] in
theorem Supplied.mono {clocked : Clocked} {fewer : Nat} (supplied : Supplied limits left clocked)
    (less : fewer ≤ left) : Supplied limits fewer clocked :=
  ⟨supplied.allowance.mono less less, supplied.time⟩

/-- No gap of a configuration is longer than the limit. -/
def Limits.Covers (limits : Limits) (cfg : SimConfig) : Prop :=
  ∀ unit, 0 ≤ unit → unit < 1 → gapOf cfg unit ≤ limits.gap

/-- Moving the clock on takes a gap. -/
theorem advance_paid {clocked : Clocked} (covers : limits.Covers cfg)
    (supplied : Supplied limits (left + 1) clocked) (before : Tape Generator) :
    Returns (clocked.advance cfg) before (fun moved _ =>
      moved.t = moved.chain.clock ∧ Allowance limits left (left + 1) moved.chain) := by
  have drawn : Returns (intraGap cfg) before
      (fun gap _ => 1 ≤ gap ∧ gap ≤ limits.gap) := by
    refine Returns.bind (total_random.returns yields_random before) ?_
    rintro unit tape ⟨low, high⟩
    exact returns_pure.mpr ⟨one_le_gapOf cfg unit, covers unit low high⟩
  refine Returns.bind drawn ?_
  rintro gap tape ⟨least, most⟩
  have allowance := supplied.allowance
  have low := allowance.low
  have clock := allowance.clock
  have horizon := limits.horizon
  have rest : (0 : Int) ≤ left * limits.gap :=
    mul_nonneg (Int.natCast_nonneg left) limits.forward
  push_cast at clock
  rw [add_mul, one_mul] at clock
  rw [supplied.time]
  refine returns_bind.mpr (returns_checked.mpr
    ⟨_, checkedI64_eq_some.mpr ⟨⟨by omega, by omega⟩, rfl⟩, returns_pure.mpr ⟨rfl, ?_⟩⟩)
  refine ⟨?_, ?_, allowance.count, allowance.sig, allowance.slot⟩
  · show i64Min ≤ clocked.chain.clock + gap
    omega
  · show max (clocked.chain.clock + gap) limits.finish + left * limits.gap ≤ limits.latest
    omega

omit [Rng Generator] [Libm] in
/-- A record behind a gap leaves a supply for the others. -/
theorem record_supplied {moved : Clocked} (time : moved.t = moved.chain.clock)
    (allowance : Allowance limits left (left + 1) moved.chain) (tx : PlannedTx)
    (feePayer : AccountId) (before : Tape Generator) :
    Returns (moved.record agent tx feePayer) before
      (fun next _ => Supplied limits left next) := by
  obtain ⟨next, appended, kept, less⟩ := allowance.record tx feePayer (some agent.id)
  refine returns_bind.mpr (returns_checked.mpr ⟨next, appended, returns_pure.mpr ⟨less, ?_⟩⟩)
  exact time.trans kept.symm

theorem hardenedParts_returns {clocked : Clocked} {planned : PlannedTx}
    (measured : agent.persona.Measured Generator most) (covers : limits.Covers cfg)
    (small : planned.amount ≤ most) (source : AccountId)
    (supplied : Supplied limits (left + agent.persona.split.maxParts) clocked)
    (before : Tape Generator) :
    Returns (hardenedParts cfg agent source clocked planned) before
      (fun next _ => Supplied limits left next) := by
  refine Returns.bind (partsOf_returns measured small before) (fun parts tape few => ?_)
  refine returns_foldlM_paying (Supplied limits) 1 (fun left clocked supplied part _ tape => ?_)
    (supplied.mono (by omega)) tape
  refine Returns.bind (advance_paid covers supplied tape) ?_
  rintro moved tape ⟨time, allowance⟩
  refine returns_bind.mpr ⟨_, _, rfl, ?_⟩
  exact record_supplied time allowance _ _ _

/-- A hardened action is written, with its decoys. -/
theorem hardenedAction_returns {clocked : Clocked}
    (measured : agent.persona.Measured Generator most) (covers : limits.Covers cfg)
    (source : AccountId) (outside : externals ≠ [])
    (supplied : Supplied limits (left + 64 + agent.persona.split.maxParts) clocked)
    (before : Tape Generator) :
    Returns (hardenedAction cfg clocked agent source externals) before
      (fun next _ => Supplied limits left next) := by
  refine Returns.bind ((chooseAction_total _).returns (Persona.chooseAction_silent _) before)
    (fun kind tape _ => ?_)
  refine Returns.bind (choose_returns outside tape) (fun counterparty tape _ => ?_)
  refine Returns.bind ((sampleAmount_total _).returns measured.sampled tape)
    (fun amount tape small => ?_)
  obtain ⟨planned, plan, less⟩ := plan_single kind ⟨source, counterparty, amount⟩
  have written : Returns (((adapterFor kind).plan ⟨source, counterparty, amount⟩).foldlM
      (hardenedParts cfg agent source) clocked) tape
        (fun next _ => Supplied limits (left + 64) next) := by
    rw [plan, List.foldlM_cons]
    refine Returns.bind (hardenedParts_returns measured covers (less.trans small) source supplied
      tape) (fun next tape allowed => ?_)
    exact returns_pure.mpr allowed
  refine Returns.bind written (fun next tape supplied => ?_)
  refine Returns.bind (numDecoys_returns _ tape) (fun n tape few => ?_)
  refine returns_foldlM_paying (Supplied limits) 1 (fun left clocked supplied _ _ tape => ?_)
    (supplied.mono (by rw [List.length_range]; omega)) tape
  refine Returns.bind (advance_paid covers supplied tape) ?_
  rintro moved tape ⟨time, allowance⟩
  refine Returns.bind (choose_returns outside tape) (fun dest tape _ => ?_)
  refine Returns.bind (dustAmount_returns measured tape) (fun dust tape _ => ?_)
  refine returns_bind.mpr ⟨_, _, rfl, ?_⟩
  exact record_supplied time allowance _ _ _

/-- The rotation of some of the accounts is written. -/
theorem rotateAccounts_supplied {clocked : Clocked} (covers : limits.Covers cfg)
    (supplied : Supplied limits (left + agent.subaccounts.length) clocked)
    (before : Tape Generator) :
    Returns (rotateAccounts cfg clocked agent) before
      (fun rotating _ => Supplied limits left rotating.clocked) := by
  unfold rotateAccounts
  split
  · exact returns_pure.mpr (supplied.mono (Nat.le_add_right _ _))
  refine returns_bind.mpr (returns_checked.mpr ⟨_, clampNat_eq_some.mpr ⟨by omega, rfl⟩, ?_⟩)
  refine returns_bind.mpr (returns_checked.mpr ⟨_, clampNat_eq_some.mpr ⟨by omega, rfl⟩, ?_⟩)
  refine Returns.bind (sweepCount_returns (by omega) before) (fun k tape between => ?_)
  have enough : k ≤ agent.subaccounts.length - 1 := by omega
  refine Returns.bind (sweepIndices_returns enough tape) ?_
  rintro idxs tape ⟨length, _, operational⟩
  have loop : Returns (idxs.foldlM (rotateOne cfg) ⟨clocked, agent⟩) tape
      (fun rotating _ => rotating.agent.subaccounts.length = agent.subaccounts.length ∧
        Supplied limits left rotating.clocked) := by
    refine returns_foldlM_paying (fun left (rotating : Rotating) =>
      rotating.agent.subaccounts.length = agent.subaccounts.length ∧
        Supplied limits left rotating.clocked) 1 ?_ ⟨rfl, supplied.mono (by omega)⟩ tape
    rintro left rotating ⟨same, supplied⟩ index member tape
    have inside : index < rotating.agent.subaccounts.length := by
      rw [same]
      exact (operational index member).2
    refine returns_bind.mpr (returns_checked.mpr ⟨_, List.getElem?_eq_getElem inside, ?_⟩)
    refine returns_bind.mpr ⟨_, _, rfl, ?_⟩
    refine Returns.bind (advance_paid covers supplied _) ?_
    rintro moved tape ⟨time, allowance⟩
    refine Returns.bind ((sampleAmount_total _).returns (Persona.sampleAmount_silent _) tape)
      (fun amount tape _ => ?_)
    refine returns_bind.mpr ⟨_, _, rfl, ?_⟩
    refine Returns.bind (record_supplied time allowance _ _ _) (fun next tape supplied => ?_)
    exact returns_pure.mpr ⟨List.length_set.trans same, supplied⟩
  exact loop.mono (fun rotating _ both => both.2)

/-- The sweep of some of the accounts is written, when the limit on them is not zero. -/
theorem consolidateSweep_supplied {clocked : Clocked} (covers : limits.Covers cfg)
    (limited : 1 ≤ cfg.hardening.sweepMaxSources)
    (supplied : Supplied limits (left + agent.subaccounts.length) clocked)
    (before : Tape Generator) :
    Returns (consolidateSweep cfg clocked agent) before
      (fun next _ => Supplied limits left next) := by
  unfold consolidateSweep
  split
  · exact returns_pure.mpr (supplied.mono (Nat.le_add_right _ _))
  refine returns_bind.mpr (returns_checked.mpr ⟨_, clampNat_eq_some.mpr ⟨by omega, rfl⟩, ?_⟩)
  refine Returns.bind (sweepCount_returns (by omega) before) (fun k tape between => ?_)
  have enough : k ≤ agent.subaccounts.length - 1 := by omega
  refine Returns.bind (sweepIndices_returns enough tape) ?_
  rintro idxs tape ⟨length, _, operational⟩
  refine returns_foldlM_paying (Supplied limits) 1
    (fun left clocked supplied index member tape => ?_)
    (supplied.mono (by omega)) tape
  refine returns_bind.mpr (returns_checked.mpr
    ⟨_, List.getElem?_eq_getElem (operational index member).2, ?_⟩)
  refine Returns.bind (advance_paid covers supplied tape) ?_
  rintro moved tape ⟨time, allowance⟩
  refine Returns.bind ((sampleAmount_total _).returns (Persona.sampleAmount_silent _) tape)
    (fun amount tape _ => ?_)
  refine returns_bind.mpr ⟨_, _, rfl, ?_⟩
  exact record_supplied time allowance _ _ _

/-- The most records of a hardened wake. -/
def hardenedRecords (policy : SplitPolicy) (accounts : Nat) : Nat :=
  max (64 + policy.maxParts) accounts

theorem performActionHardened_returns {subIdx : Nat}
    (measured : agent.persona.Measured Generator most) (covers : limits.Covers cfg)
    (limited : cfg.hardening.rebalance = .directHub → 1 ≤ cfg.hardening.sweepMaxSources)
    (inside : subIdx < agent.subaccounts.length) (outside : externals ≠ [])
    (allowance : Allowance limits
      (left + hardenedRecords agent.persona.split agent.subaccounts.length)
      (left + hardenedRecords agent.persona.split agent.subaccounts.length) chain)
    (before : Tape Generator) :
    Returns (performActionHardened chain agent subIdx externals cfg) before
      (fun acted _ => Allowance limits left left acted.1) := by
  unfold hardenedRecords at allowance
  have supplied (fewer : Nat)
      (less : fewer ≤ max (64 + agent.persona.split.maxParts) agent.subaccounts.length) :
      Supplied limits (left + fewer) ⟨chain, chain.now⟩ :=
    ⟨allowance.mono (by omega) (by omega), rfl⟩
  refine returns_bind.mpr (returns_checked.mpr ⟨_, List.getElem?_eq_getElem inside, ?_⟩)
  refine Returns.bind (total_random.returns yields_random before) (fun unit tape _ => ?_)
  split
  · have maintained : Returns (maintain cfg ⟨chain, chain.now⟩ agent) tape
        (fun rotating _ => Supplied limits left rotating.clocked) := by
      unfold maintain
      cases strategy : cfg.hardening.rebalance with
      | rotateAccounts =>
        exact rotateAccounts_supplied covers (supplied _ (le_max_right _ _)) tape
      | directHub =>
        obtain ⟨next, after, ran, supplied⟩ := consolidateSweep_supplied covers (limited strategy)
          (supplied _ (le_max_right _ _)) tape
        exact ⟨⟨next, agent⟩, after, map_eq_some.mpr ⟨next, ran, rfl⟩, supplied⟩
    refine Returns.bind maintained (fun rotating tape supplied => ?_)
    exact returns_pure.mpr supplied.allowance
  · have action := supplied _ (le_max_left _ _)
    rw [← Nat.add_assoc] at action
    refine Returns.bind (hardenedAction_returns measured covers _ outside action tape)
      (fun next tape supplied => ?_)
    exact returns_pure.mpr supplied.allowance

end Wakes

end AccountCooker
