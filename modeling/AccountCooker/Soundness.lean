/-
This file proves that the adversary's structural evidence never errs against the
simulator. The heuristics that ask for a chain of addresses, a common fee payer,
a consolidation, an activation, episodes of payments into an account that signs
or a self-funded operator's wallet, only ever join accounts that the same
operator uses: operators are isolated, and none of this evidence passes through
an external account.

What the heuristics that trust time alone see may span operators: a peel chain
ends wherever the value goes, and strangers act in the same second.
-/

import Mathlib
import AccountCooker.Closure
import AccountCooker.FunderGraph
import AccountCooker.Isolation
import AccountCooker.Pairwise

namespace AccountCooker

open Collections Draw

/-! ### One operator -/

/-- Some record of an operator mentions an account. -/
def Ledger.Uses (ledger : Ledger) (op : AgentId) (account : AccountId) : Prop :=
  ∃ record ∈ ledger.records, record.operator = some op ∧ Ledger.Mentions record account

/-- Two accounts are one, or one operator uses them both and neither is external. -/
def Ledger.OneOperator (externals : List AccountId) (ledger : Ledger)
    (first second : AccountId) : Prop :=
  first = second ∨ first ∉ externals ∧ second ∉ externals ∧
    ∃ op, ledger.Uses op first ∧ ledger.Uses op second

/-- No enabled heuristic goes by time alone: no peel chains, no co-activity, no ceiling, and
co-payments only into accounts that sign. -/
structure AdversaryConfig.Grounded (cfg : AdversaryConfig) : Prop where
  temporal : cfg.useTemporalAmount = false
  coactivity : cfg.useBurstCoactivity = false
  ceiling : cfg.useBurstUnionCeiling = false
  copay : cfg.useBurstCopay = true → cfg.useWindowed = true

section Isolated

variable {externals : List AccountId} {ledger : Ledger} {record other : TxRecord}
  {account : AccountId}

theorem Isolated.uses_unique (isolated : Isolated externals ledger) {op op' : AgentId}
    (inner : account ∉ externals) (one : ledger.Uses op account)
    (two : ledger.Uses op' account) : op = op' := by
  obtain ⟨record, member, operator, mentions⟩ := one
  obtain ⟨partner, inLedger, also, mentioned⟩ := two
  exact isolated.alone record member partner inLedger account inner mentions mentioned op op'
    operator also

theorem Isolated.oneOperator_equivalence (isolated : Isolated externals ledger) :
    Equivalence (ledger.OneOperator externals) where
  refl account := Or.inl rfl
  symm related := by
    rcases related with equal | ⟨first, second, op, one, two⟩
    · exact Or.inl equal.symm
    · exact Or.inr ⟨second, first, op, two, one⟩
  trans related next := by
    rcases related with rfl | ⟨first, middle, op, one, two⟩
    · exact next
    · rcases next with rfl | ⟨_, last, op', three, four⟩
      · exact Or.inr ⟨first, middle, op, one, two⟩
      · obtain rfl := isolated.uses_unique middle two three
        exact Or.inr ⟨first, last, op, one, four⟩

/-- A record of an operator joins what it mentions, up to external accounts. -/
theorem oneOperator_of_record {op : AgentId} (member : record ∈ ledger.records)
    (operator : record.operator = some op) {first second : AccountId}
    (one : Ledger.Mentions record first) (two : Ledger.Mentions record second)
    (inner : first ∉ externals) (alsoInner : second ∉ externals) :
    ledger.OneOperator externals first second :=
  Or.inr ⟨inner, alsoInner, op, ⟨record, member, operator, one⟩, record, member, operator, two⟩

/-- Who pays a fee and who signs have one operator. -/
theorem Isolated.sponsors (isolated : Isolated externals ledger) {payer source : AccountId}
    (sponsors : Sponsors ledger.records.toFinset payer source) :
    ledger.OneOperator externals payer source := by
  obtain ⟨record, member, rfl, rfl⟩ := sponsors
  rw [List.mem_toFinset] at member
  obtain ⟨signer, payer⟩ := isolated.inner record member
  cases operator : record.operator with
  | none => exact Or.inl (isolated.nobody record member operator).1
  | some op =>
    exact oneOperator_of_record member operator (Or.inl rfl) (Or.inr (Or.inl rfl)) payer signer

/-- A record into an account that signs is its operator's. -/
theorem Isolated.operator_of_signing (isolated : Isolated externals ledger)
    (member : record ∈ ledger.records) (inLedger : other ∈ ledger.records)
    (signs : other.source = record.dest) : ∃ op, record.operator = some op := by
  cases operator : record.operator with
  | none => exact absurd signs ((isolated.nobody record member operator).2 other inLedger)
  | some op => exact ⟨op, rfl⟩

/-- Paying into an account that signs is paying within one operator. -/
theorem Isolated.pays (isolated : Isolated externals ledger)
    (member : record ∈ ledger.records) (inLedger : other ∈ ledger.records)
    (signs : other.source = record.dest) :
    ledger.OneOperator externals record.source record.dest := by
  obtain ⟨op, operator⟩ := isolated.operator_of_signing member inLedger signs
  refine oneOperator_of_record member operator (Or.inr (Or.inl rfl)) (Or.inr (Or.inr rfl))
    (isolated.inner record member).1 ?_
  rw [← signs]
  exact (isolated.inner other inLedger).1

theorem Isolated.consolidates (isolated : Isolated externals ledger) {cfg : AdversaryConfig}
    {dest source : AccountId}
    (consolidates : Consolidates cfg ledger.records.toFinset dest source) :
    ledger.OneOperator externals dest source := by
  obtain ⟨hub, pays, _⟩ := consolidates
  obtain ⟨other, inLedger, signs⟩ := mem_signers.mp hub
  obtain ⟨record, member, _, rfl, rfl⟩ := mem_payers.mp pays
  exact isolated.oneOperator_equivalence.symm
    (isolated.pays (List.mem_toFinset.mp member) (List.mem_toFinset.mp inLedger) signs)

theorem Isolated.activates (isolated : Isolated externals ledger) {cfg : AdversaryConfig}
    {predecessor successor : AccountId}
    (activates : Activates cfg ledger.records.toFinset predecessor successor) :
    ledger.OneOperator externals predecessor successor := by
  obtain ⟨record, member, _, rfl, rfl, _, ⟨⟨other, inLedger, signs, _⟩, _⟩, _⟩ := activates
  exact isolated.pays (List.mem_toFinset.mp member) (List.mem_toFinset.mp inLedger) signs

/-- Episodes are of payments into an account that signs. -/
theorem Isolated.copays (isolated : Isolated externals ledger) {cfg : AdversaryConfig}
    (windowed : cfg.useWindowed = true) {first second : AccountId}
    (copays : Copays cfg ledger.records.toFinset first second) :
    ledger.OneOperator externals first second := by
  obtain ⟨some, _⟩ := copays
  unfold copayments at some
  rw [if_pos windowed] at some
  obtain ⟨dest, hub, shared⟩ := Finset.exists_ne_zero_of_sum_ne_zero some.ne'
  obtain ⟨episode, found⟩ := Finset.card_pos.mp (Nat.pos_of_ne_zero shared)
  obtain ⟨episodes, one, two, _⟩ := Finset.mem_filter.mp found
  obtain ⟨other, inLedger, signs⟩ := mem_signers.mp hub
  have paysHub {account : AccountId} (paying : account ∈ signers episode) :
      ledger.OneOperator externals account dest := by
    obtain ⟨record, member, rfl⟩ := mem_signers.mp paying
    obtain ⟨inside, _, rfl⟩ := Finset.mem_filter.mp (chainClasses_subset episodes member)
    exact isolated.pays (List.mem_toFinset.mp inside) (List.mem_toFinset.mp inLedger) signs
  exact isolated.oneOperator_equivalence.trans (paysHub one)
    (isolated.oneOperator_equivalence.symm (paysHub two))

/-- Where every record has an operator, whoever funds a fee payer is behind it. -/
theorem Isolated.funds (isolated : Isolated externals ledger) {cfg : AdversaryConfig}
    (labelled : ∀ record ∈ ledger.records, record.operator.isSome) {funder source : AccountId}
    (funds : Funds cfg ledger.records.toFinset funder source) :
    ledger.OneOperator externals funder source := by
  obtain ⟨_, _, behind, _⟩ := funds
  obtain ⟨record, member, _, fundee, rfl⟩ := mem_sponsored.mp behind
  obtain ⟨event, inLedger, rfl, _, dest, _⟩ := mem_fundees.mp fundee
  rw [List.mem_toFinset] at member inLedger
  obtain ⟨op, operator⟩ := Option.isSome_iff_exists.mp (labelled record member)
  obtain ⟨op', operator'⟩ := Option.isSome_iff_exists.mp (labelled event inLedger)
  obtain ⟨signer, payer⟩ := isolated.inner record member
  have topUp := oneOperator_of_record inLedger operator' (Or.inr (Or.inl rfl))
    (Or.inr (Or.inr dest.symm)) (isolated.inner event inLedger).1 payer
  exact isolated.oneOperator_equivalence.trans topUp
    (oneOperator_of_record member operator (Or.inl rfl) (Or.inr (Or.inl rfl)) payer signer)

/-- Grounded evidence joins accounts of one operator. -/
theorem Isolated.evidence (isolated : Isolated externals ledger) {cfg : AdversaryConfig}
    (grounded : cfg.Grounded) (labelled : cfg.useFunderGraph = true →
      ∀ record ∈ ledger.records, record.operator.isSome) {first second : AccountId}
    (evidence : Evidence cfg ledger.records.toFinset first second) :
    ledger.OneOperator externals first second := by
  rcases evidence with ⟨_, sponsors⟩ | ⟨_, consolidates⟩ | ⟨temporal, _⟩ | ⟨_, activates⟩ |
    ⟨copay, copays⟩ | ⟨coactivity, _⟩ | ⟨funder, funds⟩ | ⟨ceiling, _⟩
  · exact isolated.sponsors sponsors
  · exact isolated.consolidates consolidates
  · exact absurd (grounded.temporal.symm.trans temporal) (by simp)
  · exact isolated.activates activates
  · exact isolated.copays (grounded.copay copay) copays
  · exact absurd (grounded.coactivity.symm.trans coactivity) (by simp)
  · exact isolated.funds (labelled funder) funds
  · exact absurd (grounded.ceiling.symm.trans ceiling) (by simp)

/-- The operator of an owned account uses it, and it is not external. -/
theorem Isolated.uses_of_owned (isolated : Isolated externals ledger) {op : AgentId}
    (owned : ledger.ownership.lookup account = some op) :
    ledger.Uses op account ∧ account ∉ externals := by
  rw [Ledger.ownership_eq] at owned
  obtain ⟨record, member, rfl, operator⟩ := mem_labels.mp (mem_of_lookup_insertAll owned)
  exact ⟨⟨record, member, operator, Or.inr (Or.inl rfl)⟩, (isolated.inner record member).1⟩

/-- Owned accounts that one operator uses have one owner. -/
theorem Isolated.owner_of_oneOperator (isolated : Isolated externals ledger)
    {first second : AccountId} {op op' : AgentId}
    (related : ledger.OneOperator externals first second)
    (one : ledger.ownership.lookup first = some op)
    (two : ledger.ownership.lookup second = some op') : op = op' := by
  obtain ⟨uses, inner⟩ := isolated.uses_of_owned one
  obtain ⟨alsoUses, alsoInner⟩ := isolated.uses_of_owned two
  rcases related with rfl | ⟨_, _, other, left, right⟩
  · exact Option.some.inj (one.symm.trans two)
  · exact (isolated.uses_unique inner uses left).trans
      (isolated.uses_unique alsoInner right alsoUses)

end Isolated

/-! ### Precision -/

/-- Without false positives the precision is one, or zero where no pair is found. -/
theorem precision_of_sound {order : HashOrder} {ledger : Ledger} {clustering : Clustering}
    {windowSecs : Int} {report : Report}
    (covers : ∀ account ∈ attributedAccounts ledger, (clustering.clusterOf.lookup account).isSome)
    (sound : falsePositives ledger clustering = 0)
    (scored : evaluate order ledger clustering windowSecs = some report) :
    report.attributionPrecision =
      if 0 < truePositives ledger clustering then 1.0 else 0.0 := by
  simp only [evaluate, Option.bind_eq_bind, Option.bind_eq_some_iff, Option.pure_def,
    Option.some_inj] at scored
  obtain ⟨counts, counted, fp, falsePositive, fn, _, predicted, predictedSum, _, _, _, _, _, _, _,
    _, rfl⟩ := scored
  obtain ⟨tp, predPos, _⟩ := confusion_pairwise covers counted
  have nothing : fp = 0 := by
    unfold checkedSub at falsePositive
    rw [predPos, sound, Nat.add_zero, tp, if_pos (le_refl _), Nat.sub_self,
      Option.some_inj] at falsePositive
    exact falsePositive.symm
  obtain ⟨bounded, rfl⟩ := checkedU64_eq_some.mp predictedSum
  rw [nothing, Nat.add_zero, tp] at bounded ⊢
  show ratio (truePositives ledger clustering) (truePositives ledger clustering) = _
  by_cases positive : 0 < truePositives ledger clustering
  · rw [if_pos positive, ratio_self positive bounded]
  · unfold ratio
    rw [if_neg positive, if_neg positive]

/-! ### Simulated ledgers -/

/-- No fee payer of a run is topped up by somebody else. -/
def SimConfig.SelfFunded (cfg : SimConfig) : Prop :=
  cfg.mode = .naive ∨ ∀ fcfg, cfg.funding = some fcfg → fcfg.OperatorOwned

section Simulated

variable {Generator : Type} [Rng Generator] [Libm] {personas : List Persona} {cfg : SimConfig}
  {ledger : Ledger}

theorem simulate_slots (fuel : Nat)
    (simulated : simulate Generator fuel personas cfg = Outcome.returned ledger)
    (distinct : (allIds Generator fuel personas cfg).Nodup) :
    (ledger.records.map (·.slot)).Nodup ∧ ∀ record ∈ ledger.records, record.slot ≤ u64Max := by
  rcases simulate_cases fuel simulated distinct with ⟨_, _, _, _, finished, rfl⟩ |
    ⟨_, _, _, _, _, _, _, _, _, finished, records, run⟩
  · obtain ⟨first, reached⟩ := finished.reached
    exact ⟨reached.slots_nodup, reached.slots_bounded⟩
  · rw [records]
    exact finished.slots run.appended

/-- Where nobody else tops up, every record has an operator. -/
theorem simulate_labelled (fuel : Nat)
    (simulated : simulate Generator fuel personas cfg = Outcome.returned ledger)
    (distinct : (allIds Generator fuel personas cfg).Nodup) (selfFunded : cfg.SelfFunded) :
    ∀ record ∈ ledger.records, record.operator.isSome := by
  intro record member
  rcases simulate_cases fuel simulated distinct with ⟨_, _, _, _, finished, rfl⟩ |
    ⟨fcfg, funding, cooker, _, _, _, _, _, _, _, records, run⟩
  · obtain ⟨id, operator, _⟩ := finished.signed record member
    rw [operator]
    rfl
  · have own := selfFunded.resolve_left (by rw [cooker]; decide) fcfg funding
    rw [records] at member
    rcases List.mem_append.mp member with base | topUp
    · obtain ⟨id, operator, _⟩ := run.custody.signed record base
      rw [operator]
      rfl
    · obtain ⟨_, _, tops⟩ := run.appended.each record topUp
      obtain ⟨op, _, allowed⟩ := tops.funder
      rw [run.labelled record (List.mem_append_right _ topUp),
        run.behind_assigned (run.assigned_of_allowed own allowed)]
      rfl

/-- Grounded evidence never errs: on the ledger of any run, whatever its engine, its hardening,
its rebalancing and, unless funders are followed, its funding, no cluster holds accounts of two
operators, and the precision reported is one as soon as a pair is found. -/
theorem clusters_sound (fuel : Nat) (personas : List Persona) (cfg : SimConfig) (ledger : Ledger)
    (adversary : AdversaryConfig) (order : HashOrder)
    (simulated : simulate Generator fuel personas cfg = Outcome.returned ledger)
    (distinct : (allIds Generator fuel personas cfg).Nodup) (grounded : adversary.Grounded)
    (funders : adversary.useFunderGraph = true → cfg.SelfFunded) :
    ∃ clustering, cluster order ledger adversary = some clustering ∧
      (∀ first second op op', ledger.ownership.lookup first = some op →
        ledger.ownership.lookup second = some op' →
          clustering.clusterOf.lookup first = clustering.clusterOf.lookup second → op = op') ∧
      falsePositives ledger clustering = 0 ∧
      ∀ report, analyze order ledger adversary = some (clustering, report) →
        report.attributionPrecision =
          if 0 < truePositives ledger clustering then 1.0 else 0.0 := by
  obtain ⟨built, _, isolated⟩ := simulate_isolated fuel simulated distinct
  obtain ⟨nodup, bounded⟩ := simulate_slots fuel simulated distinct
  have measurable : Measurable adversary ledger.records :=
    ⟨nodup, bounded, fun enabled => absurd (grounded.temporal.symm.trans enabled) (by simp),
      fun enabled => absurd (grounded.temporal.symm.trans enabled) (by simp)⟩
  have labelled (enabled : adversary.useFunderGraph = true) :=
    simulate_labelled fuel simulated distinct (funders enabled)
  obtain ⟨clustering, computed, joined, covered, _⟩ := cluster_closure measurable
  have clustered := computed order ledger (List.Perm.refl _)
  have listed {account : AccountId} {op : AgentId}
      (owned : ledger.ownership.lookup account = some op) : account ∈ ledger.accounts.keys := by
    obtain ⟨⟨record, member, _, mentions⟩, _⟩ := isolated.uses_of_owned owned
    exact (Ledger.mem_accounts _ _).mpr ⟨record, member, mentions⟩
  have sound (first second : AccountId) (op op' : AgentId)
      (one : ledger.ownership.lookup first = some op)
      (two : ledger.ownership.lookup second = some op')
      (same : clustering.clusterOf.lookup first = clustering.clusterOf.lookup second) :
      op = op' := by
    have linked := (joined first (listed one) second (listed two)).mp same
    have related := isolated.oneOperator_equivalence.eqvGen_iff.mp
      (linked.mono (fun x y => isolated.evidence grounded labelled))
    exact isolated.owner_of_oneOperator related one two
  have none : falsePositives ledger clustering = 0 := by
    refine (pairsWhere_eq_zero (fun first second both => ?_)).mpr
      (fun first one second two _ both => ?_)
    · obtain ⟨cluster, left, right⟩ := both.2
      exact ⟨fun equal => both.1 equal.symm, cluster, right, left⟩
    · obtain ⟨op, owned⟩ := Option.isSome_iff_exists.mp (mem_attributedAccounts.mp one)
      obtain ⟨op', owned'⟩ := Option.isSome_iff_exists.mp (mem_attributedAccounts.mp two)
      obtain ⟨cluster, left, right⟩ := both.2
      obtain rfl := sound first second op op' owned owned' (left.trans right.symm)
      exact both.1 (owned.trans owned'.symm)
  refine ⟨clustering, clustered, sound, none, fun report analyzed => ?_⟩
  simp only [analyze, Option.bind_eq_bind, Option.bind_eq_some_iff, Option.pure_def,
    Option.some_inj, Prod.mk.injEq] at analyzed
  obtain ⟨_, _, _, scored, rfl, rfl⟩ := analyzed
  refine precision_of_sound (fun account attributed => ?_) none scored
  obtain ⟨op, owned⟩ := Option.isSome_iff_exists.mp (mem_attributedAccounts.mp attributed)
  exact (covered account).mpr (listed owned)

end Simulated

/-- Windowed co-payments without peel chains, and funders followed from two fee payers on. -/
def AdversaryConfig.grounded : AdversaryConfig :=
  { AdversaryConfig.windowed 120 with
    useTemporalAmount := false
    useFunderGraph := true
    funderMinFundees := 2 }

/-- In the small run funded from the hubs, three pairs of accounts are found and all of them have
one operator. -/
theorem clusters_sound_hubRun : ∃ (ledger : Ledger) (clustering : Clustering),
    simulate Counter 3 [Persona.retail] hubRun = Outcome.returned ledger ∧
    cluster HashOrder.asWritten ledger AdversaryConfig.grounded = some clustering ∧
    truePositives ledger clustering = 3 ∧ falsePositives ledger clustering = 0 := by
  obtain ⟨ledger, simulated, _⟩ := hubRun_simulated
  have found : ((simulate Counter 3 [Persona.retail] hubRun).result?.bind (fun ledger =>
      (cluster HashOrder.asWritten ledger AdversaryConfig.grounded).map
        (truePositives ledger))) = some 3 := by
    decide +kernel
  obtain ⟨clustering, clustered, _, none, _⟩ :=
    clusters_sound 3 _ _ ledger AdversaryConfig.grounded HashOrder.asWritten simulated
      hubRun_distinct ⟨rfl, rfl, rfl, fun _ => rfl⟩
      (fun _ => Or.inr (fun _ funding => Option.some.inj funding ▸ Or.inl rfl))
  rw [simulated] at found
  replace found : (cluster HashOrder.asWritten ledger AdversaryConfig.grounded).map
      (truePositives ledger) = some 3 := found
  rw [clustered] at found
  exact ⟨ledger, clustering, simulated, clustered, Option.some.inj found, none⟩

end AccountCooker
