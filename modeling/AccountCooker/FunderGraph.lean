/-
This file proves what the common-funder graph sees. In the ledger of a funded
cooker run a fee payer is either a throwaway, which only its top-up ever pays,
or a funder, which among the agents only the owner of a hub pays. So the graph
of a funder that serves two fee payers is exactly its top-ups: enough to recover
the funding numbers, and to link the fleet again when operators fund
themselves. The main accounts of a naive run pay fees as well, and a
consolidation into one of them looks like funding.
-/

import Mathlib
import AccountCooker.Truth
import AccountCooker.Features

namespace AccountCooker

open Collections Draw

/-! ### Top-ups as edges -/

section FundedRun

variable {cfg : SimConfig} {fcfg : FundingConfig} {externals : List AccountId}
  {owner : AccountId → Option AgentId} {view : View}
  {assigned : List AccountId × BTreeMap AgentId (AccountId × Option AgentId)}
  {wallets : List AccountId} {suffix : List TxRecord}

/-- The fee payers a funder tops up. -/
def toppedUp (suffix : List TxRecord) (funder : AccountId) : Finset AccountId :=
  ((suffix.filter (fun event => event.source = funder)).map (·.dest)).toFinset

theorem mem_toppedUp {suffix : List TxRecord} {funder feePayer : AccountId} :
    feePayer ∈ toppedUp suffix funder ↔
      ∃ event ∈ suffix, event.source = funder ∧ event.dest = feePayer := by
  unfold toppedUp
  rw [List.mem_toFinset, List.mem_map]
  simp only [List.mem_filter, decide_eq_true_eq, and_assoc]

/-- A base record is never paid for by its source. -/
theorem FundedRun.payer_apart
    (run : FundedRun cfg fcfg externals owner view assigned wallets suffix) {record : TxRecord}
    (member : record ∈ view.chain.ledger.records) : record.feePayer ≠ record.source :=
  run.throwaways.unsigned record member record member

/-- A payment to a throwaway is its top-up. -/
theorem FundedRun.topUp_of_paid
    (run : FundedRun cfg fcfg externals owner view assigned wallets suffix)
    {record paid : TxRecord} (member : record ∈ view.chain.ledger.records)
    (inLedger : paid ∈ view.chain.ledger.records ++ suffix) (dest : paid.dest = record.feePayer) :
    paid ∈ suffix ∧ TopUp fcfg assigned record paid := by
  rcases List.mem_append.mp inLedger with base | topUp
  · exact absurd dest ((run.custody.payers run.cooker record member).2.2 paid base)
  · exact ⟨topUp, run.appended.topUp_of_dest run.throwaways.apart topUp member dest.symm⟩

/-- The accounts behind some fee payers are the sources of the base records these pay for. -/
theorem FundedRun.mem_sponsored
    (run : FundedRun cfg fcfg externals owner view assigned wallets suffix)
    {feePayers : Finset AccountId} {source : AccountId} :
    source ∈ sponsored (view.chain.ledger.records ++ suffix).toFinset feePayers ↔
      ∃ record ∈ view.chain.ledger.records, record.feePayer ∈ feePayers ∧
        record.source = source := by
  rw [AccountCooker.mem_sponsored]
  constructor
  · rintro ⟨record, member, apart, paid, signs⟩
    rcases List.mem_append.mp (List.mem_toFinset.mp member) with base | topUp
    · exact ⟨record, base, paid, signs⟩
    · obtain ⟨_, _, tops⟩ := run.appended.each record topUp
      exact absurd tops.payer apart
  · rintro ⟨record, base, paid, signs⟩
    exact ⟨record, List.mem_toFinset.mpr (List.mem_append_left _ base), run.payer_apart base, paid,
      signs⟩

/-- What a funder tops up are its fundees. -/
theorem FundedRun.toppedUp_subset
    (run : FundedRun cfg fcfg externals owner view assigned wallets suffix) (funder : AccountId) :
    toppedUp suffix funder ⊆ fundees (view.chain.ledger.records ++ suffix).toFinset funder := by
  intro feePayer member
  obtain ⟨event, inSuffix, source, dest⟩ := mem_toppedUp.mp member
  obtain ⟨record, inBase, tops⟩ := run.appended.each event inSuffix
  exact mem_fundees.mpr ⟨event, List.mem_toFinset.mpr (List.mem_append_right _ inSuffix), source,
    tops.apart, dest, record, List.mem_toFinset.mpr (List.mem_append_left _ inBase),
    tops.dest.symm.trans dest⟩

/-- A base record that pays a fee payer pays the hub of its own operator, from elsewhere. -/
theorem FundedRun.hub_of_paid
    (run : FundedRun cfg fcfg externals owner view assigned wallets suffix)
    {record payer : TxRecord} (member : record ∈ view.chain.ledger.records)
    (inLedger : payer ∈ view.chain.ledger.records ++ suffix)
    (dest : record.dest = payer.feePayer) :
    ∃ id, owner record.source = some id ∧
      (hubsOf view.agents).get? id = some record.dest := by
  rcases List.mem_append.mp inLedger with base | topUp
  · exact absurd dest ((run.custody.payers run.cooker payer base).2.2 record member)
  · obtain ⟨_, _, tops⟩ := run.appended.each payer topUp
    obtain ⟨op, _, allowed⟩ := tops.funder
    rw [tops.payer] at dest
    rcases run.funder_place allowed with drew | ⟨hub, owned⟩
    · -- What was drawn after the run was not paid in it.
      exact absurd dest ((List.nodup_append.mp run.fresh).2.2 _
        (run.custody.mentioned record member).1 _ drew)
    · rw [← dest] at owned hub
      obtain ⟨id, operator, signer⟩ := run.custody.signed record member
      have toward := run.custody.toward record member op owned
      obtain rfl := Option.some.inj (operator.symm.trans toward)
      exact ⟨id, signer, hub⟩

/-- The fundees of a funder are what it tops up; an account that tops up nothing has at most its
own hub for a fundee. -/
theorem FundedRun.fundees_eq
    (run : FundedRun cfg fcfg externals owner view assigned wallets suffix) (funder : AccountId) :
    fundees (view.chain.ledger.records ++ suffix).toFinset funder = toppedUp suffix funder ∨
      toppedUp suffix funder = ∅ ∧
        (fundees (view.chain.ledger.records ++ suffix).toFinset funder).card ≤ 1 := by
  -- A fundee that is not topped up is the hub of the owner.
  have hub {feePayer : AccountId}
      (member : feePayer ∈ fundees (view.chain.ledger.records ++ suffix).toFinset funder)
      (other : feePayer ∉ toppedUp suffix funder) : funder ≠ feePayer ∧
        ∃ id, owner funder = some id ∧ (hubsOf view.agents).get? id = some feePayer := by
    obtain ⟨record, inLedger, rfl, apart, rfl, payer, alsoInLedger, pays⟩ := mem_fundees.mp member
    rcases List.mem_append.mp (List.mem_toFinset.mp inLedger) with base | topUp
    · exact ⟨apart, run.hub_of_paid base (List.mem_toFinset.mp alsoInLedger) pays.symm⟩
    · exact absurd (mem_toppedUp.mpr ⟨record, topUp, rfl, rfl⟩) other
  by_cases none : toppedUp suffix funder = ∅
  · refine Or.inr ⟨none, Finset.card_le_one.mpr (fun first one second two => ?_)⟩
    obtain ⟨_, id, owned, atFirst⟩ := hub one (by rw [none]; exact Finset.notMem_empty _)
    obtain ⟨_, id', owned', atSecond⟩ := hub two (by rw [none]; exact Finset.notMem_empty _)
    obtain rfl := Option.some.inj (owned.symm.trans owned')
    exact Option.some.inj (atFirst.symm.trans atSecond)
  · refine Or.inl (Finset.Subset.antisymm (fun feePayer member => ?_) (run.toppedUp_subset funder))
    by_contra other
    obtain ⟨apart, id, owned, found⟩ := hub member other
    -- A funder that is owned is a hub, and the hub of its owner.
    obtain ⟨topped, member⟩ := Finset.nonempty_iff_ne_empty.mpr none
    obtain ⟨event, inSuffix, rfl, _⟩ := mem_toppedUp.mp member
    obtain ⟨_, _, tops⟩ := run.appended.each event inSuffix
    obtain ⟨op, _, allowed⟩ := tops.funder
    rcases run.funder_place allowed with drew | ⟨hub, ownHub⟩
    · exact absurd owned (by rw [run.unowned drew]; simp)
    · obtain rfl := Option.some.inj (owned.symm.trans ownHub)
      exact apart (Option.some.inj (hub.symm.trans found))

/-! ### Funders of their own -/

/-- Operators pay for the top-ups of their own fee payers. -/
def FundingConfig.OperatorOwned (fcfg : FundingConfig) : Prop :=
  fcfg.policy = .operatorHub ∨ fcfg.policy = .dedicatedFunder

/-- Under operator-owned funding an allowed funder is the one assigned, and labelled. -/
theorem FundedRun.assigned_of_allowed
    (run : FundedRun cfg fcfg externals owner view assigned wallets suffix)
    (own : fcfg.OperatorOwned) {op : AgentId} {funder : AccountId} {label : Option AgentId}
    (allowed : fcfg.Allows assigned op funder label) :
    assigned.2.get? op = some (funder, some op) := by
  unfold FundingConfig.Allows FundingConfig.perEventRelayer at allowed
  rcases own with hub | dedicated
  · rw [hub, if_neg Bool.false_ne_true] at allowed
    have given := run.assigns.gives op _ _ allowed
    rw [hub] at given
    rw [allowed, given.2]
  · rw [dedicated, if_neg Bool.false_ne_true] at allowed
    have given := run.assigns.gives op _ _ allowed
    rw [dedicated] at given
    rw [allowed, given.2]

/-- A funder that is linked to a source is linked to a source of its own operator. -/
theorem FundedRun.funds_behind
    (run : FundedRun cfg fcfg externals owner view assigned wallets suffix)
    (own : fcfg.OperatorOwned) {adversary : AdversaryConfig} {funder source : AccountId}
    (funds : Funds adversary (view.chain.ledger.records ++ suffix).toFinset funder source) :
    behind owner assigned.2 funder = behind owner assigned.2 source := by
  obtain ⟨record, base, fundee, rfl⟩ := run.mem_sponsored.mp funds.2.2.1
  obtain ⟨event, inLedger, rfl, _, dest, _⟩ := mem_fundees.mp fundee
  obtain ⟨_, tops⟩ := run.topUp_of_paid base (List.mem_toFinset.mp inLedger) dest
  obtain ⟨op, operator, allowed⟩ := tops.funder
  rw [run.behind_assigned (run.assigned_of_allowed own allowed),
    ← run.labelled record (List.mem_append_left _ base), operator]

/-- The throwaways of an operator in some records. -/
def throwawaysOf (records : List TxRecord) (op : AgentId) : Finset AccountId :=
  ((records.filter (fun record => record.operator = some op)).map (·.feePayer)).toFinset

/-- The accounts an operator signs from in some records. -/
def signersOf (records : List TxRecord) (op : AgentId) : Finset AccountId :=
  ((records.filter (fun record => record.operator = some op)).map (·.source)).toFinset

theorem mem_throwawaysOf {records : List TxRecord} {op : AgentId} {feePayer : AccountId} :
    feePayer ∈ throwawaysOf records op ↔
      ∃ record ∈ records, record.operator = some op ∧ record.feePayer = feePayer := by
  unfold throwawaysOf
  rw [List.mem_toFinset, List.mem_map]
  simp only [List.mem_filter, decide_eq_true_eq, and_assoc]

theorem mem_signersOf {records : List TxRecord} {op : AgentId} {source : AccountId} :
    source ∈ signersOf records op ↔
      ∃ record ∈ records, record.operator = some op ∧ record.source = source := by
  unfold signersOf
  rw [List.mem_toFinset, List.mem_map]
  simp only [List.mem_filter, decide_eq_true_eq, and_assoc]

/-- The fee payers of a base record are funded by the funder of its operator. -/
theorem FundedRun.payer_mem_fundees
    (run : FundedRun cfg fcfg externals owner view assigned wallets suffix)
    (own : fcfg.OperatorOwned) {op : AgentId} {funder : AccountId}
    (found : assigned.2.get? op = some (funder, some op)) {record : TxRecord}
    (member : record ∈ view.chain.ledger.records) :
    record.feePayer ∈ fundees (view.chain.ledger.records ++ suffix).toFinset funder ↔
      record.operator = some op := by
  constructor
  · intro fundee
    obtain ⟨event, inLedger, rfl, _, dest, _⟩ := mem_fundees.mp fundee
    obtain ⟨_, tops⟩ := run.topUp_of_paid member (List.mem_toFinset.mp inLedger) dest
    obtain ⟨other, operator, allowed⟩ := tops.funder
    have same := run.behind_assigned (run.assigned_of_allowed own allowed)
    rw [run.behind_assigned found] at same
    rw [operator, same]
  · intro operator
    obtain ⟨event, inSuffix, tops⟩ := run.appended.all record member
    obtain ⟨other, labelled, allowed⟩ := tops.funder
    obtain rfl := Option.some.inj (operator.symm.trans labelled)
    have same := run.assigned_of_allowed own allowed
    obtain ⟨rfl, _⟩ := Prod.mk.inj (Option.some.inj (found.symm.trans same))
    exact run.toppedUp_subset _ (mem_toppedUp.mpr ⟨event, inSuffix, rfl, tops.dest⟩)

/-- The funder of an operator reaches exactly the accounts the operator signs from. -/
theorem FundedRun.sponsored_eq
    (run : FundedRun cfg fcfg externals owner view assigned wallets suffix)
    (own : fcfg.OperatorOwned) {op : AgentId} {funder : AccountId}
    (found : assigned.2.get? op = some (funder, some op)) :
    sponsored (view.chain.ledger.records ++ suffix).toFinset
        (fundees (view.chain.ledger.records ++ suffix).toFinset funder) =
      signersOf view.chain.ledger.records op := by
  ext source
  rw [run.mem_sponsored, mem_signersOf]
  refine exists_congr (fun record => and_congr_right (fun base => and_congr_left' ?_))
  exact run.payer_mem_fundees own found base

/-- The funder of an operator with enough fee payers and a few sources is linked to each of
them. -/
theorem FundedRun.funds_of_signer
    (run : FundedRun cfg fcfg externals owner view assigned wallets suffix)
    (own : fcfg.OperatorOwned) {adversary : AdversaryConfig} {op : AgentId} {funder : AccountId}
    (found : assigned.2.get? op = some (funder, some op))
    (enough : adversary.funderMinFundees ≤ (throwawaysOf view.chain.ledger.records op).card)
    (several : 2 ≤ (signersOf view.chain.ledger.records op).card)
    (few : (signersOf view.chain.ledger.records op).card ≤ adversary.funderMaxSources)
    {source : AccountId} (signs : source ∈ signersOf view.chain.ledger.records op) :
    Funds adversary (view.chain.ledger.records ++ suffix).toFinset funder source := by
  have inside : throwawaysOf view.chain.ledger.records op ⊆
      fundees (view.chain.ledger.records ++ suffix).toFinset funder := by
    intro feePayer member
    obtain ⟨record, base, operator, rfl⟩ := mem_throwawaysOf.mp member
    exact (run.payer_mem_fundees own found base).mpr operator
  obtain ⟨record, base, operator, _⟩ := mem_signersOf.mp signs
  unfold Funds
  rw [run.sponsored_eq own found]
  exact ⟨⟨record.feePayer, inside (mem_throwawaysOf.mpr ⟨record, base, operator, rfl⟩)⟩,
    enough.trans (Finset.card_le_card inside), signs, several, few⟩

end FundedRun

/-! ### The common-funder graph alone -/

/-- Only the common-funder graph is enabled. -/
structure AdversaryConfig.FunderGraphOnly (cfg : AdversaryConfig) : Prop where
  funder : cfg.useFunderGraph = true
  feePayer : cfg.useFeePayer = false
  cospend : cfg.useCospend = false
  temporal : cfg.useTemporalAmount = false
  lineage : cfg.useActivationLineage = false
  copay : cfg.useBurstCopay = false
  coactivity : cfg.useBurstCoactivity = false
  ceiling : cfg.useBurstUnionCeiling = false

/-- The default adversary, reduced to the common-funder graph. -/
def AdversaryConfig.funders : AdversaryConfig :=
  { AdversaryConfig.feePayers with
    useFeePayer := false
    useFunderGraph := true }

theorem evidence_funderGraphOnly {cfg : AdversaryConfig} (only : cfg.FunderGraphOnly)
    (records : Finset TxRecord) : Evidence cfg records = Funds cfg records := by
  funext first second
  unfold Evidence
  rw [only.funder, only.feePayer, only.cospend, only.temporal, only.lineage, only.copay,
    only.coactivity, only.ceiling]
  simp

section Simulated

variable {Generator : Type} [Rng Generator] [Libm] {personas : List Persona} {cfg : SimConfig}
  {fuel : Nat} {built final : RunState Generator} {owner : AccountId → Option AgentId}

/-- The slots of a funded ledger are distinct and within their range. -/
theorem Finished.slots (finished : Finished fuel personas cfg built final owner)
    {fcfg : FundingConfig}
    {assigned : List AccountId × BTreeMap AgentId (AccountId × Option AgentId)}
    {suffix : List TxRecord}
    (appended : Suffix fcfg assigned final.chain.ledger.records suffix) :
    ((final.chain.ledger.records ++ suffix).map (·.slot)).Nodup ∧
      ∀ record ∈ final.chain.ledger.records ++ suffix, record.slot ≤ u64Max := by
  obtain ⟨first, reached⟩ := finished.reached
  refine ⟨slots_nodup_of_numbered (fun index record found =>
    (appended.ledger_numbered reached.ordered.numbered.record found).2), fun record member => ?_⟩
  rcases List.mem_append.mp member with base | topUp
  · exact reached.slots_bounded record base
  · obtain ⟨index, found⟩ := List.mem_iff_getElem?.mp topUp
    exact (appended.numbered index record found).2.2

/-- Operators that fund themselves link their fleet again, exactly: the common-funder graph alone
joins no two owned accounts of different operators, and joins all accounts of every operator with
enough throwaways and a few sources, its hub or dedicated wallet among them. -/
theorem funder_relinks (fuel : Nat) (personas : List Persona) (cfg : SimConfig) (ledger : Ledger)
    (fcfg : FundingConfig) (adversary : AdversaryConfig) (order : HashOrder)
    (funding : cfg.funding = some fcfg) (own : fcfg.OperatorOwned) (cooker : cfg.mode = .cooker)
    (simulated : simulate Generator fuel personas cfg = Outcome.returned ledger)
    (distinct : (allIds Generator fuel personas cfg).Nodup)
    (only : adversary.FunderGraphOnly) :
    ∃ (final : RunState Generator) (base : Ledger)
      (assigned : List AccountId × BTreeMap AgentId (AccountId × Option AgentId))
      (clustering : Clustering),
      finalState fuel personas cfg = Outcome.returned final ∧
      simulate Generator fuel personas cfg.unfunded = Outcome.returned base ∧
      assignedFunders fcfg cfg final = some assigned ∧
      cluster order ledger adversary = some clustering ∧
      (∀ first second op op', ledger.ownership.lookup first = some op →
        ledger.ownership.lookup second = some op' →
          clustering.clusterOf.lookup first = clustering.clusterOf.lookup second → op = op') ∧
      ∀ op, adversary.funderMinFundees ≤ (throwawaysOf base.records op).card →
        2 ≤ (signersOf base.records op).card →
        (signersOf base.records op).card ≤ adversary.funderMaxSources →
        ∃ funder, assigned.2.get? op = some (funder, some op) ∧
          (fcfg.policy = .operatorHub → (hubsOf final.agents).get? op = some funder) ∧
          ledger.ownership.lookup funder = some op ∧
          ∀ account, ledger.ownership.lookup account = some op →
            clustering.clusterOf.lookup account = clustering.clusterOf.lookup funder := by
  obtain ⟨built, final, owner, assigned, wallets, suffix, finished, records, assigning, run⟩ :=
    simulate_fundedRun fuel funding cooker simulated distinct
  have labelled : LabelledBy (behind owner assigned.2) ledger.records := by
    rw [records]
    exact run.labelled
  have measurable : Measurable adversary ledger.records := by
    rw [records]
    obtain ⟨nodup, bounded⟩ := finished.slots run.appended
    exact ⟨nodup, bounded, fun enabled => absurd (only.temporal.symm.trans enabled) (by simp),
      fun enabled => absurd (only.temporal.symm.trans enabled) (by simp)⟩
  have clustered := cluster_evidence order measurable (List.Perm.refl _)
  rw [evidence_funderGraphOnly only] at clustered
  have owned {account : AccountId} {op : AgentId} := lookup_ownership_eq_some labelled account op
  have same {first second : AccountId} {op op' : AgentId}
      (one : ledger.ownership.lookup first = some op)
      (other : ledger.ownership.lookup second = some op') :
      (clusteringOf (Relation.EqvGen (Funds adversary ledger.records.toFinset))
          ledger).clusterOf.lookup first =
        (clusteringOf (Relation.EqvGen (Funds adversary ledger.records.toFinset))
          ledger).clusterOf.lookup second ↔
        Relation.EqvGen (Funds adversary ledger.records.toFinset) first second := by
    obtain ⟨⟨record, member, rfl⟩, _⟩ := owned.mp one
    obtain ⟨⟨partner, inLedger, rfl⟩, _⟩ := owned.mp other
    exact clusteringOf_eq_iff (Relation.EqvGen.is_equivalence _)
      (Ledger.source_mem_accounts member) (Ledger.source_mem_accounts inLedger)
  refine ⟨final, final.chain.ledger, assigned, _, finished.ended,
    simulate_unfunded fuel finished.ended, assigning, clustered,
    fun first second op op' one other equal => ?_, fun op enough several few => ?_⟩
  · have equivalence := eq_equivalence.comap (behind owner assigned.2)
    have behinds (funder source : AccountId)
        (funds : Funds adversary ledger.records.toFinset funder source) :
        behind owner assigned.2 funder = behind owner assigned.2 source := by
      rw [records] at funds
      exact run.funds_behind own funds
    have alike := equivalence.eqvGen_iff.mp (((same one other).mp equal).mono behinds)
    exact Option.some.inj ((owned.mp one).2.symm.trans (alike.trans (owned.mp other).2))
  · obtain ⟨source, signs⟩ := Finset.card_pos.mp (lt_of_lt_of_le Nat.zero_lt_two several)
    obtain ⟨record, inBase, operator, _⟩ := mem_signersOf.mp signs
    obtain ⟨event, inSuffix, tops⟩ := run.appended.all record inBase
    obtain ⟨other, labelledOther, allowed⟩ := tops.funder
    obtain rfl := Option.some.inj (operator.symm.trans labelledOther)
    have found := run.assigned_of_allowed own allowed
    have inLedger : event ∈ ledger.records := by
      rw [records]
      exact List.mem_append_right _ inSuffix
    have funderOwned := owned.mpr ⟨⟨event, inLedger, rfl⟩, run.behind_assigned found⟩
    refine ⟨event.source, found, fun hub => ?_, funderOwned, fun account accountOwned => ?_⟩
    · have given := run.assigns.gives op _ _ found
      rw [hub] at given
      exact given.1
    · refine (same accountOwned funderOwned).mpr ?_
      obtain ⟨⟨signed, alsoInLedger, rfl⟩, belongs⟩ := owned.mp accountOwned
      have signedOperator := labelled signed alsoInLedger
      rw [belongs] at signedOperator
      rw [records] at alsoInLedger ⊢
      rcases List.mem_append.mp alsoInLedger with base | topUp
      · exact (Relation.EqvGen.rel _ _ (run.funds_of_signer own found enough several few
          (mem_signersOf.mpr ⟨signed, base, signedOperator, rfl⟩))).symm
      · -- Another top-up of the operator comes from the same funder.
        obtain ⟨_, _, alsoTops⟩ := run.appended.each signed topUp
        obtain ⟨op', _, alsoAllowed⟩ := alsoTops.funder
        have alsoFound := run.assigned_of_allowed own alsoAllowed
        rw [run.behind_assigned alsoFound] at belongs
        obtain rfl := Option.some.inj belongs
        obtain ⟨equal, _⟩ := Prod.mk.inj (Option.some.inj (alsoFound.symm.trans found))
        rw [equal]
        exact Relation.EqvGen.refl _

end Simulated

/-- The second operator of the small run signs from two accounts under two fee payers; its hub
joins them. -/
theorem funder_relinks_hubRun : ∃ (ledger : Ledger) (clustering : Clustering) (funder : AccountId),
    simulate Counter 3 [Persona.retail] hubRun = Outcome.returned ledger ∧
    cluster HashOrder.asWritten ledger { AdversaryConfig.funders with funderMinFundees := 2 } =
      some clustering ∧
    ledger.ownership.lookup funder = some 1 ∧
    ∀ account, ledger.ownership.lookup account = some 1 →
      clustering.clusterOf.lookup account = clustering.clusterOf.lookup funder := by
  obtain ⟨ledger, simulated, _⟩ := hubRun_simulated
  have shape : ((simulate Counter 3 [Persona.retail] hubRun.unfunded).result?.map (fun base =>
      ((throwawaysOf base.records 1).card, (signersOf base.records 1).card))) = some (2, 2) := by
    decide +kernel
  obtain ⟨final, base, assigned, clustering, _, unfunded, _, clustered, _, joined⟩ :=
    funder_relinks 3 _ _ ledger _ { AdversaryConfig.funders with funderMinFundees := 2 }
      HashOrder.asWritten rfl (Or.inl rfl) rfl simulated hubRun_distinct
      ⟨rfl, rfl, rfl, rfl, rfl, rfl, rfl, rfl⟩
  rw [unfunded] at shape
  obtain ⟨payers, sources⟩ := Prod.mk.inj (Option.some.inj shape)
  obtain ⟨funder, _, _, owned, all⟩ := joined 1 (by rw [payers]) (by rw [sources])
    (by rw [sources]; decide)
  exact ⟨ledger, clustering, funder, simulated, clustered, owned, all⟩

end AccountCooker
