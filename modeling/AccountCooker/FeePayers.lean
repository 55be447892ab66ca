/-
This file proves what fee payers give away. A naive run pays every fee from the
main account of the acting agent, so that linking fee payers with sources joins
the accounts of one operator and no others. A cooker run pays every fee from an
account drawn for that record, which never signs and never pays again, so that
the same linkage joins no two accounts that sign.
-/

import Mathlib
import AccountCooker.Closure
import AccountCooker.Metric
import AccountCooker.Rotation

namespace AccountCooker

open Collections

/-! ### Fee-payer linkage -/

/-- Only fee-payer linkage is enabled. -/
structure AdversaryConfig.FeePayerOnly (cfg : AdversaryConfig) : Prop where
  feePayer : cfg.useFeePayer = true
  cospend : cfg.useCospend = false
  temporal : cfg.useTemporalAmount = false
  lineage : cfg.useActivationLineage = false
  copay : cfg.useBurstCopay = false
  coactivity : cfg.useBurstCoactivity = false
  ceiling : cfg.useBurstUnionCeiling = false
  funder : cfg.useFunderGraph = false

/-- The default adversary, reduced to fee-payer linkage. -/
def AdversaryConfig.feePayers : AdversaryConfig :=
  { AdversaryConfig.exactTs with
    useCospend := false
    useTemporalAmount := false
    useActivationLineage := false
    useBurstCopay := false
    useBurstCoactivity := false }

theorem AdversaryConfig.feePayers_only : AdversaryConfig.feePayers.FeePayerOnly :=
  ⟨rfl, rfl, rfl, rfl, rfl, rfl, rfl, rfl⟩

theorem evidence_feePayerOnly {cfg : AdversaryConfig} (only : cfg.FeePayerOnly)
    (records : Finset TxRecord) : Evidence cfg records = Sponsors records := by
  funext first second
  unfold Evidence
  rw [only.feePayer, only.cospend, only.temporal, only.lineage, only.copay, only.coactivity,
    only.ceiling, only.funder]
  simp

/-- Fee-payer linkage alone clusters by the closure of sponsoring. -/
theorem cluster_feePayerOnly {cfg : AdversaryConfig} (only : cfg.FeePayerOnly) (order : HashOrder)
    {ledger : Ledger} (distinct : (ledger.records.map (·.slot)).Nodup)
    (bounded : ∀ record ∈ ledger.records, record.slot ≤ u64Max) :
    cluster order ledger cfg =
      some (clusteringOf (Relation.EqvGen (Sponsors ledger.records.toFinset)) ledger) := by
  have measurable : Measurable cfg ledger.records :=
    ⟨distinct, bounded, fun enabled => absurd (only.temporal.symm.trans enabled) (by simp),
      fun enabled => absurd (only.temporal.symm.trans enabled) (by simp)⟩
  rw [cluster_evidence order measurable (List.Perm.refl _), evidence_feePayerOnly only]

/-! ### Slots of a run -/

/-- A step keeps the slots within their range. -/
theorem step_slot {cfg : SimConfig} {externals : List AccountId} {before after : View}
    (inRange : before.chain.slot ≤ u64Max) (step : Step cfg externals before after) :
    after.chain.slot ≤ u64Max := by
  cases step with
  | tick agents chain drawn ts later => exact inRange
  | act agents chain drawn index agent next found move =>
    cases move with
    | mk chain agent drawn ts tx feePayer after ids recorded timely emission appended =>
      simp only [MockChain.record, Option.bind_eq_bind, Option.bind_eq_some_iff] at appended
      obtain ⟨sig, _, slot, counted, equal⟩ := appended
      rw [← Option.some.inj equal]
      show slot ≤ u64Max
      obtain ⟨bounded, rfl⟩ := checkedU64_eq_some.mp counted
      exact bounded

/-- Consecutive slots are distinct. -/
theorem slots_nodup_of_numbered {records : List TxRecord}
    (numbered : ∀ index record, records[index]? = some record → record.slot = index + 1) :
    (records.map (·.slot)).Nodup := by
  rw [List.Nodup, List.pairwise_map, List.pairwise_iff_getElem]
  intro i j iBound jBound before
  rw [numbered i _ (List.getElem?_eq_getElem iBound),
    numbered j _ (List.getElem?_eq_getElem jBound)]
  omega

section Slots

variable {Generator : Type} [Rng Generator] [Libm] {personas : List Persona} {cfg : SimConfig}
  {built st : RunState Generator} {first ids : List AccountId}

/-- The slots of a run are distinct. -/
theorem ReachedBy.slots_nodup (reached : ReachedBy personas cfg built st first ids) :
    (st.chain.ledger.records.map (·.slot)).Nodup :=
  slots_nodup_of_numbered
    (fun index record found => (reached.ordered.numbered.record index record found).2)

/-- The slots of a run are within their range. -/
theorem ReachedBy.slots_bounded (reached : ReachedBy personas cfg built st first ids) :
    ∀ record ∈ st.chain.ledger.records, record.slot ≤ u64Max := by
  have bounded : st.chain.slot ≤ u64Max := by
    refine reached.holds (fun _ view => view.chain.slot ≤ u64Max) (fun built first fresh => ?_)
      (fun externals before after inRange step => step_slot inRange step)
    show built.chain.slot ≤ u64Max
    rw [fresh.chain]
    exact Nat.zero_le _
  have numbered := reached.ordered.numbered
  intro record member
  obtain ⟨index, found⟩ := List.mem_iff_getElem?.mp member
  have below := (List.getElem?_eq_some_iff.mp found).1
  rw [(numbered.record index record found).2]
  rw [numbered.slot] at bounded
  omega

end Slots

/-! ### Throwaway fee payers -/

/-- Every fee of a cooker run was paid by an account of its own, which nobody holds and which never
signs. -/
structure Throwaways (view : View) : Prop where
  held : ∀ account ∈ held view.agents, account ∈ view.drawn
  known : ∀ record ∈ view.chain.ledger.records,
    record.feePayer ∈ view.drawn ∧ record.source ∈ view.drawn
  apart : view.chain.ledger.records.Pairwise
    (fun first second => first.feePayer ≠ second.feePayer)
  unheld : ∀ record ∈ view.chain.ledger.records, record.feePayer ∉ AccountCooker.held view.agents
  unsigned : ∀ record ∈ view.chain.ledger.records, ∀ other ∈ view.chain.ledger.records,
    record.feePayer ≠ other.source

/-- What a cooker record draws: its fee payer last, after any account that joins the table. -/
theorem Emission.cooker {cfg : SimConfig} {externals : List AccountId} {agent after : Agent}
    {tx : PlannedTx} {feePayer : AccountId} {ids : List AccountId} (cooker : cfg.mode = .cooker)
    (emission : Emission cfg externals agent tx feePayer after ids) :
    tx.source ∈ agent.subaccounts ∧ ∃ joined, ids = joined ++ [feePayer] ∧
      ∀ account ∈ after.subaccounts, account ∈ agent.subaccounts ∨ account ∈ joined := by
  cases emission with
  | naivePay _ _ _ _ naive | naiveConsolidate _ _ naive =>
    exact absurd (naive.symm.trans cooker) (by simp)
  | legacyPay source dest amount kind feePayer _ _ own _ =>
    exact ⟨own, [], rfl, fun account member => Or.inl member⟩
  | legacyChurn source churn amount feePayer _ _ own =>
    exact ⟨own, [churn], rfl, fun account member => Or.inl member⟩
  | pay source dest amount kind feePayer _ own _ =>
    exact ⟨own, [], rfl, fun account member => Or.inl member⟩
  | rotate subIdx source successor amount feePayer _ _ _ atSource _ =>
    refine ⟨List.mem_of_getElem? atSource, [successor], rfl, fun account member => ?_⟩
    exact (List.mem_or_eq_of_mem_set member).imp_right List.mem_singleton.mpr
  | sweep subIdx source amount feePayer _ _ _ atSource =>
    exact ⟨List.mem_of_getElem? atSource, [], rfl, fun account member => Or.inl member⟩

theorem mem_held_set {agents : List Agent} {index : Nat} {next : Agent} {account : AccountId}
    (member : account ∈ held (agents.set index next)) :
    account ∈ held agents ∨ account ∈ next.subaccounts := by
  obtain ⟨agent, inAgents, own⟩ := List.mem_flatMap.mp member
  rcases List.mem_or_eq_of_mem_set inAgents with old | rfl
  · exact Or.inl (List.mem_flatMap.mpr ⟨agent, old, own⟩)
  · exact Or.inr own

/-- A step keeps the fee payers of a cooker run apart while what is drawn stays distinct. -/
theorem step_throwaways {cfg : SimConfig} {externals : List AccountId} {before after : View}
    (cooker : cfg.mode = .cooker) (throwaways : Throwaways before)
    (step : Step cfg externals before after) (distinct : after.drawn.Nodup) :
    Throwaways after := by
  cases step with
  | tick agents chain drawn ts later =>
    exact ⟨throwaways.held, throwaways.known, throwaways.apart, throwaways.unheld,
      throwaways.unsigned⟩
  | act agents chain drawn index agent next found move =>
    cases move with
    | mk chain agent drawn ts tx feePayer after ids recorded timely emission appended =>
      obtain ⟨own, joined, rfl, table⟩ := emission.cooker cooker
      have written := congrArg (fun chain => chain.ledger.records) (record_eq appended)
      simp only at written
      have signer : tx.source ∈ held agents := mem_held found own
      have unknown : feePayer ∉ drawn := fun member =>
        (List.nodup_append.mp distinct).2.2 _ member _ (by simp) rfl
      have unjoined (account : AccountId) (member : account ∈ drawn) : account ∉ joined :=
        fun inJoined => (List.nodup_append.mp distinct).2.2 _ member _
          (List.mem_append_left _ inJoined) rfl
      have alone : feePayer ∉ joined := fun member =>
        (List.nodup_append.mp (List.nodup_append.mp distinct).2.1).2.2 _ member _ (by simp) rfl
      have tables (account : AccountId) (member : account ∈ held (agents.set index after)) :
          account ∈ held agents ∨ account ∈ joined := by
        rcases mem_held_set member with old | new
        · exact Or.inl old
        · exact (table account new).imp_left (mem_held found)
      refine ⟨fun account member => ?_, fun record member => ?_, ?_,
        fun record member inTable => ?_, fun record member other otherMember equal => ?_⟩
      · rcases tables account member with old | new
        · exact List.mem_append_left _ (throwaways.held account old)
        · exact List.mem_append_right _ (List.mem_append_left _ new)
      · show _ ∈ drawn ++ _ ∧ _ ∈ drawn ++ _
        rw [written] at member
        rcases List.mem_append.mp member with old | new
        · have known := throwaways.known record old
          exact ⟨List.mem_append_left _ known.1, List.mem_append_left _ known.2⟩
        · rw [List.mem_singleton.mp new]
          exact ⟨List.mem_append_right _ (List.mem_append_right _ (List.mem_singleton.mpr rfl)),
            List.mem_append_left _ (throwaways.held _ signer)⟩
      · show recorded.ledger.records.Pairwise _
        rw [written]
        refine pairwise_concat throwaways.apart (fun first member equal => unknown ?_)
        rw [show feePayer = first.feePayer from equal.symm]
        exact (throwaways.known first member).1
      · rw [written] at member
        rcases List.mem_append.mp member with old | new
        · exact (tables _ inTable).elim (throwaways.unheld record old)
            (unjoined _ (throwaways.known record old).1)
        · rw [List.mem_singleton.mp new] at inTable
          exact (tables _ inTable).elim (fun old => unknown (throwaways.held _ old)) alone
      · rw [written] at member otherMember
        rcases List.mem_append.mp member with old | new
        · rcases List.mem_append.mp otherMember with otherOld | otherNew
          · exact throwaways.unsigned record old other otherOld equal
          · rw [List.mem_singleton.mp otherNew] at equal
            exact throwaways.unheld record old (by rw [equal]; exact signer)
        · rw [List.mem_singleton.mp new] at equal
          refine unknown ?_
          rw [show feePayer = other.source from equal]
          rcases List.mem_append.mp otherMember with otherOld | otherNew
          · exact (throwaways.known other otherOld).2
          · rw [List.mem_singleton.mp otherNew]
            exact throwaways.held _ signer

/-- The signer behind a fee payer. -/
def signerOf (records : List TxRecord) (account : AccountId) : AccountId :=
  match records.find? (fun record => record.feePayer = account) with
  | some record => record.source
  | none => account

theorem Throwaways.signerOf_source {view : View} (throwaways : Throwaways view)
    {record : TxRecord} (member : record ∈ view.chain.ledger.records) :
    signerOf view.chain.ledger.records record.source = record.source := by
  have nobody : view.chain.ledger.records.find?
      (fun other => other.feePayer = record.source) = none := by
    rw [List.find?_eq_none]
    intro other inRecords equal
    exact throwaways.unsigned other inRecords record member (of_decide_eq_true equal)
  unfold signerOf
  rw [nobody]

theorem Throwaways.signerOf_feePayer {view : View} (throwaways : Throwaways view)
    {record : TxRecord} (member : record ∈ view.chain.ledger.records) :
    signerOf view.chain.ledger.records record.feePayer = record.source := by
  obtain ⟨found, search⟩ : ∃ found, view.chain.ledger.records.find?
      (fun other => other.feePayer = record.feePayer) = some found :=
    Option.isSome_iff_exists.mp (List.find?_isSome.mpr ⟨record, member, decide_eq_true rfl⟩)
  have equal : found.feePayer = record.feePayer := by
    have passed := List.find?_some search
    exact of_decide_eq_true passed
  obtain ⟨i, atFound⟩ := List.mem_iff_getElem?.mp (List.mem_of_find?_eq_some search)
  obtain ⟨j, atRecord⟩ := List.mem_iff_getElem?.mp member
  obtain rfl := getElem?_unique throwaways.apart Eq.symm atFound atRecord equal
  unfold signerOf
  rw [search, Option.some.inj (atFound.symm.trans atRecord)]

/-- Under throwaway fee payers, sponsoring joins no two accounts that sign. -/
theorem Throwaways.linked_signers {view : View} (throwaways : Throwaways view)
    {first second : TxRecord} (one : first ∈ view.chain.ledger.records)
    (other : second ∈ view.chain.ledger.records)
    (linked : Relation.EqvGen (Sponsors view.chain.ledger.records.toFinset) first.source
      second.source) :
    first.source = second.source := by
  have equivalence := eq_equivalence.comap (signerOf view.chain.ledger.records)
  have same := equivalence.eqvGen_iff.mp (linked.mono (fun payer source sponsors => by
    obtain ⟨record, inLedger, rfl, rfl⟩ := sponsors
    have member := List.mem_toFinset.mp inLedger
    exact (throwaways.signerOf_feePayer member).trans (throwaways.signerOf_source member).symm))
  exact (throwaways.signerOf_source one).symm.trans (same.trans (throwaways.signerOf_source other))

/-! ### Main accounts as fee payers -/

/-- Every fee of a naive run was paid by the main account of the operator that signed. -/
structure Sponsored (view : View) : Prop where
  agents : ∀ index agent, view.agents[index]? = some agent → BuiltAgent index agent
  distinct : (held view.agents).Nodup
  records : ∀ record ∈ view.chain.ledger.records, ∃ index agent,
    view.agents[index]? = some agent ∧ record.operator = some index ∧
      record.feePayer = agent.main ∧ record.source ∈ agent.subaccounts

/-- The naive engine writes under main accounts and changes no table. -/
theorem Emission.naive {cfg : SimConfig} {externals : List AccountId} {agent after : Agent}
    {tx : PlannedTx} {feePayer : AccountId} {ids : List AccountId} (naive : cfg.mode = .naive)
    (emission : Emission cfg externals agent tx feePayer after ids) :
    tx.source ∈ agent.subaccounts ∧ feePayer = agent.main ∧ after = agent := by
  have unhardened := naive_unhardened naive
  cases emission with
  | naivePay source dest amount kind _ own _ => exact ⟨own, rfl, rfl⟩
  | naiveConsolidate source amount _ own _ => exact ⟨own, rfl, rfl⟩
  | legacyPay _ _ _ _ _ cooker | legacyChurn _ _ _ _ cooker =>
    exact absurd (naive.symm.trans cooker) (by simp)
  | pay _ _ _ _ _ hardened | rotate _ _ _ _ _ hardened | sweep _ _ _ _ hardened =>
    exact absurd (unhardened.symm.trans hardened) (by simp)

theorem step_sponsored {cfg : SimConfig} {externals : List AccountId} {before after : View}
    (naive : cfg.mode = .naive) (sponsored : Sponsored before)
    (step : Step cfg externals before after) : Sponsored after := by
  cases step with
  | tick agents chain drawn ts later =>
    exact ⟨sponsored.agents, sponsored.distinct, sponsored.records⟩
  | act agents chain drawn index agent next found move =>
    cases move with
    | mk chain agent drawn ts tx feePayer after ids recorded timely emission appended =>
      obtain ⟨own, rfl, rfl⟩ := emission.naive naive
      have written := congrArg (fun chain => chain.ledger.records) (record_eq appended)
      simp only at written
      obtain ⟨bound, here⟩ := List.getElem?_eq_some_iff.mp found
      have same : agents.set index after = agents := by rw [← here, List.set_getElem_self]
      show Sponsored ⟨agents.set index after, recorded, _⟩
      rw [same]
      refine ⟨sponsored.agents, sponsored.distinct, fun record member => ?_⟩
      rw [written] at member
      rcases List.mem_append.mp member with old | new
      · exact sponsored.records record old
      · rw [List.mem_singleton.mp new]
        refine ⟨index, after, found, ?_, rfl, own⟩
        exact congrArg some (sponsored.agents index after found).id

/-- Two agents share no account. -/
theorem agent_unique {agents : List Agent} (distinct : (held agents).Nodup) {i j : Nat}
    {first second : Agent} {account : AccountId} (atFirst : agents[i]? = some first)
    (atSecond : agents[j]? = some second) (one : account ∈ first.subaccounts)
    (other : account ∈ second.subaccounts) : i = j := by
  have apart : agents.Pairwise (fun first second =>
      ¬ ∃ account, account ∈ first.subaccounts ∧ account ∈ second.subaccounts) :=
    (List.nodup_flatMap.mp distinct).2.imp
      (fun disjoint ⟨_, one, other⟩ => disjoint one other)
  exact getElem?_unique apart (fun ⟨shared, one, other⟩ => ⟨shared, other, one⟩) atFirst atSecond
    ⟨account, one, other⟩

/-- Under main accounts as fee payers, sponsoring joins exactly the accounts of one operator. -/
theorem Sponsored.linked_iff {view : View} (sponsored : Sponsored view)
    {first second : TxRecord} (one : first ∈ view.chain.ledger.records)
    (other : second ∈ view.chain.ledger.records) :
    Relation.EqvGen (Sponsors view.chain.ledger.records.toFinset) first.source second.source ↔
      first.operator = second.operator := by
  obtain ⟨i, agent, atFirst, operator, payer, own⟩ := sponsored.records first one
  obtain ⟨j, partner, atSecond, otherOperator, otherPayer, otherOwn⟩ :=
    sponsored.records second other
  constructor
  · intro linked
    -- Being held by an agent is shared along every sponsoring.
    have equivalence : Equivalence (fun x y : AccountId => ∀ (index : Nat) (agent : Agent),
        view.agents[index]? = some agent → (x ∈ agent.subaccounts ↔ y ∈ agent.subaccounts)) :=
      ⟨fun _ _ _ _ => Iff.rfl, fun same index agent found => (same index agent found).symm,
        fun before after index agent found =>
          (before index agent found).trans (after index agent found)⟩
    have same := equivalence.eqvGen_iff.mp (linked.mono (fun payer source sponsors => by
      obtain ⟨record, inLedger, rfl, rfl⟩ := sponsors
      obtain ⟨k, acting, atActing, _, feePayer, signer⟩ :=
        sponsored.records record (List.mem_toFinset.mp inLedger)
      have main := List.mem_of_getElem? (sponsored.agents k acting atActing).main
      rw [← feePayer] at main
      intro index agent found
      refine ⟨fun paid => ?_, fun signs => ?_⟩
      · obtain rfl := agent_unique sponsored.distinct found atActing paid main
        rw [Option.some.inj (found.symm.trans atActing)]
        exact signer
      · obtain rfl := agent_unique sponsored.distinct found atActing signs signer
        rw [Option.some.inj (found.symm.trans atActing)]
        exact main))
    obtain rfl := agent_unique sponsored.distinct atFirst atSecond
      ((same i agent atFirst).mp own) otherOwn
    rw [operator, otherOperator]
  · intro equal
    rw [operator, otherOperator, Option.some_inj] at equal
    subst equal
    obtain rfl := Option.some.inj (atFirst.symm.trans atSecond)
    refine Relation.EqvGen.trans _ agent.main _ (Relation.EqvGen.symm _ _ ?_) ?_
    · exact Relation.EqvGen.rel _ _ ⟨first, List.mem_toFinset.mpr one, payer, rfl⟩
    · exact Relation.EqvGen.rel _ _ ⟨second, List.mem_toFinset.mpr other, otherPayer, rfl⟩

/-! ### Separation -/

/-- The ownership map inserts the source of every labelled record. -/
theorem Ledger.ownership_eq (ledger : Ledger) : ledger.ownership =
    insertAll (ledger.records.filterMap
      (fun record => record.operator.map (fun operator => (record.source, operator)))) := by
  unfold Ledger.ownership insertAll
  rw [List.foldl_filterMap]
  congr 1
  funext owners record
  cases record.operator <;> rfl

theorem mem_labels {records : List TxRecord} {account : AccountId} {operator : AgentId} :
    (account, operator) ∈ records.filterMap
        (fun record => record.operator.map (fun operator => (record.source, operator))) ↔
      ∃ record ∈ records, record.source = account ∧ record.operator = some operator := by
  rw [List.mem_filterMap]
  refine exists_congr (fun record => and_congr_right (fun _ => ?_))
  rw [Option.map_eq_some_iff]
  constructor
  · rintro ⟨op, labelled, equal⟩
    obtain ⟨rfl, rfl⟩ := Prod.mk.inj equal
    exact ⟨rfl, labelled⟩
  · rintro ⟨rfl, labelled⟩
    exact ⟨operator, labelled, rfl⟩

/-- The owner of an account is the operator of a record it signs. -/
theorem Ledger.ownership_signed {ledger : Ledger} {account : AccountId} {operator : AgentId}
    (owned : ledger.ownership.lookup account = some operator) :
    ∃ record ∈ ledger.records, record.source = account ∧ record.operator = some operator := by
  rw [Ledger.ownership_eq] at owned
  exact mem_labels.mp (mem_of_lookup_insertAll owned)

theorem Ledger.source_mem_accounts {ledger : Ledger} {record : TxRecord}
    (member : record ∈ ledger.records) : record.source ∈ ledger.accounts.keys :=
  (ledger.mem_accounts _).mpr ⟨record, member, Or.inr (Or.inl rfl)⟩

section Separation

variable {Generator : Type} [Rng Generator] [Libm] {personas : List Persona} {cfg : SimConfig}
  {built st : RunState Generator} {first ids : List AccountId}

theorem ReachedBy.throwaways (reached : ReachedBy personas cfg built st first ids)
    (cooker : cfg.mode = .cooker) (distinct : ids.Nodup) : Throwaways (st.view ids) := by
  refine reached.holdsDistinct (fun _ view => Throwaways view) (fun built first fresh _ => ?_)
    (fun _ _ _ throwaways step nodup => step_throwaways cooker throwaways step nodup) distinct
  have empty : built.chain.ledger.records = [] := by rw [fresh.chain]; rfl
  have nothing {record : TxRecord} {proposition : Prop}
      (member : record ∈ built.chain.ledger.records) : proposition := by
    rw [empty] at member
    exact absurd member List.not_mem_nil
  refine ⟨fun account member => ?_, fun record member => nothing member, ?_,
    fun record member => nothing member, fun record member => nothing member⟩
  · show account ∈ first
    rw [fresh.ids]
    exact List.mem_append_right _ member
  · show built.chain.ledger.records.Pairwise _
    rw [empty]
    exact List.Pairwise.nil

theorem ReachedBy.sponsored (reached : ReachedBy personas cfg built st first ids)
    (naive : cfg.mode = .naive) (distinct : ids.Nodup) : Sponsored (st.view ids) := by
  refine reached.holdsDistinct (fun _ view => Sponsored view) (fun built first fresh nodup => ?_)
    (fun _ _ _ sponsored step _ => step_sponsored naive sponsored step) distinct
  refine ⟨fresh.agents, ?_, fun record member => ?_⟩
  · rw [fresh.ids] at nodup
    exact (List.nodup_append.mp nodup).2.1
  · have empty : built.chain.ledger.records = [] := by rw [fresh.chain]; rfl
    have inEmpty : record ∈ built.chain.ledger.records := member
    rw [empty] at inEmpty
    exact absurd inEmpty List.not_mem_nil

/-- Linking fee payers with sources separates the engines: on the ledger of a naive run it finds
exactly the accounts of each operator, and scores precision and recall one if there is a pair to
find; on the ledger of a cooker run it joins no two owned accounts. -/
theorem feePayer_separates (fuel : Nat) (personas : List Persona) (cfg : SimConfig)
    (ledger : Ledger) (adversary : AdversaryConfig) (order : HashOrder)
    (unfunded : cfg.funding = none)
    (simulated : simulate Generator fuel personas cfg = Outcome.returned ledger)
    (distinct : (drawnIds Generator fuel personas cfg).Nodup)
    (only : adversary.FeePayerOnly) :
    ∃ clustering, cluster order ledger adversary = some clustering ∧
      (cfg.mode = .naive →
        (∀ first second op op', ledger.ownership.lookup first = some op →
          ledger.ownership.lookup second = some op' →
            (clustering.clusterOf.lookup first = clustering.clusterOf.lookup second ↔
              op = op')) ∧
        ∀ windowSecs report, evaluate order ledger clustering windowSecs = some report →
          (∃ first second op, first ≠ second ∧ ledger.ownership.lookup first = some op ∧
            ledger.ownership.lookup second = some op) →
          report.attributionPrecision = 1.0 ∧ report.linkageRecall = 1.0) ∧
      (cfg.mode = .cooker → ∀ first second, first ∈ ledger.ownership →
        second ∈ ledger.ownership → first ≠ second →
          clustering.clusterOf.lookup first ≠ clustering.clusterOf.lookup second) := by
  obtain ⟨built, final, first, reached, _, rfl⟩ := simulate_reached fuel unfunded simulated
  have clustered := cluster_feePayerOnly only order reached.slots_nodup reached.slots_bounded
  have same {one other : TxRecord} (oneMember : one ∈ final.chain.ledger.records)
      (otherMember : other ∈ final.chain.ledger.records) :=
    clusteringOf_eq_iff
      (Relation.EqvGen.is_equivalence (Sponsors final.chain.ledger.records.toFinset))
      (Ledger.source_mem_accounts oneMember) (Ledger.source_mem_accounts otherMember)
  refine ⟨_, clustered, fun naive => ?_, fun cooker one other oneOwned otherOwned different => ?_⟩
  · have exact (one other : AccountId) (op op' : AgentId)
        (oneOwned : final.chain.ledger.ownership.lookup one = some op)
        (otherOwned : final.chain.ledger.ownership.lookup other = some op') :
        (clusteringOf (Relation.EqvGen (Sponsors final.chain.ledger.records.toFinset))
          final.chain.ledger).clusterOf.lookup one =
          (clusteringOf (Relation.EqvGen (Sponsors final.chain.ledger.records.toFinset))
            final.chain.ledger).clusterOf.lookup other ↔ op = op' := by
      obtain ⟨record, member, rfl, operator⟩ := Ledger.ownership_signed oneOwned
      obtain ⟨partner, partnerMember, rfl, otherOperator⟩ := Ledger.ownership_signed otherOwned
      have linked := (reached.sponsored naive distinct).linked_iff member partnerMember
      rw [operator, otherOperator, Option.some_inj] at linked
      exact (same member partnerMember).trans linked
    refine ⟨exact, fun windowSecs report scored pair => ?_⟩
    obtain ⟨one, other, op, different, oneOwned, otherOwned⟩ := pair
    exact evaluate_exact scored exact different oneOwned otherOwned
  · obtain ⟨op, oneFound⟩ := Option.isSome_iff_exists.mp (AList.lookup_isSome.mpr oneOwned)
    obtain ⟨op', otherFound⟩ := Option.isSome_iff_exists.mp (AList.lookup_isSome.mpr otherOwned)
    obtain ⟨record, member, rfl, _⟩ := Ledger.ownership_signed oneFound
    obtain ⟨partner, partnerMember, rfl, _⟩ := Ledger.ownership_signed otherFound
    intro equal
    exact different ((reached.throwaways cooker distinct).linked_signers member partnerMember
      ((same member partnerMember).mp equal))

end Separation

/-- The small run under the naive engine, in which one operator signs from two accounts. -/
def naiveRun : SimConfig := { smallRun with mode := .naive }

/-- The small naive run is attributed without an error. -/
theorem feePayer_separates_naiveRun : ∃ ledger clustering report,
    simulate Counter 6 [Persona.retail] naiveRun = Outcome.returned ledger ∧
    cluster HashOrder.asWritten ledger AdversaryConfig.feePayers = some clustering ∧
    evaluate HashOrder.asWritten ledger clustering 0 = some report ∧
    report.attributionPrecision = 1.0 ∧ report.linkageRecall = 1.0 := by
  have ran : ((simulate Counter 6 [Persona.retail] naiveRun).result?.any (fun ledger =>
      ledger.ownership.lookup ⟨9⟩ = some 1 && ledger.ownership.lookup ⟨10⟩ = some 1 &&
        (cluster HashOrder.asWritten ledger AdversaryConfig.feePayers).any (fun clustering =>
          (evaluate HashOrder.asWritten ledger clustering 0).isSome))) = true := by
    decide +kernel
  obtain ⟨ledger, result, facts⟩ := (Option.any_eq_true _ _).mp ran
  simp only [Bool.and_eq_true, decide_eq_true_eq] at facts
  obtain ⟨⟨one, other⟩, scores⟩ := facts
  obtain ⟨clustering, clustered, scores⟩ := (Option.any_eq_true _ _).mp scores
  obtain ⟨report, scored⟩ := Option.isSome_iff_exists.mp scores
  have simulated := Outcome.result?_eq_some.mp result
  have distinct : (drawnIds Counter 6 [Persona.retail] naiveRun).Nodup := by decide +kernel
  obtain ⟨also, alsoClustered, naive, _⟩ := feePayer_separates 6 _ _ ledger _
    HashOrder.asWritten rfl simulated distinct AdversaryConfig.feePayers_only
  obtain rfl := Option.some.inj (clustered.symm.trans alsoClustered)
  have exact := (naive rfl).2 0 report scored ⟨⟨9⟩, ⟨10⟩, 1, by decide, one, other⟩
  exact ⟨ledger, clustering, report, simulated, clustered, scored, exact⟩

end AccountCooker
