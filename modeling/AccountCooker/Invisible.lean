/-
This file proves that funding is invisible to an adversary that does not walk
the funder graph. What the post-pass appends to a rotating run pays accounts
that never sign, from accounts that nobody pays. Such a suffix adds no evidence
among the accounts of the base: no peel chain and no lineage passes through it,
it shares no payment with a base record, and a burst still holds one base
record at most. All it adds is that funders pay their own fees.
-/

import Mathlib
import AccountCooker.FunderGraph
import AccountCooker.Residual

namespace AccountCooker

open Collections

/-! ### Silent suffixes -/

/-- Records whose payees never sign and are paid once, whose signers are not paid by others and
pay their own fees; they follow records of distinct times. -/
structure SilentSuffix (base suffix : Finset TxRecord) : Prop where
  silent : ∀ event ∈ suffix, ∀ record ∈ base ∪ suffix, record.source ≠ event.dest
  unpaid : ∀ event ∈ suffix, ∀ record ∈ base, record.dest ≠ event.dest
  once : ∀ event ∈ suffix, ∀ other ∈ suffix, event.dest = other.dest → event = other
  funders : ∀ event ∈ suffix, ∀ record ∈ base, record.dest = event.source →
    record.source = record.dest
  own : ∀ event ∈ suffix, event.feePayer = event.source
  strict : ∀ record ∈ base, ∀ other ∈ base, record.ts = other.ts → record = other

section SilentSuffix

variable {base suffix : Finset TxRecord} {cfg : AdversaryConfig} {first second : AccountId}

/-- A record into an account that signs is a base record. -/
theorem SilentSuffix.base_of_signs (silent : SilentSuffix base suffix) {record signed : TxRecord}
    (member : record ∈ base ∪ suffix) (active : signed ∈ base ∪ suffix)
    (signs : signed.source = record.dest) : record ∈ base :=
  (Finset.mem_union.mp member).resolve_right
    (fun topUp => silent.silent record topUp signed active signs)

/-- Only a base record is followed by a record of the account it pays, and that is one too. -/
theorem SilentSuffix.base_of_moves (silent : SilentSuffix base suffix) {record signed : TxRecord}
    (member : record ∈ base ∪ suffix) (active : signed ∈ base ∪ suffix)
    (signs : signed.source = record.dest) (apart : record.source ≠ record.dest) :
    record ∈ base ∧ signed ∈ base := by
  have inBase := silent.base_of_signs member active signs
  refine ⟨inBase, (Finset.mem_union.mp active).resolve_right (fun topUp => ?_)⟩
  exact apart (silent.funders signed topUp record inBase signs.symm)

/-- The suffix pays no account that signs. -/
theorem SilentSuffix.filter_dest (silent : SilentSuffix base suffix) {dest : AccountId}
    (signs : dest ∈ signers (base ∪ suffix)) (holds : TxRecord → Prop) [DecidablePred holds] :
    (base ∪ suffix).filter (fun r => holds r ∧ r.dest = dest) =
      base.filter (fun r => holds r ∧ r.dest = dest) := by
  obtain ⟨signed, active, rfl⟩ := mem_signers.mp signs
  ext record
  rw [Finset.mem_filter, Finset.mem_filter]
  constructor
  · rintro ⟨member, kept, dest⟩
    exact ⟨silent.base_of_signs member active dest.symm, kept, dest⟩
  · rintro ⟨member, both⟩
    exact ⟨Finset.mem_union_left _ member, both⟩

/-- An account that only signs in the suffix is paid by nobody else. -/
theorem SilentSuffix.alone (silent : SilentSuffix base suffix) {dest : AccountId}
    (signs : dest ∈ signers (base ∪ suffix)) (never : dest ∉ signers base) {record : TxRecord}
    (member : record ∈ base) (paid : record.dest = dest) : record.source = dest := by
  obtain ⟨signed, active, rfl⟩ := mem_signers.mp signs
  rcases Finset.mem_union.mp active with inBase | topUp
  · exact absurd (mem_signers.mpr ⟨signed, inBase, rfl⟩) never
  · exact (silent.funders signed topUp record member paid).trans paid

/-! ### The heuristics one by one -/

theorem SilentSuffix.sponsors_iff (silent : SilentSuffix base suffix) :
    Sponsors (base ∪ suffix) first second ↔ Sponsors base first second ∨
      ∃ event ∈ suffix, event.source = first ∧ event.source = second := by
  constructor
  · rintro ⟨record, member, rfl, rfl⟩
    rcases Finset.mem_union.mp member with inBase | topUp
    · exact Or.inl ⟨record, inBase, rfl, rfl⟩
    · exact Or.inr ⟨record, topUp, (silent.own record topUp).symm, rfl⟩
  · rintro (⟨record, inBase, rfl, rfl⟩ | ⟨event, topUp, rfl, rfl⟩)
    · exact ⟨record, Finset.mem_union_left _ inBase, rfl, rfl⟩
    · exact ⟨event, Finset.mem_union_right _ topUp, silent.own event topUp, rfl⟩

theorem signers_union (base suffix : Finset TxRecord) :
    signers base ⊆ signers (base ∪ suffix) := by
  unfold signers
  exact Finset.image_subset_image Finset.subset_union_left

theorem SilentSuffix.consolidates_iff (silent : SilentSuffix base suffix) :
    Consolidates cfg (base ∪ suffix) first second ↔ Consolidates cfg base first second := by
  have same (signs : first ∈ signers (base ∪ suffix)) :
      payers (base ∪ suffix) first = payers base first := by
    unfold payers
    rw [silent.filter_dest signs]
  unfold Consolidates
  constructor
  · rintro ⟨signs, pays, several, few⟩
    rw [same signs] at pays several few
    refine ⟨?_, pays, several, few⟩
    by_contra never
    obtain ⟨record, inBase, moves, paid, rfl⟩ := mem_payers.mp pays
    exact moves.2 ((silent.alone signs never inBase paid).trans paid.symm)
  · rintro ⟨signs, pays, several, few⟩
    have also := signers_union base suffix signs
    rw [same also]
    exact ⟨also, pays, several, few⟩

theorem SilentSuffix.peels_iff (silent : SilentSuffix base suffix) :
    Peels cfg (base ∪ suffix) first second ↔ Peels cfg base first second := by
  unfold Peels
  constructor
  · rintro ⟨a, aMember, b, bMember, aMoves, bMoves, through, facts⟩
    obtain ⟨aBase, bBase⟩ := silent.base_of_moves aMember bMember through aMoves.2
    exact ⟨a, aBase, b, bBase, aMoves, bMoves, through, facts⟩
  · rintro ⟨a, aBase, b, bBase, facts⟩
    exact ⟨a, Finset.mem_union_left _ aBase, b, Finset.mem_union_left _ bBase, facts⟩

/-- An account that others pay signs at the same times. -/
theorem SilentSuffix.signingTimes_eq (silent : SilentSuffix base suffix) {record : TxRecord}
    (member : record ∈ base) (apart : record.source ≠ record.dest) :
    signingTimes (base ∪ suffix) record.dest = signingTimes base record.dest := by
  ext ts
  constructor
  · rintro ⟨signed, active, signs, rfl⟩
    have inBase := (silent.base_of_moves (Finset.mem_union_left _ member) active signs apart).2
    exact ⟨signed, inBase, signs, rfl⟩
  · rintro ⟨signed, inBase, signs, rfl⟩
    exact ⟨signed, Finset.mem_union_left _ inBase, signs, rfl⟩

theorem SilentSuffix.activates_iff (silent : SilentSuffix base suffix) :
    Activates cfg (base ∪ suffix) first second ↔ Activates cfg base first second := by
  unfold Activates
  constructor
  · rintro ⟨record, member, moves, rfl, rfl, activatedAt, least, facts⟩
    obtain ⟨signed, active, signs, _⟩ := least.1
    have inBase := (silent.base_of_moves member active signs moves.2).1
    rw [silent.signingTimes_eq inBase moves.2] at least
    exact ⟨record, inBase, moves, rfl, rfl, activatedAt, least, facts⟩
  · rintro ⟨record, inBase, moves, rfl, rfl, activatedAt, least, facts⟩
    rw [← silent.signingTimes_eq inBase moves.2] at least
    exact ⟨record, Finset.mem_union_left _ inBase, moves, rfl, rfl, activatedAt, least, facts⟩

theorem SilentSuffix.episodeCopayments_eq (silent : SilentSuffix base suffix) :
    episodeCopayments cfg (base ∪ suffix) first second =
      episodeCopayments cfg base first second := by
  have same {dest : AccountId} (signs : dest ∈ signers (base ∪ suffix)) :
      paymentsTo cfg (base ∪ suffix) dest = paymentsTo cfg base dest := by
    unfold paymentsTo
    exact silent.filter_dest signs (fun r => cfg.copayMinAmount ≤ r.amount)
  unfold episodeCopayments
  rw [Finset.sum_congr rfl (fun dest signs => by rw [same signs])]
  refine (Finset.sum_subset (signers_union base suffix) (fun dest signs never => ?_)).symm
  rw [Finset.card_eq_zero, Finset.filter_eq_empty_iff]
  rintro episode member ⟨one, other, below, _⟩
  -- All payments to a funder are its own.
  have ours {account : AccountId} (pays : account ∈ signers episode) : account = dest := by
    obtain ⟨record, inEpisode, rfl⟩ := mem_signers.mp pays
    obtain ⟨inBase, _, paid⟩ := mem_paymentsTo.mp (chainClasses_subset member inEpisode)
    exact silent.alone signs never inBase paid
  rw [ours one, ours other] at below
  exact lt_irrefl _ below

/-! ### Bursts -/

/-- All records of a burst have one timestamp. -/
theorem ts_of_burst {records burst : Finset TxRecord}
    (member : burst ∈ chainClasses Continues records) {r s : TxRecord} (one : r ∈ burst)
    (other : s ∈ burst) : r.ts = s.ts := by
  have chained := ((mem_class_iff member one) s).mp other
  have equivalence := eq_equivalence.comap TxRecord.ts
  exact equivalence.eqvGen_iff.mp (chained.2.mono (fun _ _ near => near.2.2.1.symm))

/-- A burst holds one base record at most. -/
theorem SilentSuffix.base_once (silent : SilentSuffix base suffix) {burst : Finset TxRecord}
    (member : burst ∈ chainClasses Continues (base ∪ suffix)) {r s : TxRecord} (one : r ∈ burst)
    (other : s ∈ burst) (rBase : r ∈ base) (sBase : s ∈ base) : r = s :=
  silent.strict r rBase s sBase (ts_of_burst member one other)

/-- A destination is paid once in a burst. -/
theorem SilentSuffix.dest_once (silent : SilentSuffix base suffix) {burst : Finset TxRecord}
    (member : burst ∈ chainClasses Continues (base ∪ suffix)) {r s : TxRecord} (one : r ∈ burst)
    (other : s ∈ burst) (same : r.dest = s.dest) : r = s := by
  rcases Finset.mem_union.mp (chainClasses_subset member one) with rBase | rTop
  · rcases Finset.mem_union.mp (chainClasses_subset member other) with sBase | sTop
    · exact silent.base_once member one other rBase sBase
    · exact absurd same (silent.unpaid s sTop r rBase)
  · rcases Finset.mem_union.mp (chainClasses_subset member other) with sBase | sTop
    · exact absurd same.symm (silent.unpaid r rTop s sBase)
    · exact silent.once r rTop s sTop same

/-- Records that are all one pair up nobody. -/
theorem not_pairOf_of_single {kept : Finset TxRecord}
    (single : ∀ r ∈ kept, ∀ s ∈ kept, r = s) (low high : Nat) :
    ¬ PairOf low high (signers kept) first second := by
  rintro ⟨one, other, below, _⟩
  obtain ⟨r, inKept, rfl⟩ := mem_signers.mp one
  obtain ⟨s, alsoKept, rfl⟩ := mem_signers.mp other
  rw [single r inKept s alsoKept] at below
  exact lt_irrefl _ below

theorem SilentSuffix.burstCopayments_zero (silent : SilentSuffix base suffix) :
    burstCopayments cfg (base ∪ suffix) first second = 0 := by
  unfold burstCopayments
  refine Finset.sum_eq_zero (fun burst member => ?_)
  rw [Finset.card_eq_zero, Finset.filter_eq_empty_iff]
  refine fun dest _ => not_pairOf_of_single (fun r one s other => ?_) _ _
  obtain ⟨rMember, _, rDest⟩ := mem_paymentsTo.mp one
  obtain ⟨sMember, _, sDest⟩ := mem_paymentsTo.mp other
  exact silent.dest_once member rMember sMember (rDest.trans sDest.symm)

theorem SilentSuffix.coactivity_zero (silent : SilentSuffix base suffix) :
    coactivity cfg (base ∪ suffix) first second = 0 := by
  unfold coactivity
  rw [Finset.card_eq_zero, Finset.filter_eq_empty_iff]
  intro burst member
  have inBase {r : TxRecord} (kept : r ∈ burst.filter (fun r => r.feePayer ≠ r.source)) :
      r ∈ burst ∧ r ∈ base := by
    obtain ⟨inBurst, apart⟩ := Finset.mem_filter.mp kept
    refine ⟨inBurst, (Finset.mem_union.mp (chainClasses_subset member inBurst)).resolve_right ?_⟩
    exact fun topUp => apart (silent.own r topUp)
  exact not_pairOf_of_single (fun r one s other =>
    silent.base_once member (inBase one).1 (inBase other).1 (inBase one).2 (inBase other).2) _ _

/-- Without its suffix a base is as quiet. -/
theorem SilentSuffix.nothing (silent : SilentSuffix base suffix) : SilentSuffix base ∅ where
  silent := fun event member => absurd member (Finset.notMem_empty event)
  unpaid := fun event member => absurd member (Finset.notMem_empty event)
  once := fun event member => absurd member (Finset.notMem_empty event)
  funders := fun event member => absurd member (Finset.notMem_empty event)
  own := fun event member => absurd member (Finset.notMem_empty event)
  strict := silent.strict

theorem SilentSuffix.copays_iff (silent : SilentSuffix base suffix) :
    Copays cfg (base ∪ suffix) first second ↔ Copays cfg base first second := by
  have alone : burstCopayments cfg (base ∪ ∅) first second = 0 :=
    silent.nothing.burstCopayments_zero
  rw [Finset.union_empty] at alone
  unfold Copays copayments
  rw [silent.episodeCopayments_eq, silent.burstCopayments_zero, alone]

theorem SilentSuffix.coacts_iff (silent : SilentSuffix base suffix) :
    Coacts cfg (base ∪ suffix) first second ↔ Coacts cfg base first second := by
  have alone : coactivity cfg (base ∪ ∅) first second = 0 := silent.nothing.coactivity_zero
  rw [Finset.union_empty] at alone
  unfold Coacts
  rw [silent.coactivity_zero, alone]

/-! ### All evidence -/

/-- A silent suffix adds to the evidence that its funders pay for themselves. -/
theorem SilentSuffix.evidence_iff (silent : SilentSuffix base suffix)
    (noFunder : cfg.useFunderGraph = false) (noCeiling : cfg.useBurstUnionCeiling = false) :
    Evidence cfg (base ∪ suffix) first second ↔ Evidence cfg base first second ∨
      cfg.useFeePayer ∧ ∃ event ∈ suffix, event.source = first ∧ event.source = second := by
  unfold Evidence
  rw [noFunder, noCeiling, silent.sponsors_iff, silent.consolidates_iff, silent.peels_iff,
    silent.activates_iff, silent.copays_iff, silent.coacts_iff, and_or_left]
  simp only [Bool.false_eq_true, false_and, or_false]
  exact or_right_comm

/-- A silent suffix joins no two accounts. -/
theorem SilentSuffix.linked_iff (silent : SilentSuffix base suffix)
    (noFunder : cfg.useFunderGraph = false) (noCeiling : cfg.useBurstUnionCeiling = false) :
    Relation.EqvGen (Evidence cfg (base ∪ suffix)) first second ↔
      Relation.EqvGen (Evidence cfg base) first second := by
  have equivalence := Relation.EqvGen.is_equivalence (Evidence cfg base)
  constructor
  · refine fun linked => equivalence.eqvGen_iff.mp (linked.mono (fun x y evidence => ?_))
    rcases (silent.evidence_iff noFunder noCeiling).mp evidence with old | ⟨_, _, _, rfl, rfl⟩
    · exact Relation.EqvGen.rel _ _ old
    · exact Relation.EqvGen.refl _
  · refine fun linked => linked.mono (fun x y evidence => ?_)
    exact (silent.evidence_iff noFunder noCeiling).mpr (Or.inl evidence)

end SilentSuffix

/-! ### Funded runs -/

/-- The top-ups of a rotating run are silent. -/
theorem FundedRun.silent {cfg : SimConfig} {fcfg : FundingConfig} {externals : List AccountId}
    {owner : AccountId → Option AgentId} {view : View}
    {assigned : List AccountId × BTreeMap AgentId (AccountId × Option AgentId)}
    {wallets : List AccountId} {suffix : List TxRecord}
    (run : FundedRun cfg fcfg externals owner view assigned wallets suffix)
    (rotates : cfg.Rotates) (timed : Timed cfg view.chain) :
    SilentSuffix view.chain.ledger.records.toFinset suffix.toFinset := by
  refine ⟨fun event member record inLedger signs => ?_, fun event member record inBase same => ?_,
    fun event member other also same => ?_, fun event member record inBase paid => ?_,
    fun event member => ?_, fun record inBase other alsoInBase same => ?_⟩
  · -- A throwaway neither signs in the base nor is a funder.
    obtain ⟨paid, base, tops⟩ := run.appended.each event (List.mem_toFinset.mp member)
    rw [tops.dest] at signs
    rcases Finset.mem_union.mp inLedger with inBase | topUp
    · exact run.throwaways.unsigned paid base record (List.mem_toFinset.mp inBase) signs.symm
    · obtain ⟨_, _, alsoTops⟩ := run.appended.each record (List.mem_toFinset.mp topUp)
      obtain ⟨op, _, allowed⟩ := alsoTops.funder
      have unowned := (run.custody.payers run.cooker paid base).1
      have known := (run.throwaways.known paid base).1
      rw [← signs] at unowned known
      rcases run.funder_place allowed with drew | ⟨_, owned⟩
      · exact (List.nodup_append.mp run.fresh).2.2 _ known _ drew rfl
      · rw [unowned] at owned
        exact absurd owned (by simp)
  · obtain ⟨paid, base, tops⟩ := run.appended.each event (List.mem_toFinset.mp member)
    exact (run.custody.payers run.cooker paid base).2.2 record (List.mem_toFinset.mp inBase)
      (same.trans tops.dest)
  · exact List.inj_on_of_nodup_map run.appended.once (List.mem_toFinset.mp member)
      (List.mem_toFinset.mp also) same
  · obtain ⟨_, _, tops⟩ := run.appended.each event (List.mem_toFinset.mp member)
    obtain ⟨op, _, allowed⟩ := tops.funder
    have inLedger := List.mem_toFinset.mp inBase
    rcases run.funder_place allowed with drew | ⟨hub, _⟩
    · exact absurd rfl ((List.nodup_append.mp run.fresh).2.2 _
        (run.custody.mentioned record inLedger).1 _ (by rw [paid]; exact drew))
    · obtain ⟨agent, found, main, _⟩ := run.owner_hub hub
      refine (run.custody.mains rotates record inLedger ?_).1.symm
      rw [paid, ← main]
      exact List.mem_map_of_mem (List.mem_of_getElem? found)
  · obtain ⟨_, _, tops⟩ := run.appended.each event (List.mem_toFinset.mp member)
    exact tops.payer
  · rcases pairwise_either (timed.strict rotates.hardened) (List.mem_toFinset.mp inBase)
      (List.mem_toFinset.mp alsoInBase) with rfl | before | after
    · rfl
    · exact absurd same before.ne
    · exact absurd same after.ne'

section Simulated

variable {Generator : Type} [Rng Generator] [Libm]

/-- Funding is invisible without the funder graph: two accounts of the unfunded ledger of a
rotating run share a cluster of the funded ledger exactly when they share one of the unfunded
ledger, under every other heuristic. -/
theorem funding_invisible (fuel : Nat) (personas : List Persona) (cfg : SimConfig)
    (ledger : Ledger) (fcfg : FundingConfig) (adversary : AdversaryConfig)
    (order fundedOrder : HashOrder) (rotates : cfg.Rotates) (funding : cfg.funding = some fcfg)
    (simulated : simulate Generator fuel personas cfg = Outcome.returned ledger)
    (distinct : (allIds Generator fuel personas cfg).Nodup)
    (noFunder : adversary.useFunderGraph = false)
    (noCeiling : adversary.useBurstUnionCeiling = false)
    (window : adversary.useTemporalAmount = true → 0 ≤ adversary.temporalWindowSecs)
    (times : adversary.useTemporalAmount = true → ∀ record ∈ ledger.records,
      i64Min ≤ record.ts ∧ record.ts + adversary.temporalWindowSecs ≤ i64Max) :
    ∃ (base : Ledger) (clustering fundedClustering : Clustering),
      simulate Generator fuel personas cfg.unfunded = Outcome.returned base ∧
      cluster order base adversary = some clustering ∧
      cluster fundedOrder ledger adversary = some fundedClustering ∧
      ∀ first ∈ base.accounts.keys, ∀ second ∈ base.accounts.keys,
        (fundedClustering.clusterOf.lookup first = fundedClustering.clusterOf.lookup second ↔
          clustering.clusterOf.lookup first = clustering.clusterOf.lookup second) := by
  obtain ⟨built, final, owner, assigned, wallets, suffix, finished, records, _, run⟩ :=
    simulate_fundedRun fuel funding rotates.cooker simulated distinct
  obtain ⟨first, reached⟩ := finished.reached
  have silent : SilentSuffix final.chain.ledger.records.toFinset suffix.toFinset :=
    run.silent rotates reached.ordered.timed
  have inside (record : TxRecord) (member : record ∈ final.chain.ledger.records) :
      record ∈ ledger.records := by
    rw [records]
    exact List.mem_append_left _ member
  have measurable : Measurable adversary final.chain.ledger.records :=
    ⟨reached.slots_nodup, reached.slots_bounded, window,
      fun enabled record member => times enabled record (inside record member)⟩
  have fundedMeasurable : Measurable adversary ledger.records := by
    obtain ⟨nodup, bounded⟩ := finished.slots run.appended
    rw [← records] at nodup bounded
    exact ⟨nodup, bounded, window, times⟩
  have whole : ledger.records.toFinset =
      final.chain.ledger.records.toFinset ∪ suffix.toFinset := by
    rw [records, List.toFinset_append]
  have clustered := cluster_evidence order measurable (List.Perm.refl _)
  have fundedClustered := cluster_evidence fundedOrder fundedMeasurable (List.Perm.refl _)
  have listed {account : AccountId} (member : account ∈ final.chain.ledger.accounts.keys) :
      account ∈ ledger.accounts.keys := by
    obtain ⟨record, inBase, mentions⟩ := (Ledger.mem_accounts _ _).mp member
    exact (Ledger.mem_accounts _ _).mpr ⟨record, inside record inBase, mentions⟩
  refine ⟨final.chain.ledger, _, _, simulate_unfunded fuel finished.ended, clustered,
    fundedClustered, fun first one second other => ?_⟩
  rw [clusteringOf_eq_iff (Relation.EqvGen.is_equivalence _) one other,
    clusteringOf_eq_iff (Relation.EqvGen.is_equivalence _) (listed one) (listed other), whole]
  exact silent.linked_iff noFunder noCeiling

end Simulated

/-- The default adversary sees the accounts of the small run joined as without its top-ups. -/
theorem funding_invisible_hubRun : ∃ (ledger base : Ledger)
    (clustering fundedClustering : Clustering),
    simulate Counter 3 [Persona.retail] hubRun = Outcome.returned ledger ∧
    ledger.records.length = 6 ∧
    simulate Counter 3 [Persona.retail] hubRun.unfunded = Outcome.returned base ∧
    cluster HashOrder.asWritten base AdversaryConfig.exactTs = some clustering ∧
    cluster HashOrder.asWritten ledger AdversaryConfig.exactTs = some fundedClustering ∧
    ∀ first ∈ base.accounts.keys, ∀ second ∈ base.accounts.keys,
      (fundedClustering.clusterOf.lookup first = fundedClustering.clusterOf.lookup second ↔
        clustering.clusterOf.lookup first = clustering.clusterOf.lookup second) := by
  obtain ⟨ledger, simulated, length⟩ := hubRun_simulated
  have inRange : ((simulate Counter 3 [Persona.retail] hubRun).result?.any (fun ledger =>
      ledger.records.all (fun record => decide (i64Min ≤ record.ts ∧
        record.ts + AdversaryConfig.exactTs.temporalWindowSecs ≤ i64Max)))) = true := by
    decide +kernel
  rw [simulated] at inRange
  obtain ⟨base, clustering, fundedClustering, unfunded, clustered, fundedClustered, same⟩ :=
    funding_invisible 3 _ _ ledger _ AdversaryConfig.exactTs HashOrder.asWritten
      HashOrder.asWritten ⟨by decide +kernel, by decide +kernel⟩ rfl simulated hubRun_distinct rfl
      rfl (fun _ => by decide)
      (fun _ record member => of_decide_eq_true (List.all_eq_true.mp inRange record member))
  exact ⟨ledger, base, clustering, fundedClustering, simulated, length, unfunded, clustered,
    fundedClustered, same⟩

end AccountCooker
