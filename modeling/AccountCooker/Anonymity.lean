/-
This file proves that the two funding numbers of a report recover the truth they
are inferred for. The self-signed records that land on a fee payer are exactly
the top-ups, and the funders that serve two inferred fee payers are exactly
those that topped up two, with the operators these were topped up for. A naive
run funds nothing, and the payments of its main accounts are not mistaken for
funding.
-/

import Mathlib
import AccountCooker.FunderGraph

namespace AccountCooker

open Collections Draw

/-! ### The records that look like funding -/

theorem mem_fundingRecordsOf {records : List TxRecord} {record : TxRecord} :
    record ∈ fundingRecordsOf records ↔ record ∈ records ∧ record.feePayer = record.source ∧
      record.source ≠ record.dest ∧ ∃ payer ∈ records, payer.feePayer = record.dest := by
  unfold fundingRecordsOf
  simp only [List.mem_filter, Bool.and_eq_true, decide_eq_true_eq, List.mem_toFinset,
    List.mem_map, and_assoc]

section FundedRun

variable {cfg : SimConfig} {fcfg : FundingConfig} {externals : List AccountId}
  {owner : AccountId → Option AgentId} {view : View}
  {assigned : List AccountId × BTreeMap AgentId (AccountId × Option AgentId)}
  {wallets : List AccountId} {suffix : List TxRecord}

/-- The records of a funded ledger that look like funding are the top-ups. -/
theorem FundedRun.fundingRecordsOf_eq
    (run : FundedRun cfg fcfg externals owner view assigned wallets suffix) :
    fundingRecordsOf (view.chain.ledger.records ++ suffix) = suffix := by
  have base : view.chain.ledger.records.filter (fun record =>
      record.feePayer = record.source && record.source ≠ record.dest && record.dest ∈
        ((view.chain.ledger.records ++ suffix).map (·.feePayer)).toFinset) = [] := by
    refine List.filter_eq_nil_iff.mpr (fun record member looks => ?_)
    simp only [Bool.and_eq_true, decide_eq_true_eq] at looks
    exact run.payer_apart member looks.1.1
  have topUps : suffix.filter (fun record =>
      record.feePayer = record.source && record.source ≠ record.dest && record.dest ∈
        ((view.chain.ledger.records ++ suffix).map (·.feePayer)).toFinset) = suffix := by
    refine List.filter_eq_self.mpr (fun event member => ?_)
    obtain ⟨record, inBase, tops⟩ := run.appended.each event member
    simp only [Bool.and_eq_true, decide_eq_true_eq]
    refine ⟨⟨tops.payer, tops.apart⟩, List.mem_toFinset.mpr ?_⟩
    rw [tops.dest]
    exact List.mem_map_of_mem (List.mem_append_left _ inBase)
  unfold fundingRecordsOf
  rw [List.filter_append, base, topUps, List.nil_append]

/-! ### The operators behind a funder -/

/-- The operators whose records some fee payers paid for. -/
def operatorsBehind (base : List TxRecord) (feePayers : Finset AccountId) : Finset AgentId :=
  ((base.filter (fun record => record.feePayer ∈ feePayers)).filterMap (·.operator)).toFinset

theorem mem_operatorsBehind {base : List TxRecord} {feePayers : Finset AccountId} {op : AgentId} :
    op ∈ operatorsBehind base feePayers ↔
      ∃ record ∈ base, record.feePayer ∈ feePayers ∧ record.operator = some op := by
  unfold operatorsBehind
  simp only [List.mem_toFinset, List.mem_filterMap, List.mem_filter, decide_eq_true_eq, and_assoc]

/-- The funders that topped up at least two fee payers. -/
def sharedFunders (suffix : List TxRecord) : Finset AccountId :=
  (suffix.map (·.source)).toFinset.filter (fun funder => 2 ≤ (toppedUp suffix funder).card)

theorem mem_sharedFunders {suffix : List TxRecord} {funder : AccountId} :
    funder ∈ sharedFunders suffix ↔ 2 ≤ (toppedUp suffix funder).card := by
  unfold sharedFunders
  rw [Finset.mem_filter, and_iff_right_iff_imp]
  intro several
  obtain ⟨feePayer, member⟩ := Finset.card_pos.mp (lt_of_lt_of_le Nat.zero_lt_two several)
  obtain ⟨event, inSuffix, rfl, _⟩ := mem_toppedUp.mp member
  exact List.mem_toFinset.mpr (List.mem_map_of_mem inSuffix)

/-- The number of operators behind a funder of at least two fee payers, on average. -/
def meanOperators (base suffix : List TxRecord) : Float :=
  if sharedFunders suffix = ∅ then 1.0
  else F64.ofU64 (∑ funder ∈ sharedFunders suffix,
      (operatorsBehind base (toppedUp suffix funder)).card) /
    F64.ofU64 (sharedFunders suffix).card

/-- The table of fee payers inserts every labelled record they pay for. -/
theorem feePayerOperator_eq (records : List TxRecord) : feePayerOperator records =
    insertAll (records.filterMap (fun record => if record.feePayer ≠ record.source
      then record.operator.map (fun operator => (record.feePayer, operator)) else none)) := by
  unfold feePayerOperator insertAll
  rw [List.foldl_filterMap]
  congr 1
  funext operators record
  split
  · cases record.operator <;> rfl
  · rfl

/-- The operator of a fee payer is that of the base record it pays for. -/
theorem FundedRun.lookup_feePayerOperator
    (run : FundedRun cfg fcfg externals owner view assigned wallets suffix)
    (feePayer : AccountId) (op : AgentId) :
    (feePayerOperator (view.chain.ledger.records ++ suffix)).lookup feePayer = some op ↔
      ∃ record ∈ view.chain.ledger.records, record.feePayer = feePayer ∧
        record.operator = some op := by
  have listed (id : AgentId) : (feePayer, id) ∈
      (view.chain.ledger.records ++ suffix).filterMap (fun record =>
        if record.feePayer ≠ record.source
        then record.operator.map (fun operator => (record.feePayer, operator)) else none) ↔
      ∃ record ∈ view.chain.ledger.records, record.feePayer = feePayer ∧
        record.operator = some id := by
    rw [List.mem_filterMap]
    constructor
    · rintro ⟨record, member, found⟩
      split at found
      · rename_i apart
        obtain ⟨other, operator, equal⟩ := Option.map_eq_some_iff.mp found
        obtain ⟨rfl, rfl⟩ := Prod.mk.inj equal
        rcases List.mem_append.mp member with base | topUp
        · exact ⟨record, base, rfl, operator⟩
        · obtain ⟨_, _, tops⟩ := run.appended.each record topUp
          exact absurd tops.payer apart
      · exact absurd found (by simp)
    · rintro ⟨record, base, rfl, operator⟩
      refine ⟨record, List.mem_append_left _ base, ?_⟩
      rw [if_pos (run.payer_apart base), operator]
      rfl
  rw [feePayerOperator_eq, lookup_insertAll, listed]
  intro id id' one other
  obtain ⟨record, member, rfl, operator⟩ := (listed id).mp one
  obtain ⟨partner, inBase, same, also⟩ := (listed id').mp other
  rcases pairwise_either run.throwaways.apart member inBase with rfl | apart | apart
  · exact Option.some.inj (operator.symm.trans also)
  · exact absurd same.symm apart
  · exact absurd same apart

/-- What one entry of the funding graph adds to the sizes. -/
def anonymitySize (records : List TxRecord) (entry : AccountId × BTreeSet AccountId) :
    Option Nat :=
  if entry.2.keys.length < 2 then none
  else
    let ops := (entry.2.keys.filterMap (fun fp => (feePayerOperator records).lookup fp)).toFinset
    if ops.card = 0 then none else some ops.card

/-- An entry counts if its funder topped up two fee payers, and then for the operators behind
them. -/
theorem FundedRun.anonymitySize_eq
    (run : FundedRun cfg fcfg externals owner view assigned wallets suffix) {funder : AccountId}
    {feePayers : BTreeSet AccountId}
    (found : (fundingEdges (view.chain.ledger.records ++ suffix)).lookup funder = some feePayers) :
    anonymitySize (view.chain.ledger.records ++ suffix) (funder, feePayers) =
      if funder ∈ sharedFunders suffix
      then some (operatorsBehind view.chain.ledger.records (toppedUp suffix funder)).card
      else none := by
  have length : feePayers.keys.length =
      (fundees (view.chain.ledger.records ++ suffix).toFinset funder).card :=
    keys_length_eq (mem_fundingEdges found)
  unfold anonymitySize
  dsimp only
  rw [length]
  by_cases shared : funder ∈ sharedFunders suffix
  · have several := mem_sharedFunders.mp shared
    have whole : fundees (view.chain.ledger.records ++ suffix).toFinset funder =
        toppedUp suffix funder := by
      refine (run.fundees_eq funder).resolve_right (fun both => ?_)
      rw [both.1] at several
      exact absurd several (by simp)
    have operators : (feePayers.keys.filterMap (fun fp =>
        (feePayerOperator (view.chain.ledger.records ++ suffix)).lookup fp)).toFinset =
        operatorsBehind view.chain.ledger.records (toppedUp suffix funder) := by
      ext op
      rw [List.mem_toFinset, List.mem_filterMap, mem_operatorsBehind]
      simp only [run.lookup_feePayerOperator, mem_fundingEdges found, whole]
      constructor
      · rintro ⟨_, topped, record, base, rfl, operator⟩
        exact ⟨record, base, topped, operator⟩
      · rintro ⟨record, base, topped, operator⟩
        exact ⟨_, topped, record, base, rfl, operator⟩
    have nonempty :
        (operatorsBehind view.chain.ledger.records (toppedUp suffix funder)).card ≠ 0 := by
      obtain ⟨feePayer, member⟩ := Finset.card_pos.mp (lt_of_lt_of_le Nat.zero_lt_two several)
      obtain ⟨event, inSuffix, rfl, rfl⟩ := mem_toppedUp.mp member
      obtain ⟨record, base, tops⟩ := run.appended.each event inSuffix
      obtain ⟨op, operator, _⟩ := tops.funder
      refine Finset.card_ne_zero_of_mem (mem_operatorsBehind.mpr ⟨record, base, ?_, operator⟩)
      rw [← tops.dest]
      exact member
    rw [if_pos shared, whole, if_neg (not_lt.mpr several), operators, if_neg nonempty]
  · rw [if_neg shared, if_pos]
    rw [mem_sharedFunders, not_le] at shared
    rcases run.fundees_eq funder with whole | ⟨_, single⟩
    · rwa [whole]
    · exact Nat.lt_succ_of_le single

/-- The sum of what an iteration selects is a sum over the selected keys. -/
theorem sum_filterMap {Item : Type} (select : Item → Option Nat) (items : List Item) :
    (items.filterMap select).sum = (items.map (fun item => (select item).getD 0)).sum := by
  induction items with
  | nil => rfl
  | cons item rest inductionHypothesis =>
    rw [List.map_cons, List.sum_cons, ← inductionHypothesis, List.filterMap_cons]
    cases select item with
    | none => exact (Nat.zero_add _).symm
    | some value => exact List.sum_cons

theorem length_filterMap {Item : Type} (select : Item → Option Nat) (items : List Item) :
    (items.filterMap select).length =
      (items.map (fun item => if (select item).isSome then 1 else 0)).sum := by
  induction items with
  | nil => rfl
  | cons item rest inductionHypothesis =>
    rw [List.map_cons, List.sum_cons, ← inductionHypothesis, List.filterMap_cons]
    cases select item with
    | none => exact (Nat.zero_add _).symm
    | some value => exact Nat.add_comm _ 1

/-- The sizes are one for each funder that topped up two fee payers. -/
theorem FundedRun.anonymitySizes_spec
    (run : FundedRun cfg fcfg externals owner view assigned wallets suffix) (order : HashOrder) :
    (anonymitySizes order (view.chain.ledger.records ++ suffix)).sum =
        ∑ funder ∈ sharedFunders suffix,
          (operatorsBehind view.chain.ledger.records (toppedUp suffix funder)).card ∧
      (anonymitySizes order (view.chain.ledger.records ++ suffix)).length =
        (sharedFunders suffix).card := by
  let edges := fundingEdges (view.chain.ledger.records ++ suffix)
  -- Every funder that topped up two fee payers has an entry.
  have inside : sharedFunders suffix ⊆ edges.keys.toFinset := by
    intro funder shared
    obtain ⟨feePayer, member⟩ := Finset.card_pos.mp
      (lt_of_lt_of_le Nat.zero_lt_two (mem_sharedFunders.mp shared))
    rw [List.mem_toFinset, ← AList.mem_keys, ← AList.lookup_isSome]
    exact (fundingEdges_isSome _ _).mpr ⟨feePayer, run.toppedUp_subset funder member⟩
  have counted (weight : AccountId × BTreeSet AccountId → Nat) (total : AccountId → Nat)
      (each : ∀ funder feePayers, edges.lookup funder = some feePayers →
        weight (funder, feePayers) = if funder ∈ sharedFunders suffix then total funder else 0) :
      ((order.iterate [8, 6] edges).map weight).sum =
        ∑ funder ∈ sharedFunders suffix, total funder := by
    have summed : ((order.iterate [8, 6] edges).map weight).sum =
        ∑ funder ∈ edges.keys.toFinset,
          if funder ∈ sharedFunders suffix then total funder else 0 := by
      refine order.sum_iterate [8, 6] edges (fun funder feePayers found => ?_)
        (fun funder member absent => ?_)
      · rw [List.mem_toFinset, ← AList.mem_keys, ← AList.lookup_isSome, found]
        exact ⟨rfl, each funder feePayers found⟩
      · rw [List.mem_toFinset, ← AList.mem_keys, ← AList.lookup_isSome, absent] at member
        exact absurd member Bool.false_ne_true
    rw [summed, Finset.sum_ite_mem, Finset.inter_eq_right.mpr inside]
  have sizes : anonymitySizes order (view.chain.ledger.records ++ suffix) =
      (order.iterate [8, 6] edges).filterMap
        (anonymitySize (view.chain.ledger.records ++ suffix)) := rfl
  rw [sizes, sum_filterMap, length_filterMap]
  constructor
  · refine counted _ _ (fun funder feePayers found => ?_)
    rw [run.anonymitySize_eq found]
    split <;> rfl
  · rw [Finset.card_eq_sum_ones]
    refine counted _ _ (fun funder feePayers found => ?_)
    rw [run.anonymitySize_eq found]
    split <;> rfl

/-- The mean of the sizes is the mean over the funders that topped up two fee payers. -/
theorem FundedRun.mean_eq
    (run : FundedRun cfg fcfg externals owner view assigned wallets suffix) (order : HashOrder) :
    (if (anonymitySizes order (view.chain.ledger.records ++ suffix)).isEmpty then 1.0
      else F64.ofU64 (anonymitySizes order (view.chain.ledger.records ++ suffix)).sum /
        F64.ofU64 (anonymitySizes order (view.chain.ledger.records ++ suffix)).length) =
      meanOperators view.chain.ledger.records suffix := by
  obtain ⟨sum, length⟩ := run.anonymitySizes_spec order
  have empty : (anonymitySizes order (view.chain.ledger.records ++ suffix)).isEmpty ↔
      sharedFunders suffix = ∅ := by
    rw [← Finset.card_eq_zero, ← length, List.isEmpty_iff, List.length_eq_zero_iff]
  unfold meanOperators
  by_cases none : sharedFunders suffix = ∅
  · rw [if_pos (empty.mpr none), if_pos none]
  · rw [if_neg (fun isEmpty => none (empty.mp isEmpty)), if_neg none, sum, length]

/-- Behind a funder of its own there is one operator. -/
theorem FundedRun.operatorsBehind_own
    (run : FundedRun cfg fcfg externals owner view assigned wallets suffix)
    (own : fcfg.OperatorOwned) {funder : AccountId} (shared : funder ∈ sharedFunders suffix) :
    (operatorsBehind view.chain.ledger.records (toppedUp suffix funder)).card = 1 := by
  have only (event : TxRecord) (inSuffix : event ∈ suffix) (record : TxRecord)
      (base : record ∈ view.chain.ledger.records) (dest : event.dest = record.feePayer) :
      record.operator = behind owner assigned.2 event.source := by
    obtain ⟨_, tops⟩ := run.topUp_of_paid base (List.mem_append_right _ inSuffix) dest
    obtain ⟨op, operator, allowed⟩ := tops.funder
    rw [operator, run.behind_assigned (run.assigned_of_allowed own allowed)]
  obtain ⟨feePayer, member⟩ := Finset.card_pos.mp
    (lt_of_lt_of_le Nat.zero_lt_two (mem_sharedFunders.mp shared))
  obtain ⟨event, inSuffix, rfl, rfl⟩ := mem_toppedUp.mp member
  obtain ⟨record, base, tops⟩ := run.appended.each event inSuffix
  obtain ⟨op, operator, _⟩ := tops.funder
  have hidden := only event inSuffix record base tops.dest
  rw [operator] at hidden
  refine Finset.card_eq_one.mpr ⟨op, Finset.ext (fun other => ?_)⟩
  rw [mem_operatorsBehind, Finset.mem_singleton]
  constructor
  · rintro ⟨partner, inBase, topped, labelled⟩
    obtain ⟨again, alsoInSuffix, source, dest⟩ := mem_toppedUp.mp topped
    have same := only again alsoInSuffix partner inBase dest
    rw [source, ← hidden, labelled] at same
    exact Option.some.inj same
  · rintro rfl
    refine ⟨record, base, ?_, operator⟩
    rw [← tops.dest]
    exact member

/-- As many top-ups as there are were numbered within range. -/
theorem Suffix.length_le {base : List TxRecord} (appended : Suffix fcfg assigned base suffix) :
    suffix.length ≤ u64Max := by
  cases suffix with
  | nil => exact Nat.zero_le _
  | cons first rest =>
    have bound : rest.length < (first :: rest).length := Nat.lt_succ_self _
    obtain ⟨_, slot, bounded⟩ := appended.numbered rest.length _ (List.getElem?_eq_getElem bound)
    rw [slot] at bounded
    rw [List.length_cons]
    omega

/-- With operators that fund themselves the mean is one. -/
theorem FundedRun.meanOperators_own
    (run : FundedRun cfg fcfg externals owner view assigned wallets suffix)
    (own : fcfg.OperatorOwned) : meanOperators view.chain.ledger.records suffix = 1.0 := by
  unfold meanOperators
  split
  · rfl
  · rename_i some
    have summed : ∑ funder ∈ sharedFunders suffix,
        (operatorsBehind view.chain.ledger.records (toppedUp suffix funder)).card =
        (sharedFunders suffix).card := by
      rw [Finset.card_eq_sum_ones]
      exact Finset.sum_congr rfl (fun funder shared => run.operatorsBehind_own own shared)
    have bounded : (sharedFunders suffix).card ≤ suffix.length := by
      refine (Finset.card_le_card (Finset.filter_subset _ _)).trans ?_
      refine (List.toFinset_card_le _).trans ?_
      rw [List.length_map]
    rw [summed, F64.ofU64_div_self (Finset.card_pos.mpr (Finset.nonempty_iff_ne_empty.mpr some))
      (bounded.trans run.appended.length_le)]

end FundedRun

/-! ### Unfunded ledgers -/

/-- Nothing looks like funding where every fee is paid by an account that never signs. -/
theorem Throwaways.fundingRecordsOf_nil {view : View} (throwaways : Throwaways view) :
    fundingRecordsOf view.chain.ledger.records = [] := by
  refine List.eq_nil_iff_forall_not_mem.mpr (fun record looks => ?_)
  obtain ⟨member, own, _⟩ := mem_fundingRecordsOf.mp looks
  exact throwaways.unsigned record member record member own

/-- A main account that pays its own fee pays no other main account. -/
theorem Custody.fundingRecordsOf_nil {cfg : SimConfig} {externals : List AccountId}
    {owner : AccountId → Option AgentId} {view : View}
    (custody : Custody cfg externals owner view) (sponsored : Sponsored view) :
    fundingRecordsOf view.chain.ledger.records = [] := by
  refine List.eq_nil_iff_forall_not_mem.mpr (fun record looks => ?_)
  obtain ⟨member, own, apart, payer, inLedger, pays⟩ := mem_fundingRecordsOf.mp looks
  obtain ⟨index, agent, found, operator, feePayer, _⟩ := sponsored.records record member
  obtain ⟨other, partner, atPartner, _, main, _⟩ := sponsored.records payer inLedger
  have owned := custody.held other partner atPartner partner.main
    (List.mem_of_getElem? (custody.agents other partner atPartner).main)
  rw [← main, pays] at owned
  have toward := custody.toward record member other owned
  obtain rfl := Option.some.inj (operator.symm.trans toward)
  obtain rfl := Option.some.inj (found.symm.trans atPartner)
  exact apart (own.symm.trans (feePayer.trans (main.symm.trans pays)))

/-! ### The report -/

/-- The funding numbers of a report are those of the records. -/
theorem evaluate_funding {order : HashOrder} {ledger : Ledger} {clustering : Clustering}
    {windowSecs : Int} {report : Report}
    (scored : evaluate order ledger clustering windowSecs = some report) :
    report.fundingRecords = (fundingRecordsOf ledger.records).length ∧
      report.funderAnonymitySet = if (anonymitySizes order ledger.records).isEmpty then 1.0
        else F64.ofU64 (anonymitySizes order ledger.records).sum /
          F64.ofU64 (anonymitySizes order ledger.records).length := by
  simp only [evaluate, Option.bind_eq_bind, Option.bind_eq_some_iff, Option.pure_def,
    Option.some_inj] at scored
  obtain ⟨_, _, _, _, _, _, _, _, _, _, _, _, _, _, _, _, rfl⟩ := scored
  exact ⟨rfl, rfl⟩

section Report

variable {Generator : Type} [Rng Generator] [Libm]

/-- The funding numbers recover the truth: as many funding records as the post-pass appended, none
for unfunded and naive runs, and behind the funders of a cooker run as many operators as they
topped up, one where operators fund themselves. -/
theorem funding_metrics (fuel : Nat) (personas : List Persona) (cfg : SimConfig) (ledger : Ledger)
    (simulated : simulate Generator fuel personas cfg = Outcome.returned ledger)
    (distinct : (allIds Generator fuel personas cfg).Nodup) (order : HashOrder)
    (clustering : Clustering) (windowSecs : Int) (report : Report)
    (scored : evaluate order ledger clustering windowSecs = some report) :
    ∃ (base : Ledger) (suffix : List TxRecord),
      simulate Generator fuel personas cfg.unfunded = Outcome.returned base ∧
      ledger.records = base.records ++ suffix ∧ report.fundingRecords = suffix.length ∧
      (cfg.funding = none ∨ cfg.mode = .naive → suffix = []) ∧
      ∀ fcfg, cfg.funding = some fcfg → cfg.mode = .cooker →
        report.funderAnonymitySet = meanOperators base.records suffix ∧
        (fcfg.OperatorOwned → report.funderAnonymitySet = 1.0) := by
  obtain ⟨count, mean⟩ := evaluate_funding scored
  by_cases plain : cfg.funding = none ∨ cfg.mode = .naive
  · obtain ⟨final, ended, rfl⟩ := simulate_plain fuel simulated plain
    have base := (List.nodup_append.mp distinct).1
    obtain ⟨built, owner, finished⟩ := finalState_finished fuel ended base
    obtain ⟨first, reached⟩ := finished.reached
    refine ⟨final.chain.ledger, [], simulate_unfunded fuel ended, (List.append_nil _).symm, ?_,
      fun _ => rfl, fun fcfg funding cooker => ?_⟩
    · rw [count]
      have nothing : fundingRecordsOf final.chain.ledger.records = [] := by
        cases mode : cfg.mode with
        | naive => exact finished.custody.fundingRecordsOf_nil (reached.sponsored mode base)
        | cooker => exact (reached.throwaways mode base).fundingRecordsOf_nil
      rw [nothing]
    · rcases plain with none | naive
      · exact absurd (none.symm.trans funding) (by simp)
      · exact absurd (naive.symm.trans cooker) (by simp)
  · rw [not_or] at plain
    obtain ⟨fcfg, funding⟩ := Option.ne_none_iff_exists'.mp plain.1
    have cooker : cfg.mode = .cooker := by
      cases mode : cfg.mode with
      | naive => exact absurd mode plain.2
      | cooker => rfl
    obtain ⟨built, final, owner, assigned, wallets, suffix, finished, records, assigning, run⟩ :=
      simulate_fundedRun fuel funding cooker simulated distinct
    rw [records] at count mean
    have whole : report.funderAnonymitySet = meanOperators final.chain.ledger.records suffix :=
      mean.trans (run.mean_eq order)
    refine ⟨final.chain.ledger, suffix, simulate_unfunded fuel finished.ended, records, ?_,
      fun either => absurd either (not_or.mpr plain), fun fcfg' also _ => ⟨whole, fun own => ?_⟩⟩
    · rw [count]
      exact congrArg List.length run.fundingRecordsOf_eq
    · obtain rfl := Option.some.inj (funding.symm.trans also)
      rw [whole]
      exact run.meanOperators_own own

end Report

/-- The report on the small run counts its three top-ups and an anonymity set of one. -/
theorem funding_metrics_hubRun : ∃ (ledger : Ledger) (clustering : Clustering) (report : Report),
    simulate Counter 3 [Persona.retail] hubRun = Outcome.returned ledger ∧
    evaluate HashOrder.asWritten ledger clustering 0 = some report ∧
    (∃ base suffix, simulate Counter 3 [Persona.retail] hubRun.unfunded = Outcome.returned base ∧
      ledger.records = base.records ++ suffix ∧ report.fundingRecords = suffix.length) ∧
    report.funderAnonymitySet = 1.0 := by
  have ran : ((simulate Counter 3 [Persona.retail] hubRun).result?.any (fun ledger =>
      (evaluate HashOrder.asWritten ledger ⟨∅, []⟩ 0).isSome)) = true := by decide +kernel
  obtain ⟨ledger, result, scores⟩ := (Option.any_eq_true _ _).mp ran
  have simulated := Outcome.result?_eq_some.mp result
  obtain ⟨report, scored⟩ := Option.isSome_iff_exists.mp scores
  obtain ⟨base, suffix, unfunded, records, count, _, cooker⟩ := funding_metrics 3 _ _ ledger
    simulated hubRun_distinct HashOrder.asWritten ⟨∅, []⟩ 0 report scored
  exact ⟨ledger, ⟨∅, []⟩, report, simulated, scored, ⟨base, suffix, unfunded, records, count⟩,
    (cooker _ rfl rfl).2 (Or.inl rfl)⟩

end AccountCooker
