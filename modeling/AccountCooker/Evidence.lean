/-
This file says what evidence a ledger gives to each heuristic, as a relation
between accounts defined on the set of its records: no map is iterated, no list
is sorted, no root is chosen. The clusters of a ledger are the classes of the
equivalence closure of the enabled evidence.

Grouping by time is a matter of chains: a burst is a class of records with one
timestamp and consecutive slots, an episode a class of records whose timestamps
are within the window of each other's. A weight is a number of buckets.
-/

import Mathlib
import AccountCooker.Chains
import AccountCooker.Clusters
import AccountCooker.Grouping

namespace AccountCooker

open Collections

/-! ### Evidence -/

section Evidence

variable (cfg : AdversaryConfig) (records : Finset TxRecord)

/-- The accounts that sign some records. -/
def signers (records : Finset TxRecord) : Finset AccountId := records.image (·.source)

/-- (1) One account pays the fee of a record the other signs. -/
def Sponsors (payer source : AccountId) : Prop :=
  ∃ r ∈ records, r.feePayer = payer ∧ r.source = source

/-- A record moves value between different accounts. -/
def MovesValue (r : TxRecord) : Prop := 0 < r.amount ∧ r.source ≠ r.dest

instance : DecidablePred MovesValue := fun _ => inferInstanceAs (Decidable (_ ∧ _))

/-- The accounts that move value into an account. -/
def payers (dest : AccountId) : Finset AccountId :=
  signers (records.filter (fun r => MovesValue r ∧ r.dest = dest))

/-- (2) The other account is one of a few that move value into an account that signs. -/
def Consolidates (dest source : AccountId) : Prop :=
  dest ∈ signers records ∧ source ∈ payers records dest ∧ 2 ≤ (payers records dest).card ∧
    (payers records dest).card ≤ cfg.burstMaxSources

/-- (3) What one account sends away is soon sent on to the other, nearly in full. -/
def Peels (first last : AccountId) : Prop :=
  ∃ a ∈ records, ∃ b ∈ records, MovesValue a ∧ MovesValue b ∧ b.source = a.dest ∧
    a.ts ≤ b.ts ∧ b.ts ≤ a.ts + cfg.temporalWindowSecs ∧ a.sig ≠ b.sig ∧
      absDiff a.amount b.amount ≤ tolerance a.amount cfg.amountToleranceBps ∧
        a.source = first ∧ b.dest = last

/-- The times at which an account signs. -/
def signingTimes (account : AccountId) : Set Int :=
  {ts | ∃ r ∈ records, r.source = account ∧ r.ts = ts}

/-- (4) One account moves value into the other, which first signs within the window after it. -/
def Activates (predecessor successor : AccountId) : Prop :=
  ∃ r ∈ records, MovesValue r ∧ r.source = predecessor ∧ r.dest = successor ∧
    ∃ activatedAt, IsLeast (signingTimes records successor) activatedAt ∧ r.ts ≤ activatedAt ∧
      saturatingI64 (activatedAt - r.ts) ≤ max cfg.activationWindowSecs 0

/-- The second record continues the burst of the first. -/
def Continues (r s : TxRecord) : Prop := s.ts = r.ts ∧ s.slot = r.slot + 1

/-- Two records are within the window of each other. -/
def WithinWindow (windowSecs : Int) (r s : TxRecord) : Prop :=
  saturatingI64 |s.ts - r.ts| ≤ max windowSecs 0

/-- The groups of some records: windows or bursts. -/
noncomputable def groupsOf : Finset (Finset TxRecord) :=
  if cfg.useWindowed then chainClasses (WithinWindow cfg.windowSecs) records
  else chainClasses Continues records

/-- Two accounts, in order, of a set of accounts whose size is within bounds. -/
def PairOf (low high : Nat) (accounts : Finset AccountId) (first second : AccountId) : Prop :=
  first ∈ accounts ∧ second ∈ accounts ∧ first < second ∧ low ≤ accounts.card ∧
    accounts.card ≤ high

instance (low high : Nat) (accounts : Finset AccountId) (first second : AccountId) :
    Decidable (PairOf low high accounts first second) :=
  inferInstanceAs (Decidable (_ ∧ _))

/-- The records that pay at least the minimum into an account. -/
def paymentsTo (dest : AccountId) : Finset TxRecord :=
  records.filter (fun r => cfg.copayMinAmount ≤ r.amount ∧ r.dest = dest)

/-- In how many pairs of a burst and a destination both accounts pay the destination. -/
noncomputable def burstCopayments (first second : AccountId) : Nat :=
  ∑ burst ∈ chainClasses Continues records, ((burst.image (·.dest)).filter (fun dest =>
    PairOf cfg.copayMinSources cfg.burstMaxSources (signers (paymentsTo cfg burst dest))
      first second)).card

/-- In how many episodes of payments to an account that signs both accounts pay. -/
noncomputable def episodeCopayments (first second : AccountId) : Nat :=
  ∑ dest ∈ signers records,
    ((chainClasses (WithinWindow cfg.windowSecs) (paymentsTo cfg records dest)).filter
      (fun episode => PairOf cfg.copayMinSources cfg.burstMaxSources (signers episode)
        first second)).card

/-- In how many buckets two accounts pay a common destination. -/
noncomputable def copayments (first second : AccountId) : Nat :=
  if cfg.useWindowed then episodeCopayments cfg records first second
  else burstCopayments cfg records first second

/-- Two accounts share enough buckets of payments. -/
def Copays (first second : AccountId) : Prop :=
  0 < copayments cfg records first second ∧
    cfg.copayMinSharedBuckets ≤ copayments cfg records first second

/-- In how many bursts both accounts sign under a fee payer other than themselves. -/
noncomputable def coactivity (first second : AccountId) : Nat :=
  ((chainClasses Continues records).filter (fun burst =>
    PairOf 2 cfg.burstMaxSources (signers (burst.filter (fun r => r.feePayer ≠ r.source)))
      first second)).card

/-- (5) Two accounts share enough bursts. -/
def Coacts (first second : AccountId) : Prop :=
  0 < coactivity cfg records first second ∧
    cfg.coactivityMinSharedBursts ≤ coactivity cfg records first second

/-- The fee payers an account sends to. -/
def fundees (funder : AccountId) : Finset AccountId :=
  (records.filter (fun r => r.source = funder ∧ r.source ≠ r.dest ∧
    r.dest ∈ records.image (·.feePayer))).image (·.dest)

/-- The accounts that sign under some fee payers, other than the fee payers themselves. -/
def sponsored (feePayers : Finset AccountId) : Finset AccountId :=
  signers (records.filter (fun r => r.feePayer ≠ r.source ∧ r.feePayer ∈ feePayers))

/-- (7) One account funds enough fee payers, behind which the other is one of a few. -/
def Funds (funder source : AccountId) : Prop :=
  (fundees records funder).Nonempty ∧ cfg.funderMinFundees ≤ (fundees records funder).card ∧
    source ∈ sponsored records (fundees records funder) ∧
      2 ≤ (sponsored records (fundees records funder)).card ∧
        (sponsored records (fundees records funder)).card ≤ cfg.funderMaxSources

/-- (6) Two accounts sign in one group that few sign in. -/
def ShareGroup (first second : AccountId) : Prop :=
  ∃ group ∈ groupsOf cfg records, first ∈ signers group ∧ second ∈ signers group ∧
    2 ≤ (signers group).card ∧ (signers group).card ≤ cfg.burstMaxSources

/-- The evidence of all enabled heuristics. -/
def Evidence (first second : AccountId) : Prop :=
  cfg.useFeePayer ∧ Sponsors records first second ∨
  cfg.useCospend ∧ Consolidates cfg records first second ∨
  cfg.useTemporalAmount ∧ Peels cfg records first second ∨
  cfg.useActivationLineage ∧ Activates cfg records first second ∨
  cfg.useBurstCopay ∧ Copays cfg records first second ∨
  cfg.useBurstCoactivity ∧ Coacts cfg records first second ∨
  cfg.useFunderGraph ∧ Funds cfg records first second ∨
  cfg.useBurstUnionCeiling ∧ ShareGroup cfg records first second

end Evidence

/-! ### Unions and evidence -/

/-- Some unions close to the same equivalence as a relation. -/
def Spans (pairs : List (AccountId × AccountId)) (edge : AccountId → AccountId → Prop) : Prop :=
  Linked pairs = Relation.EqvGen edge

theorem spans_of_mem {pairs : List (AccountId × AccountId)}
    {edge : AccountId → AccountId → Prop}
    (exact : ∀ first second, (first, second) ∈ pairs ↔ edge first second) : Spans pairs edge := by
  have same : (fun first second => (first, second) ∈ pairs) = edge := by
    funext first second
    exact propext (exact first second)
  unfold Spans Linked
  rw [same]

theorem Spans.congr {pairs : List (AccountId × AccountId)}
    {edge other : AccountId → AccountId → Prop} (spans : Spans pairs edge)
    (same : ∀ first second, edge first second ↔ other first second) : Spans pairs other := by
  have equal : edge = other := by
    funext first second
    exact propext (same first second)
  rwa [← equal]

/-- It is enough that each relation is contained in the closure of the other. -/
theorem spans_of_closure {pairs : List (AccountId × AccountId)}
    {edge : AccountId → AccountId → Prop}
    (sound : ∀ first second, (first, second) ∈ pairs → Relation.EqvGen edge first second)
    (complete : ∀ first second, edge first second → Linked pairs first second) :
    Spans pairs edge := by
  unfold Spans
  funext first second
  have ofEdge := Relation.EqvGen.is_equivalence edge
  have ofPairs := Relation.EqvGen.is_equivalence (fun x y => (x, y) ∈ pairs)
  exact propext ⟨fun linked => ofEdge.eqvGen_iff.mp (linked.mono sound),
    fun linked => ofPairs.eqvGen_iff.mp (linked.mono complete)⟩

theorem Spans.append {pairs more : List (AccountId × AccountId)}
    {edge other : AccountId → AccountId → Prop} (spans : Spans pairs edge)
    (spansMore : Spans more other) :
    Spans (pairs ++ more) (fun first second => edge first second ∨ other first second) := by
  have monoLeft {smaller larger : AccountId → AccountId → Prop} {first second : AccountId}
      (inside : ∀ x y, smaller x y → larger x y)
      (linked : Relation.EqvGen smaller first second) : Relation.EqvGen larger first second :=
    linked.mono inside
  refine spans_of_closure (fun first second member => ?_) (fun first second either => ?_)
  · rcases List.mem_append.mp member with one | two
    · have linked : Linked pairs first second := Relation.EqvGen.rel _ _ one
      rw [spans] at linked
      exact monoLeft (fun _ _ => Or.inl) linked
    · have linked : Linked more first second := Relation.EqvGen.rel _ _ two
      rw [spansMore] at linked
      exact monoLeft (fun _ _ => Or.inr) linked
  · rcases either with one | two
    · have linked : Linked pairs first second := by
        rw [spans]
        exact Relation.EqvGen.rel _ _ one
      exact monoLeft (fun _ _ => List.mem_append_left _) linked
    · have linked : Linked more first second := by
        rw [spansMore]
        exact Relation.EqvGen.rel _ _ two
      exact monoLeft (fun _ _ => List.mem_append_right _) linked

/-- A disabled heuristic spans nothing, an enabled one its evidence. -/
theorem Spans.enabled {pairs : List (AccountId × AccountId)}
    {edge : AccountId → AccountId → Prop} (spans : Spans pairs edge) (flag : Bool) :
    Spans (AccountCooker.enabled flag pairs) (fun first second => flag ∧ edge first second) := by
  cases flag with
  | true =>
    have always : (fun first second => true = true ∧ edge first second) = edge := by
      funext first second
      exact propext (and_iff_right rfl)
    unfold AccountCooker.enabled
    rw [always]
    exact spans
  | false => exact spans_of_mem (fun first second => by simp [AccountCooker.enabled])

/-! ### Sets of accounts -/

theorem mem_signers {records : Finset TxRecord} {account : AccountId} :
    account ∈ signers records ↔ ∃ r ∈ records, r.source = account := Finset.mem_image

/-- The number of keys of a set is the number of its members. -/
theorem keys_length_eq {Key Value : Type} [LinearOrder Key] {map : BTreeMap Key Value}
    {members : Finset Key} (same : ∀ key, key ∈ map.keys ↔ key ∈ members) :
    map.keys.length = members.card := by
  rw [← List.toFinset_card_of_nodup map.keys_nodup]
  congr 1
  ext key
  rw [List.mem_toFinset, same]

theorem mem_payers {records : Finset TxRecord} {dest source : AccountId} :
    source ∈ payers records dest ↔
      ∃ r ∈ records, MovesValue r ∧ r.dest = dest ∧ r.source = source := by
  unfold payers
  rw [mem_signers]
  refine exists_congr (fun r => ?_)
  rw [Finset.mem_filter]
  tauto

/-! ### Fee payers -/

theorem mem_feePayerUnions {records : List TxRecord} {record : TxRecord}
    (member : record ∈ records) (repByFee : HashMap AccountId AccountId) :
    (record.feePayer, record.source) ∈ feePayerUnions repByFee records := by
  induction records generalizing repByFee with
  | nil => exact absurd member List.not_mem_nil
  | cons first rest inductionHypothesis =>
    unfold feePayerUnions
    rcases List.mem_cons.mp member with rfl | later
    · exact List.mem_cons_self
    · refine List.mem_cons_of_mem _ ?_
      split
      · exact List.mem_cons_of_mem _ (inductionHypothesis later _)
      · exact inductionHypothesis later _

/-- Where the representatives are linked with their fee payers, every union asked for is. -/
theorem feePayerUnions_linked {records : List TxRecord} {same : AccountId → AccountId → Prop}
    (equivalence : Equivalence same)
    (sponsored : ∀ record ∈ records, same record.feePayer record.source)
    (repByFee : HashMap AccountId AccountId)
    (known : ∀ payer rep, repByFee.lookup payer = some rep → same payer rep)
    {first second : AccountId} (member : (first, second) ∈ feePayerUnions repByFee records) :
    same first second := by
  induction records generalizing repByFee with
  | nil => exact absurd member List.not_mem_nil
  | cons record rest inductionHypothesis =>
    have here := sponsored record List.mem_cons_self
    have later := inductionHypothesis
      (fun record member => sponsored record (List.mem_cons_of_mem _ member))
    unfold feePayerUnions at member
    rcases List.mem_cons.mp member with equal | inRest
    · obtain ⟨rfl, rfl⟩ := Prod.mk.inj equal
      exact here
    · split at inRest
      · rename_i rep found
        rcases List.mem_cons.mp inRest with equal | inLater
        · obtain ⟨rfl, rfl⟩ := Prod.mk.inj equal
          exact equivalence.trans (equivalence.symm (known _ _ found)) here
        · exact later repByFee known inLater
      · refine later _ (fun payer rep found => ?_) inRest
        by_cases equal : payer = record.feePayer
        · subst equal
          rw [AList.lookup_insert] at found
          rw [← Option.some.inj found]
          exact here
        · rw [AList.lookup_insert_ne equal] at found
          exact known payer rep found

/-- Fee-payer linkage closes to the closure of sponsoring. -/
theorem feePayerUnions_spans (records : List TxRecord) :
    Spans (feePayerUnions ∅ records) (Sponsors records.toFinset) := by
  refine spans_of_closure (fun first second member => ?_) (fun payer source sponsors => ?_)
  · refine feePayerUnions_linked (Relation.EqvGen.is_equivalence _) (fun record inRecords => ?_) ∅
      (fun payer rep found => absurd found (by simp)) member
    exact Relation.EqvGen.rel _ _ ⟨record, List.mem_toFinset.mpr inRecords, rfl, rfl⟩
  · obtain ⟨record, member, rfl, rfl⟩ := sponsors
    exact Relation.EqvGen.rel _ _ (mem_feePayerUnions (List.mem_toFinset.mp member) ∅)

/-! ### Consolidation, peel chains and activation -/

/-- The payers of an account, as the heuristic collects them. -/
theorem mem_sourcesByDest {records : List TxRecord} {dest : AccountId}
    {sources : BTreeSet AccountId}
    (found : (sourcesByDest records).lookup dest = some sources) (source : AccountId) :
    source ∈ sources.keys ↔
      dest ∈ signers records.toFinset ∧ source ∈ payers records.toFinset dest := by
  rw [mem_collectSets found, mem_signers, mem_payers]
  simp only [MovesValue, List.mem_map, List.mem_filter, List.mem_toFinset, Bool.and_eq_true,
    decide_eq_true_eq, Prod.mk.injEq]
  constructor
  · rintro ⟨record, ⟨member, ⟨positive, moves⟩, signed, inRecords, signs⟩, rfl, rfl⟩
    exact ⟨⟨signed, inRecords, signs⟩, record, member, ⟨positive, moves⟩, rfl, rfl⟩
  · rintro ⟨⟨signed, inRecords, signs⟩, record, member, ⟨positive, moves⟩, rfl, rfl⟩
    exact ⟨record, ⟨member, ⟨positive, moves⟩, signed, inRecords, signs⟩, rfl, rfl⟩

theorem sourcesByDest_isSome {records : List TxRecord} {dest source : AccountId}
    (active : dest ∈ signers records.toFinset) (pays : source ∈ payers records.toFinset dest) :
    ∃ sources, (sourcesByDest records).lookup dest = some sources := by
  obtain ⟨signed, inRecords, signs⟩ := mem_signers.mp active
  obtain ⟨record, member, ⟨positive, moves⟩, rfl, _⟩ := mem_payers.mp pays
  refine Option.isSome_iff_exists.mp ((collectSets_isSome _ _).mpr ?_)
  simp only [List.mem_map, List.mem_filter, List.mem_toFinset, Bool.and_eq_true,
    decide_eq_true_eq] at inRecords member ⊢
  exact ⟨_, ⟨record, ⟨member, ⟨positive, moves⟩, signed, inRecords, signs⟩, rfl⟩, rfl⟩

theorem mem_cospendUnions (order : HashOrder) (records : List TxRecord) (cfg : AdversaryConfig)
    (dest source : AccountId) : (dest, source) ∈ cospendUnions order records cfg ↔
      Consolidates cfg records.toFinset dest source := by
  unfold cospendUnions Consolidates
  rw [List.mem_flatMap]
  constructor
  · rintro ⟨⟨other, sources⟩, member, asked⟩
    have found := (order.mem_iterate _ _ other sources).mp member
    split at asked
    · exact absurd asked List.not_mem_nil
    · rename_i few
      obtain ⟨key, inKeys, equal⟩ := List.mem_map.mp asked
      obtain ⟨rfl, rfl⟩ := Prod.mk.inj equal
      have active := ((mem_sourcesByDest found key).mp inKeys).1
      have length := keys_length_eq (fun source =>
        (mem_sourcesByDest found source).trans (and_iff_right active))
      simp only [length, Bool.or_eq_true, decide_eq_true_eq, not_or, not_lt] at few
      exact ⟨active, ((mem_sourcesByDest found key).mp inKeys).2, few⟩
  · rintro ⟨active, pays, enough, few⟩
    obtain ⟨sources, found⟩ := sourcesByDest_isSome active pays
    have keys (source : AccountId) : source ∈ sources.keys ↔
        source ∈ payers records.toFinset dest :=
      (mem_sourcesByDest found source).trans (and_iff_right active)
    refine ⟨(dest, sources), (order.mem_iterate _ _ dest sources).mpr found, ?_⟩
    have length := keys_length_eq keys
    rw [if_neg (by simp only [length, Bool.or_eq_true, decide_eq_true_eq]; omega)]
    exact List.mem_map.mpr ⟨source, (keys source).mpr pays, rfl⟩

theorem takeWhile_le_eq_filter {bucket : List Outgoing} (high : Int)
    (sorted : bucket.Pairwise (fun first second => first.ts ≤ second.ts)) :
    bucket.takeWhile (fun b => b.ts ≤ high) = bucket.filter (fun b => b.ts ≤ high) := by
  induction bucket with
  | nil => rfl
  | cons first rest inductionHypothesis =>
    obtain ⟨below, later⟩ := List.pairwise_cons.mp sorted
    by_cases inside : first.ts ≤ high
    · rw [List.takeWhile_cons, List.filter_cons, if_pos (decide_eq_true inside),
        if_pos (decide_eq_true inside), inductionHypothesis later]
    · have outside : (first :: rest).filter (fun b => decide (b.ts ≤ high)) = [] := by
        rw [List.filter_eq_nil_iff]
        intro b member within
        have bound := of_decide_eq_true within
        rcases List.mem_cons.mp member with rfl | after
        · exact inside bound
        · exact inside ((below b after).trans bound)
      rw [List.takeWhile_cons, if_neg (by simpa using inside), outside]

/-- The indexed range of a bucket in order of time is its transfers between two times. -/
theorem slice_between {bucket : List Outgoing} {low high : Int} (ordered : low ≤ high)
    (sorted : bucket.Pairwise (fun first second => first.ts ≤ second.ts)) :
    slice bucket (partitionPoint (fun b => b.ts < low) bucket)
        (partitionPoint (fun b => b.ts ≤ high) bucket) =
      some (bucket.filter (fun b => low ≤ b.ts && b.ts ≤ high)) := by
  induction bucket with
  | nil => rfl
  | cons first rest inductionHypothesis =>
    obtain ⟨below, later⟩ := List.pairwise_cons.mp sorted
    by_cases early : first.ts < low
    · have inside : first.ts ≤ high := early.le.trans ordered
      have lowPoint : partitionPoint (fun b => b.ts < low) (first :: rest) =
          partitionPoint (fun b => b.ts < low) rest + 1 := by
        simp [partitionPoint, early]
      have highPoint : partitionPoint (fun b => b.ts ≤ high) (first :: rest) =
          partitionPoint (fun b => b.ts ≤ high) rest + 1 := by
        simp [partitionPoint, inside]
      have dropped : (first :: rest).filter (fun b => low ≤ b.ts && b.ts ≤ high) =
          rest.filter (fun b => low ≤ b.ts && b.ts ≤ high) := by
        rw [List.filter_cons, if_neg (by simp [early])]
      rw [lowPoint, highPoint, dropped, ← inductionHypothesis later]
      simp only [slice, Nat.add_le_add_iff_right, List.take_succ_cons, List.drop_succ_cons]
    · have whole : (first :: rest).filter (fun b => decide (low ≤ b.ts) && decide (b.ts ≤ high)) =
          (first :: rest).filter (fun b => decide (b.ts ≤ high)) := by
        refine List.filter_congr (fun b member => ?_)
        have late : low ≤ b.ts := by
          rcases List.mem_cons.mp member with rfl | after
          · exact not_lt.mp early
          · exact (not_lt.mp early).trans (below b after)
        rw [decide_eq_true late, Bool.true_and]
      have lowPoint : partitionPoint (fun b => b.ts < low) (first :: rest) = 0 := by
        simp [partitionPoint, early]
      rw [lowPoint, whole, ← takeWhile_le_eq_filter high sorted]
      unfold slice partitionPoint
      rw [if_pos (Nat.zero_le _), List.drop_zero,
        ← List.prefix_iff_eq_take.mp (List.takeWhile_prefix _)]

/-- A record as it is indexed by its source. -/
def TxRecord.outgoing (r : TxRecord) : Outgoing := ⟨r.ts, r.amount, r.sig, r.dest⟩

/-- The bucket of a source: its transfers, in order of time. -/
theorem outgoingBySource_perm (txs : List TxRecord) (source : AccountId) :
    (outgoingBySource txs source = none ∧ txs.filter (fun r => r.source = source) = []) ∨
      txs.filter (fun r => r.source = source) ≠ [] ∧
        ∃ bucket, outgoingBySource txs source = some bucket ∧
          bucket.Pairwise (fun first second => first.ts ≤ second.ts) ∧
          bucket.Perm ((txs.filter (fun r => r.source = source)).map TxRecord.outgoing) := by
  have items : ((txs.map (fun b => (b.source, b.outgoing))).filter
      (fun pair => pair.1 = source)).map Prod.snd =
      (txs.filter (fun r => r.source = source)).map TxRecord.outgoing := by
    rw [List.filter_map, List.map_map]
    rfl
  by_cases empty : txs.filter (fun r => r.source = source) = []
  · refine Or.inl ⟨?_, empty⟩
    show Option.map _ ((collectLists (txs.map (fun b => (b.source, b.outgoing)))).lookup
      source) = none
    rw [Option.map_eq_none_iff, lookup_collectLists_none, List.map_map]
    intro member
    obtain ⟨r, inTxs, signs⟩ := List.mem_map.mp member
    have found : r ∈ txs.filter (fun r => r.source = source) :=
      List.mem_filter.mpr ⟨inTxs, decide_eq_true signs⟩
    rw [empty] at found
    exact absurd found List.not_mem_nil
  · have total : Std.Total outgoingBefore := ⟨fun first second => by unfold outgoingBefore; omega⟩
    have transitive : IsTrans Outgoing outgoingBefore :=
      ⟨fun _ _ _ before after => by unfold outgoingBefore at before after ⊢; omega⟩
    have found := (lookup_collectLists (txs.map (fun b => (b.source, b.outgoing))) source _).mpr
      ⟨items, fun nothing => empty (List.map_eq_nil_iff.mp nothing)⟩
    refine Or.inr ⟨empty, _, congrArg (Option.map _) found, ?_, List.perm_insertionSort _ _⟩
    refine (List.pairwise_insertionSort outgoingBefore _).imp (fun {_ _} before => ?_)
    exact before.elim le_of_lt (fun tie => tie.1.le)

theorem mem_valueTransfers {records : List TxRecord} {r : TxRecord} :
    r ∈ valueTransfers records ↔ r ∈ records ∧ MovesValue r := by
  unfold valueTransfers MovesValue
  rw [List.mem_filter, Bool.and_eq_true, decide_eq_true_eq, decide_eq_true_eq]

/-- The second record sends on nearly what the first one sent, soon after it. -/
def PeeledBy (windowSecs : Int) (toleranceBps : Nat) (a b : TxRecord) : Prop :=
  MovesValue a ∧ MovesValue b ∧ b.source = a.dest ∧ a.ts ≤ b.ts ∧ b.ts ≤ a.ts + windowSecs ∧
    a.sig ≠ b.sig ∧ absDiff a.amount b.amount ≤ tolerance a.amount toleranceBps

instance (windowSecs : Int) (toleranceBps : Nat) (a b : TxRecord) :
    Decidable (PeeledBy windowSecs toleranceBps a b) := inferInstanceAs (Decidable (_ ∧ _))

/-- No sum of a time and the window that the pass over some records computes overflows. -/
def WindowFits (windowSecs : Int) (records : List TxRecord) : Prop :=
  ∀ a ∈ records, ∀ b ∈ records, MovesValue a → MovesValue b → b.source = a.dest →
    i64Min ≤ a.ts + windowSecs ∧ a.ts + windowSecs ≤ i64Max

theorem windowFits_of_times {windowSecs : Int} {records : List TxRecord}
    (window : 0 ≤ windowSecs) (low : ∀ r ∈ records, i64Min ≤ r.ts)
    (high : ∀ r ∈ records, r.ts + windowSecs ≤ i64Max) : WindowFits windowSecs records :=
  fun a member _ _ _ _ _ => ⟨(low a member).trans (Int.le_add_of_nonneg_right window),
    high a member⟩

/-- The transfers a record is peeled on by, found from their index by source. -/
theorem peels_perm {records : List TxRecord} {windowSecs : Int} (toleranceBps : Nat)
    (window : 0 ≤ windowSecs) (fits : WindowFits windowSecs records) {a : TxRecord}
    (transfer : a ∈ valueTransfers records) :
    ∃ found, peels (valueTransfers records) windowSecs toleranceBps a = some found ∧
      found.Perm ((records.filter (fun b => PeeledBy windowSecs toleranceBps a b)).map
        TxRecord.outgoing) := by
  obtain ⟨inRecords, moves⟩ := mem_valueTransfers.mp transfer
  -- Which transfers of the bucket are kept, as a test of the records behind them.
  have kept : records.filter (fun b => PeeledBy windowSecs toleranceBps a b) =
      ((valueTransfers records).filter (fun r => r.source = a.dest)).filter (fun b =>
        (a.sig ≠ b.sig && absDiff a.amount b.amount ≤ tolerance a.amount toleranceBps) &&
          (a.ts ≤ b.ts && b.ts ≤ a.ts + windowSecs)) := by
    unfold valueTransfers
    rw [List.filter_filter, List.filter_filter]
    refine List.filter_congr (fun b _ => ?_)
    refine Bool.eq_iff_iff.mpr (decide_eq_true_iff.trans ?_)
    simp only [Bool.and_eq_true, decide_eq_true_eq]
    constructor
    · rintro ⟨_, movesOn, source, early, late, sig, near⟩
      exact ⟨⟨⟨⟨sig, near⟩, early, late⟩, source⟩, movesOn⟩
    · rintro ⟨⟨⟨⟨sig, near⟩, early, late⟩, source⟩, movesOn⟩
      exact ⟨moves, movesOn, source, early, late, sig, near⟩
  unfold peels
  rcases outgoingBySource_perm (valueTransfers records) a.dest with
    ⟨missing, none⟩ | ⟨some, bucket, found, sorted, perm⟩
  · rw [missing, kept, none]
    exact ⟨[], rfl, List.Perm.refl _⟩
  · obtain ⟨b, member⟩ := List.exists_mem_of_ne_nil _ some
    obtain ⟨next, source⟩ := List.mem_filter.mp member
    obtain ⟨inRecords', moves'⟩ := mem_valueTransfers.mp next
    have last : checkedI64 (a.ts + windowSecs) = .some (a.ts + windowSecs) :=
      checkedI64_eq_some.mpr
        ⟨fits a inRecords b inRecords' moves moves' (of_decide_eq_true source), rfl⟩
    have between := slice_between (Int.le_add_of_nonneg_right window : a.ts ≤ a.ts + windowSecs)
      sorted
    rw [found]
    refine ⟨(bucket.filter (fun b => a.ts ≤ b.ts && b.ts ≤ a.ts + windowSecs)).filter
      (fun b => a.sig ≠ b.sig &&
        absDiff a.amount b.amount ≤ tolerance a.amount toleranceBps), ?_, ?_⟩
    · simp only [last, between, Option.bind_eq_bind, Option.bind_some]
      rfl
    · rw [List.filter_filter, kept]
      refine (perm.filter _).trans ?_
      rw [List.filter_map]
      exact List.Perm.refl _

section PeelPass

variable {records : List TxRecord} {windowSecs : Int}

/-- A pass over the peel chains of all transfers takes what it takes of each. -/
theorem peels_flatten {Result : Type} (toleranceBps : Nat) (window : 0 ≤ windowSecs)
    (fits : WindowFits windowSecs records) (take : TxRecord → List Outgoing → List Result) :
    ∃ found : TxRecord → List Outgoing,
      (valueTransfers records).mapM (fun a => do
        let peeled ← peels (valueTransfers records) windowSecs toleranceBps a
        pure (take a peeled)) = some ((valueTransfers records).map (fun a => take a (found a))) ∧
      ∀ a ∈ valueTransfers records, (found a).Perm
        ((records.filter (fun b => PeeledBy windowSecs toleranceBps a b)).map
          TxRecord.outgoing) := by
  refine ⟨fun a => (peels (valueTransfers records) windowSecs toleranceBps a).getD [],
    mapM_some (fun a transfer => ?_), fun a transfer => ?_⟩
  · obtain ⟨found, peeled, _⟩ := peels_perm toleranceBps window fits transfer
    simp only [peeled, Option.getD_some]
    rfl
  · obtain ⟨found, peeled, perm⟩ := peels_perm toleranceBps window fits transfer
    simpa only [peeled, Option.getD_some] using perm

/-- The unions of the indexed pass are those of all pairs of records. -/
theorem temporalUnions_exact {cfg : AdversaryConfig} (window : 0 ≤ cfg.temporalWindowSecs)
    (fits : WindowFits cfg.temporalWindowSecs records) :
    ∃ pairs, temporalUnions records cfg = some pairs ∧
      ∀ first last, (first, last) ∈ pairs ↔ ∃ a ∈ records, ∃ b ∈ records,
        PeeledBy cfg.temporalWindowSecs cfg.amountToleranceBps a b ∧
          a.source = first ∧ b.dest = last := by
  obtain ⟨found, mapped, exact⟩ := peels_flatten cfg.amountToleranceBps window fits
    (fun a peeled => peeled.map (fun b => (a.source, b.dest)))
  refine ⟨_, (congrArg (Option.bind · _) mapped).trans rfl, fun first last => ?_⟩
  simp only [List.mem_flatten, List.mem_map, exists_exists_and_eq_and, Prod.mk.injEq]
  constructor
  · rintro ⟨a, transfer, b, member, rfl, rfl⟩
    obtain ⟨r, inFilter, rfl⟩ := List.mem_map.mp ((exact a transfer).mem_iff.mp member)
    obtain ⟨inRecords, peeled⟩ := List.mem_filter.mp inFilter
    exact ⟨a, (mem_valueTransfers.mp transfer).1, r, inRecords, of_decide_eq_true peeled, rfl, rfl⟩
  · rintro ⟨a, inRecords, b, inRecords', peeled, rfl, rfl⟩
    have transfer := mem_valueTransfers.mpr ⟨inRecords, peeled.1⟩
    exact ⟨a, transfer, b.outgoing, (exact a transfer).mem_iff.mpr (List.mem_map.mpr
      ⟨b, List.mem_filter.mpr ⟨inRecords', decide_eq_true peeled⟩, rfl⟩), rfl, rfl⟩

/-- The peel chains, where the window arithmetic does not overflow. -/
theorem temporalUnions_spec {cfg : AdversaryConfig}
    (window : 0 ≤ cfg.temporalWindowSecs) (low : ∀ r ∈ records, i64Min ≤ r.ts)
    (high : ∀ r ∈ records, r.ts + cfg.temporalWindowSecs ≤ i64Max) :
    ∃ pairs, temporalUnions records cfg = some pairs ∧
      ∀ first last, (first, last) ∈ pairs ↔ Peels cfg records.toFinset first last := by
  obtain ⟨pairs, computed, exact⟩ :=
    temporalUnions_exact window (windowFits_of_times window low high)
  refine ⟨pairs, computed, fun first last => (exact first last).trans ?_⟩
  simp only [Peels, PeeledBy, List.mem_toFinset, and_assoc]

end PeelPass

theorem signingTimes_concat (records : List TxRecord) (last : TxRecord) (account : AccountId) :
    signingTimes (records ++ [last]).toFinset account =
      if account = last.source then insert last.ts (signingTimes records.toFinset account)
      else signingTimes records.toFinset account := by
  ext ts
  have member : ts ∈ signingTimes (records ++ [last]).toFinset account ↔
      ts ∈ signingTimes records.toFinset account ∨ last.source = account ∧ last.ts = ts := by
    show (∃ r ∈ (records ++ [last]).toFinset, r.source = account ∧ r.ts = ts) ↔
      (∃ r ∈ records.toFinset, r.source = account ∧ r.ts = ts) ∨ _
    simp only [List.mem_toFinset, List.mem_append, List.mem_singleton]
    constructor
    · rintro ⟨r, earlier | rfl, both⟩
      · exact Or.inl ⟨r, earlier, both⟩
      · exact Or.inr both
    · rintro (⟨r, earlier, both⟩ | both)
      · exact ⟨r, Or.inl earlier, both⟩
      · exact ⟨last, Or.inr rfl, both⟩
  rw [member]
  by_cases here : account = last.source
  · rw [if_pos here, Set.mem_insert_iff, or_comm, @eq_comm _ ts, and_iff_right here.symm]
  · rw [if_neg here]
    exact or_iff_left (fun both => here both.1.symm)

/-- An account that signs signs a first time. -/
theorem exists_isLeast_signingTimes {records : Finset TxRecord} {account : AccountId}
    (signs : (signingTimes records account).Nonempty) :
    ∃ ts, IsLeast (signingTimes records account) ts := by
  obtain ⟨_, r, member, source, _⟩ := signs
  obtain ⟨first, inRecords, least⟩ := Finset.exists_min_image
    (records.filter (fun r => r.source = account)) (·.ts)
    ⟨r, Finset.mem_filter.mpr ⟨member, source⟩⟩
  rw [Finset.mem_filter] at inRecords
  refine ⟨first.ts, ⟨first, inRecords.1, inRecords.2, rfl⟩, ?_⟩
  rintro ts ⟨s, inside, signer, rfl⟩
  exact least s (Finset.mem_filter.mpr ⟨inside, signer⟩)

/-- The heuristic finds when an account first signs. -/
theorem lookup_firstSourceAt (records : List TxRecord) (account : AccountId) (ts : Int) :
    (firstSourceAt records).lookup account = some ts ↔
      IsLeast (signingTimes records.toFinset account) ts := by
  induction records using List.reverseRecOn generalizing ts with
  | nil =>
    refine ⟨fun impossible => absurd impossible (by simp [firstSourceAt]), fun least => ?_⟩
    obtain ⟨⟨r, member, _⟩, _⟩ := least
    exact absurd member (by simp)
  | append_singleton records last inductionHypothesis =>
    have unfolded : firstSourceAt (records ++ [last]) = (firstSourceAt records).insert last.source
        (((firstSourceAt records).lookup last.source).elim last.ts (min · last.ts)) := by
      rw [firstSourceAt, List.foldl_append, List.foldl_cons, List.foldl_nil, ← firstSourceAt]
      cases (firstSourceAt records).lookup last.source <;> rfl
    rw [unfolded, signingTimes_concat]
    by_cases here : account = last.source
    · subst here
      rw [AList.lookup_insert, if_pos rfl, Option.some_inj]
      cases found : (firstSourceAt records).lookup last.source with
      | some least =>
        have known := ((inductionHypothesis least).mp found).insert last.ts
        rw [min_comm] at known
        exact ⟨fun equal => equal ▸ known, fun other => known.unique other⟩
      | none =>
        have nothing : signingTimes records.toFinset last.source = ∅ := by
          by_contra signs
          obtain ⟨least, isLeast⟩ :=
            exists_isLeast_signingTimes (Set.nonempty_iff_ne_empty.mpr signs)
          rw [(inductionHypothesis least).mpr isLeast] at found
          exact absurd found (by simp)
        rw [nothing, insert_empty_eq]
        exact ⟨fun equal => equal ▸ isLeast_singleton, fun least => isLeast_singleton.unique least⟩
    · rw [AList.lookup_insert_ne here, if_neg here]
      exact inductionHypothesis ts

theorem mem_activationUnions (records : List TxRecord) (cfg : AdversaryConfig)
    (predecessor successor : AccountId) :
    (predecessor, successor) ∈ activationUnions records cfg ↔
      Activates cfg records.toFinset predecessor successor := by
  have activates_iff (r : TxRecord) : activates records cfg.activationWindowSecs r = true ↔
      MovesValue r ∧
      ∃ activatedAt, IsLeast (signingTimes records.toFinset r.dest) activatedAt ∧
        r.ts ≤ activatedAt ∧
          saturatingI64 (activatedAt - r.ts) ≤ max cfg.activationWindowSecs 0 := by
    unfold activates MovesValue
    simp only [← lookup_firstSourceAt]
    cases (firstSourceAt records).lookup r.dest with
    | none => simp
    | some activatedAt =>
      simp only [Bool.and_eq_true, decide_eq_true_eq, Option.some_inj, exists_eq_left', ge_iff_le,
        and_assoc]
  unfold activationUnions Activates
  simp only [List.mem_map, List.mem_filter, List.mem_toFinset, activates_iff, Prod.mk.injEq]
  constructor
  · rintro ⟨r, ⟨member, moves, soon⟩, rfl, rfl⟩
    exact ⟨r, member, moves, rfl, rfl, soon⟩
  · rintro ⟨r, member, moves, rfl, rfl, soon⟩
    exact ⟨r, ⟨member, moves, soon⟩, rfl, rfl⟩

end AccountCooker
