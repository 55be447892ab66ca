/-
This file proves that the adversary is blind to what it must not read. Two
ledgers that look the same to an observer of the chain, whatever operators and
kinds their records carry, get the same clusters and the same features, even
where their hash maps are iterated in different orders.

A record is compared with its observed form, in which operator and kind are
erased. Each function of the records is shown not to tell the two apart.
-/

import Mathlib
import AccountCooker.Closure
import AccountCooker.Features

namespace AccountCooker

open Collections

/-! ### Observed records -/

/-- What an observer of the chain sees of a record. -/
def TxRecord.observed (r : TxRecord) : TxRecord := { r with kind := .transfer, operator := none }

/-- Two records look the same to an observer. -/
structure LooksLike (r s : TxRecord) : Prop where
  sig : r.sig = s.sig
  slot : r.slot = s.slot
  ts : r.ts = s.ts
  feePayer : r.feePayer = s.feePayer
  source : r.source = s.source
  dest : r.dest = s.dest
  amount : r.amount = s.amount

theorem LooksLike.observed {r s : TxRecord} (like : LooksLike r s) : r.observed = s.observed := by
  unfold TxRecord.observed
  rw [like.sig, like.slot, like.ts, like.feePayer, like.source, like.dest, like.amount]

theorem observed_eq {records others : List TxRecord}
    (like : List.Forall₂ LooksLike records others) :
    records.map TxRecord.observed = others.map TxRecord.observed := by
  induction like with
  | nil => rfl
  | cons here _ inductionHypothesis =>
    rw [List.map_cons, List.map_cons, here.observed, inductionHypothesis]

/-! ### Groups -/

theorem burstGroups_observed (records : List TxRecord) :
    burstGroups (records.map TxRecord.observed) =
      (burstGroups records).map (List.map (List.map TxRecord.observed)) := by
  have sorted : (records.map TxRecord.observed).insertionSort slotBefore =
      (records.insertionSort slotBefore).map TxRecord.observed :=
    (List.map_insertionSort slotBefore slotBefore TxRecord.observed records
      (fun _ _ _ _ => Iff.rfl)).symm
  have overflow (order : List TxRecord) :
      burstOverflow (order.map TxRecord.observed) = burstOverflow order := by
    unfold burstOverflow
    rw [← List.map_tail, List.zip_map, List.any_map]
    rfl
  unfold burstGroups
  rw [sorted, overflow, splitBy_map]
  split <;> rfl

theorem windowGroups_observed (records : List TxRecord) (windowSecs : Int) :
    windowGroups (records.map TxRecord.observed) windowSecs =
      (windowGroups records windowSecs).map (List.map TxRecord.observed) := by
  have sorted : (records.map TxRecord.observed).insertionSort timeBefore =
      (records.insertionSort timeBefore).map TxRecord.observed :=
    (List.map_insertionSort timeBefore timeBefore TxRecord.observed records
      (fun _ _ _ _ => Iff.rfl)).symm
  unfold windowGroups
  rw [sorted, splitBy_map]
  rfl

theorem sourcesOf_observed (records : List TxRecord) :
    sourcesOf (records.map TxRecord.observed) = sourcesOf records := by
  unfold sourcesOf
  rw [List.map_map]
  rfl

/-! ### What the heuristics collect -/

section Collected

variable (records : List TxRecord)

theorem feePayerUnions_observed (repByFee : HashMap AccountId AccountId) :
    feePayerUnions repByFee (records.map TxRecord.observed) = feePayerUnions repByFee records := by
  induction records generalizing repByFee with
  | nil => rfl
  | cons r rest inductionHypothesis =>
    rw [List.map_cons, feePayerUnions, feePayerUnions]
    refine congrArg (List.cons (r.feePayer, r.source)) ?_
    rw [show r.observed.feePayer = r.feePayer from rfl]
    cases repByFee.lookup r.feePayer with
    | some rep => exact congrArg (List.cons (rep, r.source)) (inductionHypothesis repByFee)
    | none => exact inductionHypothesis (repByFee.insert r.feePayer r.source)

theorem sourcesByDest_observed :
    sourcesByDest (records.map TxRecord.observed) = sourcesByDest records := by
  unfold sourcesByDest
  dsimp only
  rw [List.map_map, List.filter_map, List.map_map]
  rfl

theorem fundingEdges_observed :
    fundingEdges (records.map TxRecord.observed) = fundingEdges records := by
  unfold fundingEdges
  dsimp only
  rw [List.map_map, List.filter_map, List.map_map]
  rfl

theorem feePayerSources_observed :
    feePayerSources (records.map TxRecord.observed) = feePayerSources records := by
  unfold feePayerSources
  rw [List.filter_map, List.map_map]
  rfl

theorem valueTransfers_observed :
    valueTransfers (records.map TxRecord.observed) =
      (valueTransfers records).map TxRecord.observed := by
  unfold valueTransfers
  rw [List.filter_map]
  rfl

theorem peels_observed (windowSecs : Int) (toleranceBps : Nat) (a : TxRecord) :
    peels (records.map TxRecord.observed) windowSecs toleranceBps a.observed =
      peels records windowSecs toleranceBps a := by
  have bySource (source : AccountId) :
      outgoingBySource (records.map TxRecord.observed) source =
        outgoingBySource records source := by
    unfold outgoingBySource
    rw [List.map_map]
    rfl
  unfold peels
  rw [bySource]
  rfl

theorem firstSourceAt_observed :
    firstSourceAt (records.map TxRecord.observed) = firstSourceAt records := by
  unfold firstSourceAt
  rw [List.foldl_map]
  rfl

theorem activates_observed (windowSecs : Int) (r : TxRecord) :
    activates (records.map TxRecord.observed) windowSecs r.observed =
      activates records windowSecs r := by
  unfold activates
  rw [firstSourceAt_observed]
  rfl

theorem activations_observed (windowSecs : Int) :
    (records.map TxRecord.observed).filter
        (activates (records.map TxRecord.observed) windowSecs) =
      (records.filter (activates records windowSecs)).map TxRecord.observed := by
  rw [List.filter_map]
  exact congrArg _ (List.filter_congr (fun r _ => activates_observed records windowSecs r))

theorem temporalUnions_observed (cfg : AdversaryConfig) :
    temporalUnions (records.map TxRecord.observed) cfg = temporalUnions records cfg := by
  unfold temporalUnions
  dsimp only
  rw [valueTransfers_observed, List.mapM_map]
  simp only [Function.comp_def, peels_observed]
  rfl

theorem activationUnions_observed (cfg : AdversaryConfig) :
    activationUnions (records.map TxRecord.observed) cfg = activationUnions records cfg := by
  unfold activationUnions
  rw [activations_observed, List.map_map]
  rfl

theorem coactEdges_observed (groups : List (List TxRecord)) (cfg : AdversaryConfig) :
    coactEdges (groups.map (List.map TxRecord.observed)) cfg = coactEdges groups cfg := by
  unfold coactEdges
  rw [List.flatMap_map]
  refine congrArg tally (congrArg (fun pairs => groups.flatMap pairs) (funext fun group => ?_))
  rw [List.filter_map, sourcesOf_observed]
  rfl

theorem ceilingUnions_observed (groups : List (List TxRecord)) (cfg : AdversaryConfig) :
    ceilingUnions (groups.map (List.map TxRecord.observed)) cfg = ceilingUnions groups cfg := by
  unfold ceilingUnions
  rw [List.flatMap_map]
  refine congrArg (fun pairs => groups.flatMap pairs) (funext fun group => ?_)
  rw [sourcesOf_observed]

end Collected

/-! ### Iteration orders -/

/-- Two iterations of one map meet the same entries. -/
theorem iterate_perm_iterate {Key Value : Type} (order other : HashOrder) (label : List Nat)
    (map : HashMap Key Value) : (order.iterate label map).Perm (other.iterate label map) :=
  (order.iterate_perm label map).trans (other.iterate_perm label map).symm

theorem cospendUnions_observed (order other : HashOrder) (records : List TxRecord)
    (cfg : AdversaryConfig) :
    (cospendUnions order (records.map TxRecord.observed) cfg).Perm
      (cospendUnions other records cfg) := by
  unfold cospendUnions
  rw [sourcesByDest_observed]
  exact (iterate_perm_iterate order other _ _).flatMap_right _

theorem funderUnions_observed (order other : HashOrder) (records : List TxRecord)
    (cfg : AdversaryConfig) :
    (funderUnions order (records.map TxRecord.observed) cfg).Perm
      (funderUnions other records cfg) := by
  unfold funderUnions
  rw [fundingEdges_observed, feePayerSources_observed]
  exact (iterate_perm_iterate order other _ _).flatMap_right _

/-- Groups that look the same ask for the same pairs, as often. -/
theorem copayPairs_observed (order other : HashOrder) (groups : List (List TxRecord))
    (cfg : AdversaryConfig) :
    ((groups.map (List.map TxRecord.observed)).zipIdx.flatMap (fun group =>
      (order.iterate [4, 0, group.2] (payersByDest cfg.copayMinAmount group.1)).flatMap
        (fun bucket =>
          boundedPairs cfg.copayMinSources cfg.burstMaxSources bucket.2.keys))).Perm
      (groups.zipIdx.flatMap (fun group =>
        (other.iterate [4, 0, group.2] (payersByDest cfg.copayMinAmount group.1)).flatMap
          (fun bucket =>
            boundedPairs cfg.copayMinSources cfg.burstMaxSources bucket.2.keys))) := by
  have payers (group : List TxRecord) :
      payersByDest cfg.copayMinAmount (group.map TxRecord.observed) =
        payersByDest cfg.copayMinAmount group := by
    unfold payersByDest
    rw [List.filter_map, List.map_map]
    rfl
  rw [List.zipIdx_map, List.flatMap_map]
  refine List.Perm.flatMap_left _ (fun group _ => ?_)
  show ((order.iterate _ (payersByDest _ (group.1.map TxRecord.observed))).flatMap _).Perm _
  rw [payers]
  exact (iterate_perm_iterate order other _ _).flatMap_right _

theorem windowedCopayPairs_observed (order other : HashOrder) (records : List TxRecord)
    (cfg : AdversaryConfig) :
    ((order.iterate [4, 1] (recordsByDest (records.map TxRecord.observed) cfg)).flatMap
      (fun bucket => (windowGroups bucket.2 cfg.windowSecs).flatMap (fun episode =>
        boundedPairs cfg.copayMinSources cfg.burstMaxSources (sourcesOf episode)))).Perm
      ((other.iterate [4, 1] (recordsByDest records cfg)).flatMap
        (fun bucket => (windowGroups bucket.2 cfg.windowSecs).flatMap (fun episode =>
          boundedPairs cfg.copayMinSources cfg.burstMaxSources (sourcesOf episode)))) := by
  have payments (dest : AccountId) : paymentsInto cfg (records.map TxRecord.observed) dest =
      (paymentsInto cfg records dest).map TxRecord.observed := by
    unfold paymentsInto
    rw [List.map_map, List.filter_map]
    rfl
  have active : signers (records.map TxRecord.observed).toFinset = signers records.toFinset := by
    ext account
    simp only [mem_signers, List.mem_toFinset, List.mem_map, exists_exists_and_eq_and]
    rfl
  rw [List.perm_iff_count]
  intro pair
  let weight (payments : List TxRecord) : Nat :=
    ((windowGroups payments cfg.windowSecs).flatMap (fun episode =>
      boundedPairs cfg.copayMinSources cfg.burstMaxSources (sourcesOf episode))).count pair
  have same (payments : List TxRecord) :
      weight (payments.map TxRecord.observed) = weight payments := by
    show (List.flatMap _ (windowGroups (payments.map TxRecord.observed) _)).count pair = _
    rw [windowGroups_observed, List.flatMap_map]
    simp only [sourcesOf_observed]
    rfl
  rw [List.count_flatMap, List.count_flatMap]
  calc _ = ∑ dest ∈ signers (records.map TxRecord.observed).toFinset,
        weight (paymentsInto cfg (records.map TxRecord.observed) dest) :=
        sum_recordsByDest order _ cfg _ weight rfl
    _ = ∑ dest ∈ signers records.toFinset, weight (paymentsInto cfg records dest) := by
        rw [active]
        exact Finset.sum_congr rfl (fun dest _ => by rw [payments, same])
    _ = _ := (sum_recordsByDest other _ cfg records weight rfl).symm

/-! ### Clusters -/

/-- Lists of unions with the same members close to the same equivalence. -/
theorem linked_congr {pairs others : List (AccountId × AccountId)}
    (same : pairs.toFinset = others.toFinset) : Linked pairs = Linked others := by
  have members : (fun first second => (first, second) ∈ pairs) =
      fun first second => (first, second) ∈ others := by
    funext first second
    rw [← List.mem_toFinset, same, List.mem_toFinset]
  unfold Linked
  rw [members]

/-- Heavy pairs depend on how often each pair is asked for. -/
theorem heavyPairs_congr (order other : HashOrder) (label : List Nat)
    {pairs others : List (AccountId × AccountId)} (perm : pairs.Perm others) (threshold : Nat) :
    (heavyPairs order label (tally pairs) threshold).toFinset =
      (heavyPairs other label (tally others) threshold).toFinset := by
  ext pair
  rw [List.mem_toFinset, List.mem_toFinset, mem_heavyPairs, mem_heavyPairs, perm.count_eq]

theorem enabled_congr (flag : Bool) {pairs others : List (AccountId × AccountId)}
    (same : pairs.toFinset = others.toFinset) :
    (enabled flag pairs).toFinset = (enabled flag others).toFinset := by
  cases flag with
  | true => exact same
  | false => rfl

section Orders

variable (order other : HashOrder) (records : List TxRecord) (cfg : AdversaryConfig)

theorem copayUnions_observed (groups : List (List TxRecord)) :
    (copayUnions order (groups.map (List.map TxRecord.observed))
        (records.map TxRecord.observed) cfg).toFinset =
      (copayUnions other groups records cfg).toFinset := by
  unfold copayUnions
  cases cfg.useWindowed with
  | true => exact heavyPairs_congr order other _ (windowedCopayPairs_observed order other _ cfg) _
  | false => exact heavyPairs_congr order other _ (copayPairs_observed order other groups cfg) _

theorem coactUnions_observed (bursts : List (List TxRecord)) :
    (coactUnions order (bursts.map (List.map TxRecord.observed)) cfg).toFinset =
      (coactUnions other bursts cfg).toFinset := by
  unfold coactUnions
  rw [coactEdges_observed]
  exact heavyPairs_congr order other _ (List.Perm.refl _) _

/-- The unions asked for close to one equivalence, whatever is hidden and in whatever order
the maps are iterated. -/
theorem requestedUnions_observed :
    (requestedUnions order (records.map TxRecord.observed) cfg).map Linked =
      (requestedUnions other records cfg).map Linked := by
  unfold requestedUnions
  have grouped : (if cfg.useWindowed then
        some (windowGroups (records.map TxRecord.observed) cfg.windowSecs)
      else burstGroups (records.map TxRecord.observed)) =
      (if cfg.useWindowed then some (windowGroups records cfg.windowSecs)
        else burstGroups records).map (List.map (List.map TxRecord.observed)) := by
    rw [windowGroups_observed, burstGroups_observed]
    cases cfg.useWindowed <;> rfl
  have exact (groups : List (List TxRecord)) :
      (if cfg.useBurstCoactivity && cfg.useWindowed then
          burstGroups (records.map TxRecord.observed)
        else some (groups.map (List.map TxRecord.observed))) =
      (if cfg.useBurstCoactivity && cfg.useWindowed then burstGroups records
        else some groups).map (List.map (List.map TxRecord.observed)) := by
    rw [burstGroups_observed]
    cases cfg.useBurstCoactivity && cfg.useWindowed <;> rfl
  rw [temporalUnions_observed, grouped]
  cases (if cfg.useTemporalAmount then temporalUnions records cfg else some []) with
  | none => rfl
  | some temporal =>
    cases (if cfg.useWindowed then some (windowGroups records cfg.windowSecs)
        else burstGroups records) with
    | none => rfl
    | some groups =>
      simp only [Option.bind_eq_bind, Option.bind_some, Option.map_some, exact]
      cases (if cfg.useBurstCoactivity && cfg.useWindowed then burstGroups records
          else some groups) with
      | none => rfl
      | some bursts =>
        refine congrArg some (linked_congr ?_)
        simp only [List.toFinset_append]
        rw [feePayerUnions_observed, activationUnions_observed, ceilingUnions_observed,
          enabled_congr _ (copayUnions_observed order other records cfg groups),
          enabled_congr _ (coactUnions_observed order other cfg bursts),
          enabled_congr _ (List.toFinset_eq_of_perm _ _
            (cospendUnions_observed order other records cfg)),
          enabled_congr _ (List.toFinset_eq_of_perm _ _
            (funderUnions_observed order other records cfg))]

end Orders

/-- Clustering does not read operators and kinds. -/
theorem cluster_observed (order other : HashOrder) (ledger : Ledger) (cfg : AdversaryConfig) :
    cluster order ⟨ledger.records.map TxRecord.observed⟩ cfg = cluster other ledger cfg := by
  have accounts :
      (Ledger.mk (ledger.records.map TxRecord.observed)).accounts = ledger.accounts := by
    unfold Ledger.accounts
    rw [List.foldl_map]
    rfl
  have closed := requestedUnions_observed order other ledger.records cfg
  cases asked : requestedUnions other ledger.records cfg with
  | none =>
    rw [asked, Option.map_none, Option.map_eq_none_iff] at closed
    unfold cluster
    rw [asked]
    show Option.bind (requestedUnions order (ledger.records.map TxRecord.observed) cfg) _ = _
    rw [closed]
    rfl
  | some pairs =>
    rw [asked, Option.map_some] at closed
    obtain ⟨others, askedAlso, same⟩ := Option.map_eq_some_iff.mp closed
    have blind : cluster order ⟨ledger.records.map TxRecord.observed⟩ cfg = _ :=
      cluster_eq askedAlso
    rw [cluster_eq asked, blind, same]
    unfold clusteringOf
    rw [accounts]

/-! ### Features -/

namespace Features

/-- Features that answer every question alike. -/
structure Alike (features others : Features) : Prop where
  feePayers : features.feePayers = others.feePayers
  dests : features.dests = others.dests
  span : features.span = others.span
  coburst : ∀ key, features.coburst.lookup key = others.coburst.lookup key
  windowedCopay : ∀ key, features.windowedCopay.lookup key = others.windowedCopay.lookup key
  fundingHop : ∀ key, features.fundingHop.lookup key = others.fundingHop.lookup key
  activation : ∀ key, features.activation.lookup key = others.activation.lookup key
  peel : ∀ key, features.peel.lookup key = others.peel.lookup key

theorem Alike.vector [Libm] {features others : Features} (alike : Alike features others)
    (a b : AccountId) : features.vector a b = others.vector a b := by
  unfold Features.vector
  rw [alike.feePayers, alike.dests, alike.span]
  simp only [alike.coburst, alike.windowedCopay, alike.fundingHop, alike.activation, alike.peel]

end Features

/-- A weight depends on how often its key comes, not on when. -/
theorem lookup_weigh_perm {keys others : List (AccountId × AccountId)} (perm : keys.Perm others)
    (key : AccountId × AccountId) : (weigh keys).lookup key = (weigh others).lookup key := by
  have entries := perm.map (fun key => (key, ()))
  have occurs := (entries.map Prod.fst).mem_iff (a := key)
  unfold weigh
  rw [lookup_gather, lookup_gather]
  by_cases known : key ∈ (keys.map (fun key => (key, ()))).map Prod.fst
  · rw [if_pos known, if_pos (occurs.mp known)]
    exact congrArg some (((entries.filter _).map _).foldl_eq' (fun _ _ _ _ _ => rfl) _)
  · rw [if_neg known, if_neg (fun also => known (occurs.mpr also))]

namespace Features

theorem windowedCopayPairs_observed (order other : HashOrder) (windows : List (List TxRecord)) :
    (windowedCopayPairs order (windows.map (List.map TxRecord.observed))).Perm
      (windowedCopayPairs other windows) := by
  unfold windowedCopayPairs
  rw [List.zipIdx_map, List.flatMap_map]
  refine List.Perm.flatMap_left _ (fun group _ => ?_)
  show ((order.iterate _ (collectSets ((group.1.map TxRecord.observed).map _))).flatMap _).Perm _
  rw [List.map_map]
  exact (iterate_perm_iterate order other _ _).flatMap_right _

theorem fundingHopPairs_observed (order other : HashOrder) (records : List TxRecord) :
    (fundingHopPairs order (records.map TxRecord.observed)).Perm
      (fundingHopPairs other records) := by
  unfold fundingHopPairs
  rw [fundingEdges_observed, feePayerSources_observed]
  exact (iterate_perm_iterate order other _ _).flatMap_right _

theorem coburstPairs_observed (bursts : List (List TxRecord)) :
    coburstPairs (bursts.map (List.map TxRecord.observed)) = coburstPairs bursts := by
  unfold coburstPairs
  rw [List.flatMap_map]
  refine congrArg (fun pairs => bursts.flatMap pairs) (funext fun group => ?_)
  rw [sourcesOf_observed]

theorem activationPairs_observed (records : List TxRecord) (cfg : MlConfig) :
    activationPairs (records.map TxRecord.observed) cfg = activationPairs records cfg := by
  unfold activationPairs
  rw [activations_observed, List.map_map]
  rfl

theorem peelPairs_observed (records : List TxRecord) (cfg : MlConfig) :
    peelPairs (records.map TxRecord.observed) cfg = peelPairs records cfg := by
  unfold peelPairs
  dsimp only
  rw [valueTransfers_observed, List.mapM_map]
  simp only [Function.comp_def, peels_observed]
  rfl

/-- The features do not read operators and kinds. -/
theorem build_observed (order other : HashOrder) (ledger : Ledger) (cfg : MlConfig) :
    Option.Rel Alike (build order ⟨ledger.records.map TxRecord.observed⟩ cfg)
      (build other ledger cfg) := by
  unfold build
  dsimp only
  rw [burstGroups_observed, peelPairs_observed]
  cases burstGroups ledger.records with
  | none => exact Option.Rel.none
  | some bursts =>
    cases peelPairs ledger.records cfg with
    | none => exact Option.Rel.none
    | some peeled =>
      refine Option.Rel.some ⟨?_, ?_, ?_, fun key => ?_, fun key => ?_, fun key => ?_,
        fun key => ?_, fun key => rfl⟩
      · show collectSets ((ledger.records.map TxRecord.observed).map _) = _
        rw [List.map_map]
        rfl
      · show collectSets ((ledger.records.map TxRecord.observed).map _) = _
        rw [List.map_map]
        rfl
      · show spanOf (ledger.records.map TxRecord.observed) = _
        unfold spanOf
        rw [List.foldl_map]
        rfl
      · show (weigh (coburstPairs (bursts.map (List.map TxRecord.observed)))).lookup key = _
        rw [coburstPairs_observed]
      · refine lookup_weigh_perm ?_ key
        rw [windowGroups_observed]
        exact windowedCopayPairs_observed order other _
      · exact lookup_weigh_perm (fundingHopPairs_observed order other _) key
      · show (weigh (activationPairs (ledger.records.map TxRecord.observed) cfg)).lookup key = _
        rw [activationPairs_observed]

end Features

/-! ### Blindness -/

/-- Ledgers that look the same to an observer get the same clusters from every adversary, and
every pair of accounts the same features, in whatever orders the hash maps of the two analyses
are iterated. -/
theorem adversary_blind [Libm] {ledger other : Ledger}
    (like : List.Forall₂ LooksLike ledger.records other.records) :
    (∀ (cfg : AdversaryConfig) (order orderOther : HashOrder),
      cluster order ledger cfg = cluster orderOther other cfg) ∧
    ∀ (cfg : MlConfig) (order orderOther : HashOrder) (a b : AccountId),
      (Features.build order ledger cfg).bind (fun features => features.vector a b) =
        (Features.build orderOther other cfg).bind (fun features => features.vector a b) := by
  have same := observed_eq like
  refine ⟨fun cfg order orderOther => ?_, fun cfg order orderOther a b => ?_⟩
  · rw [← cluster_observed order order ledger, ← cluster_observed order orderOther other, same]
  · have blind (order orderOther : HashOrder) (ledger : Ledger) :
        (Features.build order ⟨ledger.records.map TxRecord.observed⟩ cfg).bind
            (fun features => features.vector a b) =
          (Features.build orderOther ledger cfg).bind (fun features => features.vector a b) := by
      have alike := Features.build_observed order orderOther ledger cfg
      generalize Features.build order _ cfg = built at alike ⊢
      generalize Features.build orderOther ledger cfg = rebuilt at alike ⊢
      cases alike with
      | none => rfl
      | some related => exact related.vector a b
    rw [← blind order order ledger, ← blind order orderOther other, same]

/-- The ledger of a pair with operators and kinds an observer cannot see. -/
def labelledLedger : Ledger where
  records :=
    [⟨1, 1, 100, ⟨9⟩, ⟨1⟩, ⟨2⟩, 50, .consolidate, some 0⟩,
      ⟨2, 2, 160, ⟨9⟩, ⟨2⟩, ⟨1⟩, 50, .swap, some 0⟩,
      ⟨3, 3, 180, ⟨3⟩, ⟨3⟩, ⟨4⟩, 70, .dust, some 1⟩]

theorem adversary_blind_labelledLedger : labelledLedger ≠ pairLedger ∧
    (cluster .asWritten labelledLedger .exactTs).map (·.sizes) = some [3, 1, 1] ∧
    cluster .asWritten labelledLedger .exactTs = cluster .asWritten pairLedger .exactTs ∧
    (Features.build .asWritten labelledLedger .standard).bind (·.vector ⟨1⟩ ⟨2⟩) =
      (Features.build .asWritten pairLedger .standard).bind (·.vector ⟨1⟩ ⟨2⟩) := by
  have like : List.Forall₂ LooksLike labelledLedger.records pairLedger.records :=
    .cons ⟨rfl, rfl, rfl, rfl, rfl, rfl, rfl⟩ (.cons ⟨rfl, rfl, rfl, rfl, rfl, rfl, rfl⟩
      (.cons ⟨rfl, rfl, rfl, rfl, rfl, rfl, rfl⟩ .nil))
  obtain ⟨clusters, features⟩ := adversary_blind like
  exact ⟨by decide, by decide +kernel, clusters .exactTs .asWritten .asWritten,
    features .standard .asWritten .asWritten ⟨1⟩ ⟨2⟩⟩

end AccountCooker
