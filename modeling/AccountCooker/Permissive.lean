/-
This file compares two settings of the adversary of which the second is at least
as permissive: it enables more, looks further, caps less and asks for fewer
repetitions. Every heuristic then requests all it requested before, but for one
narrowing: the tolerance of the peel chains is computed in 128 bits and cast to
64, so that a tolerance of more than the whole amount can come out smaller than
a tighter one. Where no tolerance shrinks, nothing is separated; where one can
shrink, a ledger of two records shows it.
-/

import Mathlib
import AccountCooker.Closure
import AccountCooker.Totality

namespace AccountCooker

open Collections

/-! ### Settings -/

/-- The second settings group the records alike and are at least as permissive. -/
structure Permissive (cfg other : AdversaryConfig) : Prop where
  windowed : other.useWindowed = cfg.useWindowed
  window : other.windowSecs = cfg.windowSecs
  minAmount : other.copayMinAmount = cfg.copayMinAmount
  feePayer : cfg.useFeePayer = true → other.useFeePayer = true
  cospend : cfg.useCospend = true → other.useCospend = true
  temporal : cfg.useTemporalAmount = true → other.useTemporalAmount = true
  activation : cfg.useActivationLineage = true → other.useActivationLineage = true
  copay : cfg.useBurstCopay = true → other.useBurstCopay = true
  coactivity : cfg.useBurstCoactivity = true → other.useBurstCoactivity = true
  funderGraph : cfg.useFunderGraph = true → other.useFunderGraph = true
  ceiling : cfg.useBurstUnionCeiling = true → other.useBurstUnionCeiling = true
  temporalWindow : cfg.temporalWindowSecs ≤ other.temporalWindowSecs
  toleranceBps : cfg.amountToleranceBps ≤ other.amountToleranceBps
  activationWindow : cfg.activationWindowSecs ≤ other.activationWindowSecs
  burstSources : cfg.burstMaxSources ≤ other.burstMaxSources
  funderSources : cfg.funderMaxSources ≤ other.funderMaxSources
  copaySources : other.copayMinSources ≤ cfg.copayMinSources
  copayBuckets : other.copayMinSharedBuckets ≤ cfg.copayMinSharedBuckets
  coactivityBursts : other.coactivityMinSharedBursts ≤ cfg.coactivityMinSharedBursts
  fundees : other.funderMinFundees ≤ cfg.funderMinFundees

/-- Whatever two accounts of a ledger the first settings cluster together, the second do too, as
far as both return. -/
def NeverSeparates (cfg other : AdversaryConfig) (ledger : Ledger) : Prop :=
  ∀ (order reorder : HashOrder) (before after : Clustering),
    cluster order ledger cfg = some before → cluster reorder ledger other = some after →
      ∀ first ∈ ledger.accounts.keys, ∀ second ∈ ledger.accounts.keys,
        before.clusterOf.lookup first = before.clusterOf.lookup second →
          after.clusterOf.lookup first = after.clusterOf.lookup second

/-- No tolerance of a transfer shrinks. -/
def TolerancesGrow (cfg other : AdversaryConfig) (records : List TxRecord) : Prop :=
  cfg.useTemporalAmount = true → ∀ r ∈ valueTransfers records,
    tolerance r.amount cfg.amountToleranceBps ≤ tolerance r.amount other.amountToleranceBps

/-! ### What each heuristic requests -/

section Permissive

variable {cfg other : AdversaryConfig} {records : List TxRecord}

theorem PairOf.mono {low low' high high' : Nat} {accounts : Finset AccountId}
    {first second : AccountId} (lower : low' ≤ low) (higher : high ≤ high')
    (pair : PairOf low high accounts first second) : PairOf low' high' accounts first second :=
  ⟨pair.1, pair.2.1, pair.2.2.1, lower.trans pair.2.2.2.1, pair.2.2.2.2.trans higher⟩

theorem heavyPairs_subset (order reorder : HashOrder) (label : List Nat)
    {keys others : List (AccountId × AccountId)} {threshold lower : Nat}
    (below : lower ≤ threshold) (more : ∀ pair, keys.count pair ≤ others.count pair) :
    heavyPairs order label (tally keys) threshold ⊆
      heavyPairs reorder label (tally others) lower := by
  intro pair heavy
  obtain ⟨positive, enough⟩ := (mem_heavyPairs order label keys threshold pair).mp heavy
  exact (mem_heavyPairs reorder label others lower pair).mpr
    ⟨positive.trans_le (more pair), below.trans (enough.trans (more pair))⟩

theorem cospendUnions_subset (permissive : Permissive cfg other) (order reorder : HashOrder) :
    cospendUnions order records cfg ⊆ cospendUnions reorder records other := by
  rintro ⟨dest, source⟩ asked
  obtain ⟨active, pays, enough, few⟩ := (mem_cospendUnions order records cfg dest source).mp asked
  exact (mem_cospendUnions reorder records other dest source).mpr
    ⟨active, pays, enough, few.trans permissive.burstSources⟩

theorem windowFits_of_isSome {pairs : List (AccountId × AccountId)}
    (computed : temporalUnions records cfg = some pairs) :
    WindowFits cfg.temporalWindowSecs records :=
  fun a inA b inB movesA movesB source =>
    (temporalUnions_isSome.mp ⟨pairs, computed⟩ a inA b inB movesA movesB source).1

theorem temporalUnions_subset (permissive : Permissive cfg other)
    (window : 0 ≤ cfg.temporalWindowSecs)
    (grow : ∀ r ∈ valueTransfers records,
      tolerance r.amount cfg.amountToleranceBps ≤ tolerance r.amount other.amountToleranceBps)
    {pairs more : List (AccountId × AccountId)}
    (computed : temporalUnions records cfg = some pairs)
    (computed' : temporalUnions records other = some more) : pairs ⊆ more := by
  obtain ⟨_, same, exact⟩ := temporalUnions_exact window (windowFits_of_isSome computed)
  obtain ⟨_, same', exact'⟩ := temporalUnions_exact (window.trans permissive.temporalWindow)
    (windowFits_of_isSome computed')
  obtain rfl := Option.some.inj (computed.symm.trans same)
  obtain rfl := Option.some.inj (computed'.symm.trans same')
  rintro ⟨first, last⟩ asked
  obtain ⟨a, inA, b, inB, ⟨movesA, movesB, source, early, late, sig, near⟩, ends⟩ :=
    (exact first last).mp asked
  refine (exact' first last).mpr ⟨a, inA, b, inB, ⟨movesA, movesB, source, early, ?_, sig, ?_⟩,
    ends⟩
  · exact late.trans (Int.add_le_add_left permissive.temporalWindow _)
  · exact near.trans (grow a (mem_valueTransfers.mpr ⟨inA, movesA⟩))

theorem activationUnions_subset (permissive : Permissive cfg other) :
    activationUnions records cfg ⊆ activationUnions records other := by
  rintro ⟨predecessor, successor⟩ asked
  obtain ⟨r, member, moves, source, dest, activatedAt, least, after, soon⟩ :=
    (mem_activationUnions records cfg predecessor successor).mp asked
  exact (mem_activationUnions records other predecessor successor).mpr
    ⟨r, member, moves, source, dest, activatedAt, least, after,
      soon.trans (max_le_max_right _ permissive.activationWindow)⟩

/-- The episodes of a destination do not depend on the bounds, so that wider bounds count more of
them. -/
theorem episodeCopayments_mono (permissive : Permissive cfg other) (records : Finset TxRecord)
    (first second : AccountId) :
    episodeCopayments cfg records first second ≤ episodeCopayments other records first second := by
  unfold episodeCopayments paymentsTo
  rw [permissive.window, permissive.minAmount]
  refine Finset.sum_le_sum (fun dest _ => Finset.card_le_card (fun episode shared => ?_))
  obtain ⟨member, pair⟩ := Finset.mem_filter.mp shared
  exact Finset.mem_filter.mpr
    ⟨member, pair.mono permissive.copaySources permissive.burstSources⟩

theorem copayUnions_subset (permissive : Permissive cfg other) (order reorder : HashOrder)
    (groups : List (List TxRecord)) :
    copayUnions order groups records cfg ⊆ copayUnions reorder groups records other := by
  unfold copayUnions
  rw [permissive.windowed]
  cases cfg.useWindowed with
  | true =>
    rw [if_pos rfl, if_pos rfl]
    refine heavyPairs_subset order reorder _ permissive.copayBuckets (fun pair => ?_)
    rw [count_windowedCopayEdges order cfg records pair.1 pair.2,
      count_windowedCopayEdges reorder other records pair.1 pair.2]
    exact episodeCopayments_mono permissive _ _ _
  | false =>
    rw [if_neg Bool.false_ne_true, if_neg Bool.false_ne_true]
    refine heavyPairs_subset order reorder _ permissive.copayBuckets (fun pair => ?_)
    rw [List.count_flatMap, List.count_flatMap]
    refine List.sum_le_sum (fun group _ => ?_)
    rw [Function.comp_apply, Function.comp_apply,
      count_group_copayments order _ cfg group.1 pair.1 pair.2,
      count_group_copayments reorder _ other group.1 pair.1 pair.2]
    unfold paymentsTo
    rw [permissive.minAmount]
    refine Finset.card_le_card (fun dest shared => ?_)
    obtain ⟨member, both⟩ := Finset.mem_filter.mp shared
    exact Finset.mem_filter.mpr
      ⟨member, both.mono permissive.copaySources permissive.burstSources⟩

theorem coactUnions_subset (permissive : Permissive cfg other) (order reorder : HashOrder)
    (bursts : List (List TxRecord)) :
    coactUnions order bursts cfg ⊆ coactUnions reorder bursts other := by
  refine heavyPairs_subset order reorder _ permissive.coactivityBursts (fun pair => ?_)
  rw [List.count_flatMap, List.count_flatMap]
  refine List.sum_le_sum (fun group _ => ?_)
  have counted (high : Nat) : (boundedPairs 2 high
      (sourcesOf (group.filter (fun r => r.feePayer ≠ r.source)))).count (pair.1, pair.2) =
      if PairOf 2 high (signers (group.filter (fun r => r.feePayer ≠ r.source)).toFinset)
        pair.1 pair.2 then 1 else 0 := count_boundedPairs mem_sourcesOf pair.1 pair.2
  show (boundedPairs 2 cfg.burstMaxSources _).count (pair.1, pair.2) ≤
    (boundedPairs 2 other.burstMaxSources _).count (pair.1, pair.2)
  rw [counted, counted]
  split
  · rename_i shared
    rw [if_pos (shared.mono le_rfl permissive.burstSources)]
  · exact Nat.zero_le _

theorem funderUnions_subset (permissive : Permissive cfg other) (order reorder : HashOrder) :
    funderUnions order records cfg ⊆ funderUnions reorder records other := by
  rintro ⟨funder, source⟩ asked
  obtain ⟨some, enough, member, two, few⟩ :=
    (mem_funderUnions order records cfg funder source).mp asked
  exact (mem_funderUnions reorder records other funder source).mpr
    ⟨some, permissive.fundees.trans enough, member, two, few.trans permissive.funderSources⟩

theorem ceilingUnions_subset (permissive : Permissive cfg other)
    (groups : List (List TxRecord)) : ceilingUnions groups cfg ⊆ ceilingUnions groups other := by
  intro pair asked
  obtain ⟨group, member, inStar⟩ := List.mem_flatMap.mp asked
  refine List.mem_flatMap.mpr ⟨group, member, ?_⟩
  dsimp only at inStar ⊢
  split at inStar
  · exact absurd inStar List.not_mem_nil
  · rename_i few
    rw [if_neg]
    · exact inStar
    · have more := permissive.burstSources
      simp only [Bool.or_eq_true, decide_eq_true_eq, not_or, not_lt] at few ⊢
      exact ⟨few.1, few.2.trans more⟩

theorem append_subset_append {pairs others more further : List (AccountId × AccountId)}
    (subset : pairs ⊆ others) (subsetMore : more ⊆ further) :
    pairs ++ more ⊆ others ++ further :=
  List.append_subset.mpr ⟨List.Subset.trans subset (List.subset_append_left _ _),
    List.Subset.trans subsetMore (List.subset_append_right _ _)⟩

theorem enabled_subset {flag more : Bool} {pairs others : List (AccountId × AccountId)}
    (also : flag = true → more = true) (subset : pairs ⊆ others) :
    enabled flag pairs ⊆ enabled more others := by
  cases flag with
  | false => exact List.nil_subset _
  | true =>
    rw [also rfl]
    exact subset

/-- Whatever is requested under the first settings is requested under the second. -/
theorem requestedUnions_subset (permissive : Permissive cfg other)
    (window : 0 ≤ cfg.temporalWindowSecs) (grow : TolerancesGrow cfg other records)
    {order reorder : HashOrder} {pairs more : List (AccountId × AccountId)}
    (requested : requestedUnions order records cfg = some pairs)
    (requested' : requestedUnions reorder records other = some more) : pairs ⊆ more := by
  unfold requestedUnions at requested requested'
  simp only [Option.bind_eq_bind, Option.bind_eq_some_iff] at requested requested'
  obtain ⟨temporal, asked, groups, grouped, bursts, chosen, equal⟩ := requested
  obtain ⟨temporal', asked', groups', grouped', bursts', chosen', equal'⟩ := requested'
  obtain rfl := Option.some.inj equal
  obtain rfl := Option.some.inj equal'
  have sameGroups : groups' = groups := by
    rw [permissive.windowed, permissive.window] at grouped'
    exact Option.some.inj (grouped'.symm.trans grouped)
  subst sameGroups
  have temporalSubset : temporal ⊆ temporal' := by
    cases used : cfg.useTemporalAmount with
    | false =>
      rw [used, if_neg Bool.false_ne_true] at asked
      rw [← Option.some.inj asked]
      exact List.nil_subset _
    | true =>
      rw [used, if_pos rfl] at asked
      rw [permissive.temporal used, if_pos rfl] at asked'
      exact temporalUnions_subset permissive window (grow used) asked asked'
  have coactivitySubset : enabled cfg.useBurstCoactivity (coactUnions order bursts cfg) ⊆
      enabled other.useBurstCoactivity (coactUnions reorder bursts' other) := by
    cases used : cfg.useBurstCoactivity with
    | false => exact List.nil_subset _
    | true =>
      rw [used] at chosen
      rw [permissive.coactivity used, permissive.windowed] at chosen'
      obtain rfl := Option.some.inj (chosen'.symm.trans chosen)
      rw [permissive.coactivity used]
      exact coactUnions_subset permissive order reorder bursts'
  refine append_subset_append (append_subset_append (append_subset_append
    (append_subset_append (append_subset_append (append_subset_append
      (append_subset_append ?_ ?_) temporalSubset) ?_) ?_) coactivitySubset) ?_) ?_
  · exact enabled_subset permissive.feePayer (List.Subset.refl _)
  · exact enabled_subset permissive.cospend (cospendUnions_subset permissive order reorder)
  · exact enabled_subset permissive.activation (activationUnions_subset permissive)
  · exact enabled_subset permissive.copay (copayUnions_subset permissive order reorder _)
  · exact enabled_subset permissive.funderGraph (funderUnions_subset permissive order reorder)
  · exact enabled_subset permissive.ceiling (ceilingUnions_subset permissive _)

theorem requestedUnions_of_cluster {order : HashOrder} {ledger : Ledger}
    {clustering : Clustering} (computed : cluster order ledger cfg = some clustering) :
    ∃ pairs, requestedUnions order ledger.records cfg = some pairs ∧
      clustering = clusteringOf (Linked pairs) ledger := by
  obtain ⟨pairs, requested, _⟩ := Option.bind_eq_some_iff.mp computed
  exact ⟨pairs, requested, Option.some.inj (computed.symm.trans (cluster_eq requested))⟩

/-- Where no tolerance shrinks, more permissive settings never separate. -/
theorem neverSeparates_of_tolerances {ledger : Ledger} (permissive : Permissive cfg other)
    (window : 0 ≤ cfg.temporalWindowSecs) (grow : TolerancesGrow cfg other ledger.records) :
    NeverSeparates cfg other ledger := by
  intro order reorder before after computed computed' first one second two together
  obtain ⟨pairs, requested, rfl⟩ := requestedUnions_of_cluster computed
  obtain ⟨more, requested', rfl⟩ := requestedUnions_of_cluster computed'
  have linked := (clusteringOf_eq_iff (Relation.EqvGen.is_equivalence _) one two).mp together
  refine (clusteringOf_eq_iff (Relation.EqvGen.is_equivalence _) one two).mpr ?_
  exact linked.mono (fun _ _ asked =>
    requestedUnions_subset permissive window grow requested requested' asked)

/-- A tolerance of at most the whole amount is not narrowed. -/
theorem tolerance_eq {amount bps : Nat} (bounded : amount ≤ u64Max) (part : bps ≤ 10000) :
    tolerance amount bps = amount * bps / 10000 := by
  have within : amount * bps / 10000 ≤ amount :=
    (Nat.div_le_div_right (Nat.mul_le_mul_left amount part)).trans
      (Nat.mul_div_cancel amount (by decide)).le
  have wide : amount < 2 ^ 64 := Nat.lt_of_le_of_lt bounded (by decide)
  exact Nat.mod_eq_of_lt (within.trans_lt wide)

/-- No tolerance shrinks that starts from nothing, stays, or stays within the whole amount. -/
theorem tolerance_grows {amount bps more : Nat} (bounded : amount ≤ u64Max) (below : bps ≤ more)
    (kept : bps = 0 ∨ bps = more ∨ more ≤ 10000) :
    tolerance amount bps ≤ tolerance amount more := by
  rcases kept with rfl | rfl | part
  · unfold tolerance
    rw [Nat.mul_zero]
    exact Nat.zero_le _
  · exact le_rfl
  · rw [tolerance_eq bounded (below.trans part), tolerance_eq bounded part]
    exact Nat.div_le_div_right (Nat.mul_le_mul_left amount below)

end Permissive

/-! ### Accounts without evidence -/

section Bystanders

variable {cfg : AdversaryConfig} {records : Finset TxRecord}

/-- The accounts that sign a record or pay for one. -/
def activeIn (records : Finset TxRecord) : Finset AccountId :=
  signers records ∪ records.image (·.feePayer)

theorem signers_subset {group records : Finset TxRecord} (inside : group ⊆ records)
    {account : AccountId} (signs : account ∈ signers group) : account ∈ activeIn records :=
  Finset.mem_union_left _ (Finset.image_subset_image inside signs)

/-- Only the peel chains speak of an account that neither signs nor pays. -/
theorem Evidence.active_or_peels {first second : AccountId}
    (evidence : Evidence cfg records first second) :
    (first ∈ activeIn records ∧ second ∈ activeIn records) ∨
      cfg.useTemporalAmount = true ∧ Peels cfg records first second := by
  have itself {account : AccountId} (signs : account ∈ signers records) :
      account ∈ activeIn records := signers_subset (Finset.Subset.refl _) signs
  rcases evidence with ⟨_, r, member, rfl, rfl⟩ | ⟨_, active, pays, _⟩ | peels |
    ⟨_, r, member, _, rfl, rfl, activatedAt, least, _⟩ | ⟨_, positive, _⟩ | ⟨_, positive, _⟩ |
    ⟨_, some, _, reached, _⟩ | ⟨_, group, member, one, two, _⟩
  · exact Or.inl ⟨Finset.mem_union_right _ (Finset.mem_image_of_mem _ member),
      itself (mem_signers.mpr ⟨r, member, rfl⟩)⟩
  · exact Or.inl ⟨itself active, signers_subset (Finset.filter_subset _ _) pays⟩
  · exact Or.inr peels
  · obtain ⟨s, inRecords, source, _⟩ := least.1
    exact Or.inl ⟨itself (mem_signers.mpr ⟨r, member, rfl⟩),
      itself (mem_signers.mpr ⟨s, inRecords, source⟩)⟩
  · left
    unfold copayments at positive
    split at positive
    · obtain ⟨dest, _, shares⟩ := Finset.exists_ne_zero_of_sum_ne_zero positive.ne'
      obtain ⟨episode, shared⟩ := Finset.card_ne_zero.mp shares
      obtain ⟨member, pair⟩ := Finset.mem_filter.mp shared
      have inside := (chainClasses_subset member).trans (Finset.filter_subset _ _)
      exact ⟨signers_subset inside pair.1, signers_subset inside pair.2.1⟩
    · obtain ⟨burst, member, shares⟩ := Finset.exists_ne_zero_of_sum_ne_zero positive.ne'
      obtain ⟨dest, shared⟩ := Finset.card_ne_zero.mp shares
      obtain ⟨_, pair⟩ := Finset.mem_filter.mp shared
      have inside : paymentsTo cfg burst dest ⊆ records :=
        (Finset.filter_subset _ _).trans (chainClasses_subset member)
      exact ⟨signers_subset inside pair.1, signers_subset inside pair.2.1⟩
  · obtain ⟨burst, shared⟩ := Finset.card_pos.mp positive
    obtain ⟨member, pair⟩ := Finset.mem_filter.mp shared
    have inside := (Finset.filter_subset (fun r : TxRecord => r.feePayer ≠ r.source) burst).trans
      (chainClasses_subset member)
    exact Or.inl ⟨signers_subset inside pair.1, signers_subset inside pair.2.1⟩
  · obtain ⟨feePayer, funded⟩ := some
    obtain ⟨r, inRecords, source, _⟩ := mem_fundees.mp funded
    obtain ⟨s, inRecords', _, _, signs⟩ := mem_sponsored.mp reached
    exact Or.inl ⟨itself (mem_signers.mpr ⟨r, inRecords, source⟩),
      itself (mem_signers.mpr ⟨s, inRecords', signs⟩)⟩
  · have inside : group ⊆ records := by
      unfold groupsOf at member
      split at member <;> exact chainClasses_subset member
    exact Or.inl ⟨signers_subset inside one, signers_subset inside two⟩

/-- An account that neither signs nor pays and that no peel chain reaches is alone. -/
theorem bystander_alone {account other : AccountId} (idle : account ∉ activeIn records)
    (unreached : ∀ first, ¬ Peels cfg records first account)
    (joined : Relation.EqvGen (Evidence cfg records) account other) : other = account := by
  have apart : Equivalence (fun first second => first = account ↔ second = account) :=
    ⟨fun _ => Iff.rfl, Iff.symm, Iff.trans⟩
  refine (apart.eqvGen_iff.mp (joined.mono (fun first second evidence => ?_))).mp rfl
  rcases evidence.active_or_peels with ⟨one, two⟩ | ⟨_, peels⟩
  · exact ⟨fun same => absurd (same ▸ one) idle, fun same => absurd (same ▸ two) idle⟩
  · refine ⟨fun same => ?_, fun same => absurd (same ▸ peels) (unreached first)⟩
    obtain ⟨a, member, _, _, _, _, _, _, _, _, _, source, _⟩ := peels
    refine absurd (signers_subset (Finset.Subset.refl _) ?_) idle
    exact mem_signers.mpr ⟨a, member, source.trans same⟩

end Bystanders

/-! ### A tolerance that shrinks -/

/-- An amount whose looser tolerance is narrowed to next to nothing, and one that only the
tighter tolerance takes for nearly the same. -/
theorem exists_narrowed {bps more : Nat} (positive : 0 < bps) (below : bps < more)
    (typed : more ≤ u32Max) (beyond : 10000 < more) :
    ∃ sent kept, sent ≤ u64Max ∧ 0 < kept ∧ kept ≤ u64Max ∧
      absDiff sent kept ≤ tolerance sent bps ∧ tolerance sent more < absDiff sent kept := by
  unfold u32Max at typed
  obtain ⟨sent, atLeast, atMost⟩ : ∃ sent, 2 ^ 64 * 10000 ≤ sent * more ∧
      sent * more < 2 ^ 64 * 10000 + more := by
    refine ⟨(2 ^ 64 * 10000 + (more - 1)) / more, ?_, ?_⟩
    · have next := Nat.lt_div_mul_add (a := 2 ^ 64 * 10000 + (more - 1)) (b := more) (by omega)
      omega
    · have whole := Nat.div_mul_le_self (2 ^ 64 * 10000 + (more - 1)) more
      omega
  -- The amount is large, so that a tighter tolerance of it is exact and large, and the looser one
  -- overshoots the range by little.
  have large : 2 ^ 32 * 10000 ≤ sent := by
    by_contra small
    have product : sent * more ≤ (2 ^ 32 * 10000 - 1) * (2 ^ 32 - 1) :=
      Nat.mul_le_mul (by omega) typed
    omega
  have bounded : sent ≤ u64Max := by
    by_contra huge
    unfold u64Max at huge
    have product : 2 ^ 64 * more ≤ sent * more := Nat.mul_le_mul_right more (by omega)
    omega
  have tighter : sent * bps + sent ≤ sent * more := by
    rw [← Nat.mul_succ]
    exact Nat.mul_le_mul_left sent below
  have wide : sent ≤ sent * bps := Nat.le_mul_of_pos_right sent positive
  have exact : 2 ^ 32 ≤ tolerance sent bps := by
    unfold tolerance
    rw [Nat.mod_eq_of_lt (by omega)]
    omega
  have narrowed : tolerance sent more < 2 ^ 20 := by
    unfold tolerance
    omega
  refine ⟨sent, sent - (tolerance sent more + 1), bounded, by omega, by omega, ?_, ?_⟩ <;>
    unfold absDiff <;> omega

/-- Account 1 pays account 2, which pays account 3 at once. -/
def peelLedger (sent kept : Nat) : Ledger where
  records :=
    [⟨1, 1, 0, ⟨9⟩, ⟨1⟩, ⟨2⟩, sent, .transfer, none⟩,
      ⟨2, 2, 0, ⟨8⟩, ⟨2⟩, ⟨3⟩, kept, .transfer, none⟩]

section PeelLedger

variable {cfg : AdversaryConfig} {sent kept : Nat}

theorem mem_peelLedger {r : TxRecord} : r ∈ (peelLedger sent kept).records.toFinset ↔
    r = ⟨1, 1, 0, ⟨9⟩, ⟨1⟩, ⟨2⟩, sent, .transfer, none⟩ ∨
      r = ⟨2, 2, 0, ⟨8⟩, ⟨2⟩, ⟨3⟩, kept, .transfer, none⟩ := by
  rw [List.mem_toFinset]
  exact List.mem_pair

theorem peelLedger_measurable (window : 0 ≤ cfg.temporalWindowSecs)
    (fits : cfg.temporalWindowSecs ≤ i64Max) : Measurable cfg (peelLedger sent kept).records where
  distinct := by
    show [1, 2].Nodup
    decide
  slots := fun r member => by
    rcases mem_peelLedger.mp (List.mem_toFinset.mpr member) with rfl | rfl
    · exact (show 1 ≤ u64Max by decide)
    · exact (show 2 ≤ u64Max by decide)
  window := fun _ => window
  times := fun _ r member => by
    rcases mem_peelLedger.mp (List.mem_toFinset.mpr member) with rfl | rfl <;>
      exact ⟨(show i64Min ≤ 0 by decide), by rwa [Int.zero_add]⟩

/-- The third account is reached only within the tolerance. -/
theorem peelLedger_within {first : AccountId}
    (peels : Peels cfg (peelLedger sent kept).records.toFinset first ⟨3⟩) :
    absDiff sent kept ≤ tolerance sent cfg.amountToleranceBps := by
  obtain ⟨a, inA, b, inB, _, _, source, _, _, _, near, _, dest⟩ := peels
  rcases mem_peelLedger.mp inB with rfl | rfl
  · exact absurd dest (show (⟨2⟩ : AccountId) ≠ ⟨3⟩ by decide)
  · rcases mem_peelLedger.mp inA with rfl | rfl
    · exact near
    · exact absurd source (show (⟨2⟩ : AccountId) ≠ ⟨3⟩ by decide)

theorem peelLedger_idle : (⟨3⟩ : AccountId) ∉ activeIn (peelLedger sent kept).records.toFinset := by
  intro active
  rcases Finset.mem_union.mp active with signs | pays
  · obtain ⟨r, member, source⟩ := mem_signers.mp signs
    rcases mem_peelLedger.mp member with rfl | rfl
    · exact absurd source (show (⟨1⟩ : AccountId) ≠ ⟨3⟩ by decide)
    · exact absurd source (show (⟨2⟩ : AccountId) ≠ ⟨3⟩ by decide)
  · obtain ⟨r, member, feePayer⟩ := Finset.mem_image.mp pays
    rcases mem_peelLedger.mp member with rfl | rfl
    · exact absurd feePayer (show (⟨9⟩ : AccountId) ≠ ⟨3⟩ by decide)
    · exact absurd feePayer (show (⟨8⟩ : AccountId) ≠ ⟨3⟩ by decide)

theorem peelLedger_accounts {r : TxRecord} (member : r ∈ (peelLedger sent kept).records) :
    r.source ∈ (peelLedger sent kept).accounts.keys ∧
      r.dest ∈ (peelLedger sent kept).accounts.keys :=
  ⟨(Ledger.mem_accounts _ _).mpr ⟨r, member, Or.inr (Or.inl rfl)⟩,
    (Ledger.mem_accounts _ _).mpr ⟨r, member, Or.inr (Or.inr rfl)⟩⟩

/-- A transfer that only the tighter tolerance takes for nearly the same separates. -/
theorem separates_of_narrowed {other : AdversaryConfig} (used : cfg.useTemporalAmount = true)
    (window : 0 ≤ cfg.temporalWindowSecs)
    (longer : cfg.temporalWindowSecs ≤ other.temporalWindowSecs)
    (fits : other.temporalWindowSecs ≤ i64Max) (positive : 0 < sent) (some : 0 < kept)
    (near : absDiff sent kept ≤ tolerance sent cfg.amountToleranceBps)
    (far : tolerance sent other.amountToleranceBps < absDiff sent kept) :
    ¬ NeverSeparates cfg other (peelLedger sent kept) := by
  intro never
  have first := (@peelLedger_accounts sent kept _ List.mem_cons_self).1
  have third := (@peelLedger_accounts sent kept _
    (List.mem_cons_of_mem _ List.mem_cons_self)).2
  have peels : Peels cfg (peelLedger sent kept).records.toFinset ⟨1⟩ ⟨3⟩ :=
    ⟨_, mem_peelLedger.mpr (Or.inl rfl), _, mem_peelLedger.mpr (Or.inr rfl),
      ⟨positive, (show (⟨1⟩ : AccountId) ≠ ⟨2⟩ by decide)⟩,
      ⟨some, (show (⟨2⟩ : AccountId) ≠ ⟨3⟩ by decide)⟩, rfl, le_rfl, by rwa [Int.zero_add],
      (show 1 ≠ 2 by decide), near, rfl, rfl⟩
  have together := never .asWritten .asWritten _ _
    (cluster_evidence .asWritten (peelLedger_measurable window (longer.trans fits))
      (List.Perm.refl _))
    (cluster_evidence .asWritten (peelLedger_measurable (window.trans longer) fits)
      (List.Perm.refl _)) ⟨1⟩ first ⟨3⟩ third
    ((clusteringOf_eq_iff (Relation.EqvGen.is_equivalence _) first third).mpr
      (Relation.EqvGen.rel _ _ (Or.inr (Or.inr (Or.inl ⟨used, peels⟩)))))
  have joined := (clusteringOf_eq_iff (Relation.EqvGen.is_equivalence _) first third).mp together
  exact absurd (bystander_alone peelLedger_idle
    (fun _ reached => absurd (peelLedger_within reached) (not_le.mpr far)) joined.symm)
    (show (⟨1⟩ : AccountId) ≠ ⟨3⟩ by decide)

end PeelLedger

/-! ### When permissive settings never separate -/

/-- More permissive settings never separate accounts of any ledger exactly when the peel chains
are not used, or their tolerance starts from nothing, stays, or stays within the whole amount. -/
theorem never_separates_iff {cfg other : AdversaryConfig} (permissive : Permissive cfg other)
    (window : 0 ≤ cfg.temporalWindowSecs) (fits : other.temporalWindowSecs ≤ i64Max)
    (typed : other.amountToleranceBps ≤ u32Max) :
    (∀ ledger : Ledger, (∀ r ∈ ledger.records, r.amount ≤ u64Max) →
      NeverSeparates cfg other ledger) ↔
    (cfg.useTemporalAmount = false ∨ cfg.amountToleranceBps = 0 ∨
      cfg.amountToleranceBps = other.amountToleranceBps ∨ other.amountToleranceBps ≤ 10000) := by
  constructor
  · intro never
    by_contra narrowing
    simp only [not_or, Bool.not_eq_false, not_le] at narrowing
    obtain ⟨used, something, differs, beyond⟩ := narrowing
    obtain ⟨sent, kept, bounded, some, bounded', near, far⟩ :=
      exists_narrowed (Nat.pos_of_ne_zero something)
        (lt_of_le_of_ne permissive.toleranceBps differs) typed beyond
    have positive : 0 < sent := by
      rcases Nat.eq_zero_or_pos sent with rfl | positive
      · exact absurd near (by
          unfold absDiff tolerance
          rw [Nat.zero_mul]
          omega)
      · exact positive
    refine separates_of_narrowed used window permissive.temporalWindow fits positive some near far
      (never _ (fun r member => ?_))
    rcases mem_peelLedger.mp (List.mem_toFinset.mpr member) with rfl | rfl
    · exact bounded
    · exact bounded'
  · intro kept ledger amounts
    refine neverSeparates_of_tolerances permissive window (fun used r transfer => ?_)
    exact tolerance_grows (amounts r (mem_valueTransfers.mp transfer).1) permissive.toleranceBps
      (kept.resolve_left (fun unused => Bool.false_ne_true (unused.symm.trans used)))

/-- The default settings, with a tolerance in basis points. -/
def withTolerance (bps : Nat) : AdversaryConfig :=
  { AdversaryConfig.exactTs with amountToleranceBps := bps }

theorem permissive_withTolerance {bps more : Nat} (below : bps ≤ more) :
    Permissive (withTolerance bps) (withTolerance more) :=
  ⟨rfl, rfl, rfl, id, id, id, id, id, id, id, id, le_rfl, below, le_rfl, le_rfl, le_rfl, le_rfl,
    le_rfl, le_rfl, le_rfl⟩

/-- Raising the tolerance to the whole amount separates nobody, of whatever amounts. -/
theorem never_separates_iff_whole : NeverSeparates (withTolerance 50) (withTolerance 10000)
    (peelLedger 42949672970001 42949671970001) :=
  (never_separates_iff (permissive_withTolerance (by decide)) (by decide) (by decide)
    (by decide)).mpr (Or.inr (Or.inr (Or.inr (by decide)))) _ (by decide)

/-- A million lamports less than about forty-three thousand SOL are within the default tolerance,
and beyond the largest one. -/
theorem largest_tolerance_separates :
    Permissive (withTolerance 50) (withTolerance u32Max) ∧
      (∀ r ∈ (peelLedger 42949672970001 42949671970001).records, r.amount ≤ u64Max) ∧
      ¬ NeverSeparates (withTolerance 50) (withTolerance u32Max)
        (peelLedger 42949672970001 42949671970001) :=
  ⟨permissive_withTolerance (by decide), by decide,
    separates_of_narrowed rfl (by decide) le_rfl (by decide) (by decide) (by decide) (by decide)
      (by decide)⟩

end AccountCooker
