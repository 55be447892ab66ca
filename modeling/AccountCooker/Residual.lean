/-
This file proves what the adversary keeps of a hardened run that rotates its
accounts. Fee payers are thrown away, no account that signs has two payers, no
two records share a burst, and the only account paid by two is a successor that
also writes a memo to itself, in one episode at most. All that joins two
accounts that sign is the lineage of rotations: a predecessor with a successor
that first signs within the activation window.
-/

import Mathlib
import AccountCooker.FeePayers

namespace AccountCooker

open Collections

/-! ### The residual relation -/

/-- A rotation moved the first account into the second, which first signs within the window after
it. -/
def Succeeds (externals : List AccountId) (windowSecs : Int) (records : Finset TxRecord)
    (predecessor successor : AccountId) : Prop :=
  ∃ r ∈ records, Rotation externals r ∧ r.source = predecessor ∧ r.dest = successor ∧
    ∃ activatedAt, IsLeast (signingTimes records successor) activatedAt ∧
      activatedAt - r.ts ≤ windowSecs

/-- An adversary without the peel-chain heuristic. -/
def AdversaryConfig.withoutTemporal (cfg : AdversaryConfig) : AdversaryConfig :=
  { cfg with useTemporalAmount := false }

/-- The exact-timestamp adversary or a windowed one, without the peel-chain heuristic. -/
def AdversaryConfig.Grouping (cfg : AdversaryConfig) : Prop :=
  cfg = AdversaryConfig.exactTs.withoutTemporal ∨
    ∃ windowSecs, cfg = (AdversaryConfig.windowed windowSecs).withoutTemporal

theorem SimConfig.Rotates.cooker {cfg : SimConfig} (rotates : cfg.Rotates) :
    cfg.mode = .cooker := by
  have hardened := rotates.hardened
  unfold SimConfig.hardened at hardened
  exact of_decide_eq_true (Bool.and_eq_true _ _ ▸ hardened).1

namespace Lineage

variable {externals : List AccountId} {view : View} {cfg : SimConfig}

/-- A record into an account that signs is a rotation of value or pays the account itself. -/
theorem into_active (lineage : Lineage externals view) {record signed : TxRecord}
    (member : record ∈ view.chain.ledger.records) (active : signed ∈ view.chain.ledger.records)
    (signs : signed.source = record.dest) :
    Rotation externals record ∧ 1 ≤ record.amount ∨ record.source = record.dest := by
  rcases lineage.outward record member with rotation | external | back
  · exact Or.inl rotation
  · rw [← signs] at external
    exact absurd external (lineage.source_not_external active)
  · exact Or.inr back.1.symm

/-- Only one rotation leads into an account. -/
theorem rotation_unique (lineage : Lineage externals view) {first second : TxRecord}
    (one : first ∈ view.chain.ledger.records) (other : second ∈ view.chain.ledger.records)
    (oneRotates : Rotation externals first) (otherRotates : Rotation externals second)
    (equal : first.dest = second.dest) : first = second := by
  obtain ⟨i, atFirst⟩ := List.mem_iff_getElem?.mp one
  obtain ⟨j, atSecond⟩ := List.mem_iff_getElem?.mp other
  obtain rfl := lineage.successor_once atFirst atSecond oneRotates otherRotates equal
  exact Option.some.inj (atFirst.symm.trans atSecond)

/-- A successor signs only after its rotation. -/
theorem signs_after (lineage : Lineage externals view) (timed : Timed cfg view.chain)
    {record signed : TxRecord} (member : record ∈ view.chain.ledger.records)
    (active : signed ∈ view.chain.ledger.records) (rotation : Rotation externals record)
    (signs : signed.source = record.dest) : record.ts ≤ signed.ts := by
  rcases pairwise_either (lineage.fresh.and timed.monotone) member active with
    rfl | after | before
  · exact le_rfl
  · exact after.2
  · exact absurd (Or.inr (Or.inl signs.symm)) (before.1 rotation)

/-! ### The heuristics one by one -/

theorem not_consolidates (lineage : Lineage externals view) (adversary : AdversaryConfig)
    (dest source : AccountId) :
    ¬ Consolidates adversary view.chain.ledger.records.toFinset dest source := by
  rintro ⟨active, _, several, _⟩
  obtain ⟨signed, inLedger, signs⟩ := mem_signers.mp active
  obtain ⟨one, oneIn, other, otherIn, different⟩ := Finset.one_lt_card.mp several
  obtain ⟨first, inFirst, firstMoves, firstDest, rfl⟩ := mem_payers.mp oneIn
  obtain ⟨second, inSecond, secondMoves, secondDest, rfl⟩ := mem_payers.mp otherIn
  rw [List.mem_toFinset] at inLedger inFirst inSecond
  exact different (lineage.payer_unique inFirst inSecond inLedger (signs.trans firstDest.symm)
    firstMoves.2 secondMoves.2 (firstDest.trans secondDest.symm))

theorem activates_iff (lineage : Lineage externals view) (timed : Timed cfg view.chain)
    {adversary : AdversaryConfig} (window : 0 ≤ adversary.activationWindowSecs)
    (narrow : adversary.activationWindowSecs < i64Max) (predecessor successor : AccountId) :
    Activates adversary view.chain.ledger.records.toFinset predecessor successor ↔
      Succeeds externals adversary.activationWindowSecs view.chain.ledger.records.toFinset
        predecessor successor := by
  have within (gap : Int) : saturatingI64 gap ≤ max adversary.activationWindowSecs 0 ↔
      gap ≤ adversary.activationWindowSecs := by
    rw [max_eq_left window, saturatingI64_le window]
    exact or_iff_left (not_le.mpr narrow)
  unfold Activates Succeeds
  simp only [within, List.mem_toFinset]
  refine exists_congr fun r => and_congr_right fun member => ?_
  constructor
  · rintro ⟨moves, rfl, rfl, activatedAt, least, _, soon⟩
    obtain ⟨signed, inLedger, signs, _⟩ := least.1
    exact ⟨lineage.rotation_of_active moves.2 (List.mem_toFinset.mp inLedger) signs, rfl, rfl,
      activatedAt, least, soon⟩
  · rintro ⟨rotation, rfl, rfl, activatedAt, least, soon⟩
    obtain ⟨signed, inLedger, signs, rfl⟩ := least.1
    have active := List.mem_toFinset.mp inLedger
    have amount : 1 ≤ r.amount := by
      rcases lineage.into_active member active signs with both | back
      · exact both.2
      · exact absurd back.symm rotation.1
    exact ⟨⟨amount, rotation.1.symm⟩, rfl, rfl, _, least,
      lineage.signs_after timed member active rotation signs, soon⟩

end Lineage

/-! ### Shared buckets -/

section Buckets

variable {externals : List AccountId} {view : View} {cfg : SimConfig} {first second : AccountId}

/-- In the hardened engine no record continues a burst. -/
theorem Timed.not_continues (timed : Timed cfg view.chain) (hardened : cfg.hardened = true) :
    ∀ r ∈ view.chain.ledger.records.toFinset, ∀ s ∈ view.chain.ledger.records.toFinset,
      ¬ Continues r s := by
  intro r inRecords s inLedger close
  rcases pairwise_either (timed.strict hardened) (List.mem_toFinset.mp inRecords)
    (List.mem_toFinset.mp inLedger) with rfl | before | after
  · exact absurd close.2 (by omega)
  · exact before.ne' close.1
  · exact after.ne close.1

/-- Nobody pairs up among the signers of a burst of one record. -/
theorem Timed.not_pairOf (timed : Timed cfg view.chain) (hardened : cfg.hardened = true)
    {burst kept : Finset TxRecord}
    (member : burst ∈ chainClasses Continues view.chain.ledger.records.toFinset)
    (inside : kept ⊆ burst) (low high : Nat) :
    ¬ PairOf low high (signers kept) first second := by
  rintro ⟨one, other, below, _⟩
  obtain ⟨r, inKept, rfl⟩ := mem_signers.mp one
  obtain ⟨s, alsoKept, rfl⟩ := mem_signers.mp other
  have same := chainClasses_alone member (timed.not_continues hardened) (inside inKept)
    (inside alsoKept)
  rw [same] at below
  exact lt_irrefl _ below

theorem Timed.burstCopayments_zero (timed : Timed cfg view.chain) (hardened : cfg.hardened = true)
    (adversary : AdversaryConfig) :
    burstCopayments adversary view.chain.ledger.records.toFinset first second = 0 := by
  unfold burstCopayments
  refine Finset.sum_eq_zero (fun burst member => ?_)
  rw [Finset.card_eq_zero, Finset.filter_eq_empty_iff]
  exact fun dest _ => timed.not_pairOf hardened member (Finset.filter_subset _ _) _ _

theorem Timed.coactivity_zero (timed : Timed cfg view.chain) (hardened : cfg.hardened = true)
    (adversary : AdversaryConfig) :
    coactivity adversary view.chain.ledger.records.toFinset first second = 0 := by
  unfold coactivity
  rw [Finset.card_eq_zero, Finset.filter_eq_empty_iff]
  exact fun burst member => timed.not_pairOf hardened member (Finset.filter_subset _ _) _ _

/-- Where two accounts pay one that signs, it is one of the two, and the other pays it by the
rotation that leads into it. -/
theorem Lineage.shared_payments (lineage : Lineage externals view) {adversary : AdversaryConfig}
    {dest : AccountId} (active : dest ∈ signers view.chain.ledger.records.toFinset)
    {episode : Finset TxRecord}
    (inside : episode ⊆ paymentsTo adversary view.chain.ledger.records.toFinset dest)
    {low high : Nat} (pair : PairOf low high (signers episode) first second) :
    (dest = first ∨ dest = second) ∧ ∃ r ∈ episode, r ∈ view.chain.ledger.records ∧
      Rotation externals r ∧ r.dest = dest := by
  obtain ⟨one, other, below, _⟩ := pair
  obtain ⟨r, inEpisode, rfl⟩ := mem_signers.mp one
  obtain ⟨s, alsoEpisode, rfl⟩ := mem_signers.mp other
  obtain ⟨signed, inLedger, signs⟩ := mem_signers.mp active
  obtain ⟨rMember, _, rDest⟩ := mem_paymentsTo.mp (inside inEpisode)
  obtain ⟨sMember, _, sDest⟩ := mem_paymentsTo.mp (inside alsoEpisode)
  rw [List.mem_toFinset] at rMember sMember inLedger
  rcases lineage.into_active rMember inLedger (signs.trans rDest.symm) with rRotates | rBack
  · refine ⟨Or.inr ?_, r, inEpisode, rMember, rRotates.1, rDest⟩
    rcases lineage.into_active sMember inLedger (signs.trans sDest.symm) with sRotates | sBack
    · have same := lineage.rotation_unique rMember sMember rRotates.1 sRotates.1
        (rDest.trans sDest.symm)
      rw [same] at below
      exact absurd below (lt_irrefl _)
    · exact (sBack.trans sDest).symm
  · refine ⟨Or.inl (rBack.trans rDest).symm, s, alsoEpisode, sMember, ?_, sDest⟩
    rcases lineage.into_active sMember inLedger (signs.trans sDest.symm) with sRotates | sBack
    · exact sRotates.1
    · rw [rBack, rDest, sBack, sDest] at below
      exact absurd below (lt_irrefl _)

/-- Two accounts share at most one episode of payments to each of the two. -/
theorem Lineage.episodeCopayments_le (lineage : Lineage externals view)
    (adversary : AdversaryConfig) :
    episodeCopayments adversary view.chain.ledger.records.toFinset first second ≤ 2 := by
  let shared (dest : AccountId) : Finset (Finset TxRecord) :=
    (chainClasses (WithinWindow adversary.windowSecs)
      (paymentsTo adversary view.chain.ledger.records.toFinset dest)).filter (fun episode =>
        PairOf adversary.copayMinSources adversary.burstMaxSources (signers episode) first second)
  have once (dest : AccountId) (active : dest ∈ signers view.chain.ledger.records.toFinset) :
      (shared dest).card ≤ if dest ∈ ({first, second} : Finset AccountId) then 1 else 0 := by
    have found {episode : Finset TxRecord} (member : episode ∈ shared dest) :=
      lineage.shared_payments active (chainClasses_subset (Finset.mem_filter.mp member).1)
        (Finset.mem_filter.mp member).2
    by_cases ours : dest ∈ ({first, second} : Finset AccountId)
    · rw [if_pos ours, Finset.card_le_one]
      intro episode member other otherMember
      obtain ⟨_, r, inEpisode, rMember, rRotates, rDest⟩ := found member
      obtain ⟨_, s, inOther, sMember, sRotates, sDest⟩ := found otherMember
      have same := lineage.rotation_unique rMember sMember rRotates sRotates
        (rDest.trans sDest.symm)
      rw [← same] at inOther
      exact chainClasses_unique (Finset.mem_filter.mp member).1
        (Finset.mem_filter.mp otherMember).1 inEpisode inOther
    · rw [if_neg ours, Nat.le_zero, Finset.card_eq_zero, Finset.eq_empty_iff_forall_notMem]
      intro episode member
      rw [Finset.mem_insert, Finset.mem_singleton] at ours
      exact ours (found member).1
  calc episodeCopayments adversary view.chain.ledger.records.toFinset first second
      = ∑ dest ∈ signers view.chain.ledger.records.toFinset, (shared dest).card := rfl
    _ ≤ ∑ dest ∈ signers view.chain.ledger.records.toFinset,
          if dest ∈ ({first, second} : Finset AccountId) then 1 else 0 := Finset.sum_le_sum once
    _ = ((signers view.chain.ledger.records.toFinset).filter
          (· ∈ ({first, second} : Finset AccountId))).card := (Finset.card_filter _ _).symm
    _ ≤ ({first, second} : Finset AccountId).card :=
        Finset.card_le_card (fun dest member => (Finset.mem_filter.mp member).2)
    _ ≤ 2 := Finset.card_le_two

end Buckets

/-! ### All evidence -/

section Evidence

variable {externals : List AccountId} {view : View} {cfg : SimConfig}
  {adversary : AdversaryConfig}

/-- Neither adversary finds two accounts that share enough buckets of payments. -/
theorem Lineage.not_copays (lineage : Lineage externals view) (timed : Timed cfg view.chain)
    (hardened : cfg.hardened = true) (grouping : adversary.Grouping) (first second : AccountId) :
    ¬ Copays adversary view.chain.ledger.records.toFinset first second := by
  rintro ⟨positive, enough⟩
  rcases grouping with rfl | ⟨windowSecs, rfl⟩
  · have none : burstCopayments _ view.chain.ledger.records.toFinset first second = 0 :=
      timed.burstCopayments_zero hardened AdversaryConfig.exactTs.withoutTemporal
    exact absurd (positive.trans_eq none) (lt_irrefl 0)
  · have few : episodeCopayments _ view.chain.ledger.records.toFinset first second ≤ 2 :=
      lineage.episodeCopayments_le (AdversaryConfig.windowed windowSecs).withoutTemporal
    exact absurd (show 3 ≤ 2 from enough.trans few) (by decide)

theorem Timed.not_coacts (timed : Timed cfg view.chain) (hardened : cfg.hardened = true)
    (first second : AccountId) :
    ¬ Coacts adversary view.chain.ledger.records.toFinset first second := by
  rintro ⟨positive, _⟩
  rw [timed.coactivity_zero hardened] at positive
  exact lt_irrefl 0 positive

/-- The evidence of a rotating run: fee payers and successors. -/
theorem Lineage.evidence_iff (lineage : Lineage externals view) (timed : Timed cfg view.chain)
    (hardened : cfg.hardened = true) (grouping : adversary.Grouping) (first second : AccountId) :
    Evidence adversary view.chain.ledger.records.toFinset first second ↔
      Sponsors view.chain.ledger.records.toFinset first second ∨
        Succeeds externals adversary.activationWindowSecs view.chain.ledger.records.toFinset
          first second := by
  have flags : adversary.useFeePayer = true ∧ adversary.useActivationLineage = true ∧
      adversary.useTemporalAmount = false ∧ adversary.useFunderGraph = false ∧
        adversary.useBurstUnionCeiling = false ∧ adversary.activationWindowSecs = 2 * 86400 := by
    rcases grouping with rfl | ⟨windowSecs, rfl⟩ <;> exact ⟨rfl, rfl, rfl, rfl, rfl, rfl⟩
  obtain ⟨feePayer, activation, temporal, funder, ceiling, window⟩ := flags
  have activates : Activates adversary view.chain.ledger.records.toFinset first second ↔ _ :=
    lineage.activates_iff timed (by rw [window]; decide) (by rw [window]; decide) first second
  unfold Evidence
  rw [feePayer, activation, temporal, funder, ceiling, activates]
  constructor
  · rintro (⟨_, sponsors⟩ | ⟨_, consolidates⟩ | ⟨off, _⟩ | ⟨_, succeeds⟩ | ⟨_, copays⟩ |
      ⟨_, coacts⟩ | ⟨off, _⟩ | ⟨off, _⟩)
    · exact Or.inl sponsors
    · exact absurd consolidates (lineage.not_consolidates adversary first second)
    · exact absurd off (by simp)
    · exact Or.inr succeeds
    · exact absurd copays (lineage.not_copays timed hardened grouping first second)
    · exact absurd coacts (timed.not_coacts hardened first second)
    · exact absurd off (by simp)
    · exact absurd off (by simp)
  · rintro (sponsors | succeeds)
    · exact Or.inl ⟨rfl, sponsors⟩
    · exact Or.inr (Or.inr (Or.inr (Or.inl ⟨rfl, succeeds⟩)))

/-- Between accounts that sign, the evidence closes to the closure of succession. -/
theorem Lineage.linked_iff (lineage : Lineage externals view) (timed : Timed cfg view.chain)
    (throwaways : Throwaways view) (hardened : cfg.hardened = true)
    (grouping : adversary.Grouping) {first second : TxRecord}
    (one : first ∈ view.chain.ledger.records) (other : second ∈ view.chain.ledger.records) :
    Relation.EqvGen (Evidence adversary view.chain.ledger.records.toFinset) first.source
        second.source ↔
      Relation.EqvGen (Succeeds externals adversary.activationWindowSecs
        view.chain.ledger.records.toFinset) first.source second.source := by
  have evidence : Evidence adversary view.chain.ledger.records.toFinset = fun x y =>
      Sponsors view.chain.ledger.records.toFinset x y ∨
        Succeeds externals adversary.activationWindowSecs view.chain.ledger.records.toFinset
          x y := by
    funext x y
    exact propext (lineage.evidence_iff timed hardened grouping x y)
  rw [evidence]
  refine eqvGen_retract (signerOf view.chain.ledger.records) (fun x y succeeds => ?_)
    (fun x y sponsors => ?_) (throwaways.signerOf_source one) (throwaways.signerOf_source other)
  · obtain ⟨r, member, _, rfl, rfl, _, ⟨⟨s, active, signs, _⟩, _⟩, _⟩ := succeeds
    refine ⟨throwaways.signerOf_source (List.mem_toFinset.mp member), ?_⟩
    rw [← signs]
    exact throwaways.signerOf_source (List.mem_toFinset.mp active)
  · obtain ⟨r, inLedger, rfl, rfl⟩ := sponsors
    have member := List.mem_toFinset.mp inLedger
    exact (throwaways.signerOf_feePayer member).trans (throwaways.signerOf_source member).symm

end Evidence

/-! ### Operators -/

/-- Every account has one operator, to whom its records are attributed and whom a rotation does
not change. -/
structure Attributed (externals : List AccountId) (owner : AccountId → AgentId) (view : View) :
    Prop where
  held : ∀ index agent, view.agents[index]? = some agent →
    ∀ account ∈ agent.subaccounts, owner account = index
  records : ∀ record ∈ view.chain.ledger.records, record.operator = some (owner record.source)
  rotations : ∀ record ∈ view.chain.ledger.records, Rotation externals record →
    owner record.dest = owner record.source

/-- Succession stays with one operator. -/
theorem Attributed.succeeds {externals : List AccountId} {owner : AccountId → AgentId}
    {view : View} (attributed : Attributed externals owner view) {windowSecs : Int}
    {first second : AccountId}
    (linked : Relation.EqvGen (Succeeds externals windowSecs view.chain.ledger.records.toFinset)
      first second) : owner first = owner second := by
  have equivalence := eq_equivalence.comap owner
  refine equivalence.eqvGen_iff.mp (linked.mono (fun x y succeeds => ?_))
  obtain ⟨r, member, rotation, rfl, rfl, _⟩ := succeeds
  exact (attributed.rotations r (List.mem_toFinset.mp member) rotation).symm

/-- A step of a rotating run: the successor joins the accounts of its agent. -/
theorem step_attributed {cfg : SimConfig} {externals : List AccountId} {before after : View}
    (rotates : cfg.Rotates) (lineage : Lineage externals before)
    (attributed : ∃ owner, Attributed externals owner before)
    (step : Step cfg externals before after) (distinct : after.drawn.Nodup) :
    ∃ owner, Attributed externals owner after := by
  obtain ⟨owner, attributed⟩ := attributed
  cases step with
  | tick agents chain drawn ts later =>
    exact ⟨owner, attributed.held, attributed.records, attributed.rotations⟩
  | act agents chain drawn index agent next found move =>
    cases move with
    | mk chain agent drawn ts tx feePayer after ids recorded timely emission appended =>
      have written := congrArg (fun chain => chain.ledger.records) (record_eq appended)
      simp only at written
      have id := (lineage.agents index agent found).id
      obtain ⟨bound, here⟩ := List.getElem?_eq_some_iff.mp found
      have same : agents.set index agent = agents := by rw [← here, List.set_getElem_self]
      cases emission with
      | naivePay _ _ _ _ naive | naiveConsolidate _ _ naive =>
        exact absurd ((naive_unhardened naive).symm.trans rotates.hardened) (by simp)
      | legacyPay _ _ _ _ _ _ legacy | legacyChurn _ _ _ _ _ legacy =>
        exact absurd (legacy.symm.trans rotates.hardened) (by simp)
      | sweep _ _ _ _ _ directHub =>
        exact absurd (directHub.symm.trans rotates.strategy) (by simp)
      | pay source dest amount kind feePayer _ own outward =>
        refine ⟨owner, ?_⟩
        show Attributed externals owner ⟨agents.set index agent, recorded, _⟩
        rw [same]
        refine ⟨attributed.held, fun record member => ?_, fun record member rotation => ?_⟩
        · rw [written] at member
          rcases List.mem_append.mp member with old | new
          · exact attributed.records record old
          · rw [List.mem_singleton.mp new]
            show some agent.id = some (owner source)
            rw [id, attributed.held index agent found source own]
        · rw [written] at member
          rcases List.mem_append.mp member with old | new
          · exact attributed.rotations record old rotation
          · rw [List.mem_singleton.mp new] at rotation
            exact absurd outward (not_or.mpr ⟨rotation.2, fun back => rotation.1 back.1⟩)
      | rotate subIdx source successor amount feePayer _ _ operational atSource positive =>
        have unknown : successor ∉ drawn := fun member =>
          (List.nodup_append.mp distinct).2.2 _ member _ List.mem_cons_self rfl
        have kept (account : AccountId) (known : account ∈ drawn) :
            Function.update owner successor index account = owner account :=
          Function.update_of_ne (fun equal => unknown (by rw [← equal]; exact known)) _ _
        have heldKnown (other : Nat) (holder : Agent) (atOther : agents[other]? = some holder)
            (account : AccountId) (member : account ∈ holder.subaccounts) : account ∈ drawn :=
          lineage.known _ (List.mem_append_right _ (mem_held atOther member))
        have own := List.mem_of_getElem? atSource
        have sourceOwner : Function.update owner successor index source = index := by
          rw [kept source (heldKnown index agent found source own),
            attributed.held index agent found source own]
        refine ⟨Function.update owner successor index,
          fun other holder atOther account member => ?_, fun record member => ?_,
          fun record member rotation => ?_⟩
        · by_cases ours : index = other
          · subst ours
            rw [List.getElem?_set_self bound] at atOther
            rw [← Option.some.inj atOther] at member
            rcases List.mem_or_eq_of_mem_set member with old | rfl
            · rw [kept account (heldKnown index agent found account old)]
              exact attributed.held index agent found account old
            · exact Function.update_self _ _ _
          · rw [List.getElem?_set_ne ours] at atOther
            rw [kept account (heldKnown other holder atOther account member)]
            exact attributed.held other holder atOther account member
        · rw [written] at member
          rcases List.mem_append.mp member with old | new
          · rw [kept _ (lineage.mentioned record old _ (Or.inr (Or.inl rfl)))]
            exact attributed.records record old
          · rw [List.mem_singleton.mp new]
            show some agent.id = some (Function.update owner successor index source)
            rw [id, sourceOwner]
        · rw [written] at member
          rcases List.mem_append.mp member with old | new
          · rw [kept _ (lineage.mentioned record old _ (Or.inr (Or.inl rfl))),
              kept _ (lineage.mentioned record old _ (Or.inr (Or.inr rfl)))]
            exact attributed.rotations record old rotation
          · rw [List.mem_singleton.mp new]
            show Function.update owner successor index successor =
              Function.update owner successor index source
            rw [Function.update_self, sourceOwner]

/-- At the start an account belongs to the agent that holds it. -/
theorem fresh_attributed {Generator : Type} {cfg : SimConfig} {built : RunState Generator}
    {ids : List AccountId} (fresh : Fresh cfg ids built) (distinct : ids.Nodup) :
    ∃ owner, Attributed built.externals owner (built.view ids) := by
  have empty : built.chain.ledger.records = [] := by rw [fresh.chain]; rfl
  have nothing {record : TxRecord} {proposition : Prop}
      (member : record ∈ built.chain.ledger.records) : proposition := by
    rw [empty] at member
    exact absurd member List.not_mem_nil
  rw [fresh.ids] at distinct
  have apart := (List.nodup_append.mp distinct).2.1
  refine ⟨fun account => built.agents.findIdx (fun agent => account ∈ agent.subaccounts),
    fun index agent found account member => ?_, fun record member => nothing member,
    fun record member => nothing member⟩
  obtain ⟨holder, atHolder, holds⟩ : ∃ holder, built.agents[built.agents.findIdx
      (fun agent => account ∈ agent.subaccounts)]? = some holder ∧
        account ∈ holder.subaccounts := by
    have some : built.agents.findIdx (fun agent => account ∈ agent.subaccounts) <
        built.agents.length :=
      List.findIdx_lt_length_of_exists ⟨agent, List.mem_of_getElem? found, decide_eq_true member⟩
    exact ⟨_, List.getElem?_eq_getElem some, of_decide_eq_true (List.findIdx_getElem (w := some))⟩
  exact agent_unique apart atHolder found holds member

/-! ### The residual of a run -/

section Residual

variable {Generator : Type} [Rng Generator] [Libm] {personas : List Persona} {cfg : SimConfig}
  {built st : RunState Generator} {first ids : List AccountId}

theorem ReachedBy.attributed (reached : ReachedBy personas cfg built st first ids)
    (rotates : cfg.Rotates) (distinct : ids.Nodup) :
    ∃ owner, Attributed st.externals owner (st.view ids) := by
  refine (reached.holdsDistinct (fun externals view => Lineage externals view ∧
    ∃ owner, Attributed externals owner view) (fun _ _ fresh nodup => ?_)
    (fun _ _ _ both step nodup => ?_) distinct).2
  · exact ⟨fresh_lineage fresh nodup, fresh_attributed fresh nodup⟩
  · exact ⟨step_lineage rotates both.1 step nodup,
      step_attributed rotates both.1 both.2 step nodup⟩

/-- What the adversary keeps of a hardened run with rotation is the lineage of its rotations: two
owned accounts are in one cluster exactly when a chain of rotations joins them, each into a
successor that first signs within the activation window. No cluster joins two operators. -/
theorem rotation_residual (fuel : Nat) (personas : List Persona) (cfg : SimConfig)
    (ledger : Ledger) (adversary : AdversaryConfig) (order : HashOrder)
    (rotates : cfg.Rotates) (unfunded : cfg.funding = none)
    (simulated : simulate Generator fuel personas cfg = Outcome.returned ledger)
    (distinct : (drawnIds Generator fuel personas cfg).Nodup)
    (grouping : adversary.Grouping) :
    ∃ (built : RunState Generator) (clustering : Clustering),
      buildFresh personas cfg = some built ∧
      cluster order ledger adversary = some clustering ∧
      (∀ first second, first ∈ ledger.ownership → second ∈ ledger.ownership →
        (clustering.clusterOf.lookup first = clustering.clusterOf.lookup second ↔
          Relation.EqvGen (Succeeds built.externals adversary.activationWindowSecs
            ledger.records.toFinset) first second)) ∧
      ∀ first second op op', ledger.ownership.lookup first = some op →
        ledger.ownership.lookup second = some op' →
          clustering.clusterOf.lookup first = clustering.clusterOf.lookup second → op = op' := by
  obtain ⟨built, final, first, reached, _, rfl⟩ := simulate_reached fuel unfunded simulated
  have lineage := reached.lineage rotates distinct
  have throwaways := reached.throwaways rotates.cooker distinct
  obtain ⟨owner, attributed⟩ := reached.attributed rotates distinct
  have timed := reached.ordered.timed
  have measurable : Measurable adversary final.chain.ledger.records := by
    have off : adversary.useTemporalAmount = false := by
      rcases grouping with rfl | ⟨windowSecs, rfl⟩ <;> rfl
    exact ⟨reached.slots_nodup, reached.slots_bounded,
      fun on => absurd (off.symm.trans on) (by simp),
      fun on => absurd (off.symm.trans on) (by simp)⟩
  have exact (one other : AccountId) (oneOwned : one ∈ final.chain.ledger.ownership)
      (otherOwned : other ∈ final.chain.ledger.ownership) :
      (clusteringOf (Relation.EqvGen (Evidence adversary final.chain.ledger.records.toFinset))
          final.chain.ledger).clusterOf.lookup one =
        (clusteringOf (Relation.EqvGen (Evidence adversary final.chain.ledger.records.toFinset))
          final.chain.ledger).clusterOf.lookup other ↔
      Relation.EqvGen (Succeeds final.externals adversary.activationWindowSecs
        final.chain.ledger.records.toFinset) one other := by
    obtain ⟨op, oneFound⟩ := Option.isSome_iff_exists.mp (AList.lookup_isSome.mpr oneOwned)
    obtain ⟨op', otherFound⟩ := Option.isSome_iff_exists.mp (AList.lookup_isSome.mpr otherOwned)
    obtain ⟨record, member, rfl, _⟩ := Ledger.ownership_signed oneFound
    obtain ⟨partner, partnerMember, rfl, _⟩ := Ledger.ownership_signed otherFound
    exact (clusteringOf_eq_iff (Relation.EqvGen.is_equivalence _)
      (Ledger.source_mem_accounts member) (Ledger.source_mem_accounts partnerMember)).trans
        (lineage.linked_iff timed throwaways rotates.hardened grouping member partnerMember)
  refine ⟨built, _, ?_, cluster_evidence order measurable (List.Perm.refl _), ?_, ?_⟩
  · unfold buildFresh
    rw [reached.building]
    rfl
  · rw [← reached.same.externals]
    exact exact
  · intro one other op op' oneFound otherFound equal
    have linked := (exact one other (AList.lookup_isSome.mp (by rw [oneFound]; rfl))
      (AList.lookup_isSome.mp (by rw [otherFound]; rfl))).mp equal
    obtain ⟨record, member, rfl, operator⟩ := Ledger.ownership_signed oneFound
    obtain ⟨partner, partnerMember, rfl, otherOperator⟩ := Ledger.ownership_signed otherFound
    have same := attributed.succeeds linked
    rw [attributed.records record member, Option.some_inj] at operator
    rw [attributed.records partner partnerMember, Option.some_inj] at otherOperator
    rw [← operator, ← otherOperator]
    exact same

end Residual

/-- The small run rotates, and its clusters are the lineages of its rotations. -/
theorem rotation_residual_smallRun : ∃ ledger built clustering,
    simulate Counter 3 [Persona.retail] smallRun = Outcome.returned ledger ∧
    (buildFresh [Persona.retail] smallRun : Option (RunState Counter)) = some built ∧
    cluster HashOrder.asWritten ledger AdversaryConfig.exactTs.withoutTemporal =
      some clustering ∧
    ∀ first second, first ∈ ledger.ownership → second ∈ ledger.ownership →
      (clustering.clusterOf.lookup first = clustering.clusterOf.lookup second ↔
        Relation.EqvGen (Succeeds built.externals
          AdversaryConfig.exactTs.withoutTemporal.activationWindowSecs ledger.records.toFinset)
          first second) := by
  have ran : ((simulate Counter 3 [Persona.retail] smallRun).result?).isSome = true := by
    decide +kernel
  obtain ⟨ledger, result⟩ := Option.isSome_iff_exists.mp ran
  have simulated := Outcome.result?_eq_some.mp result
  have distinct : (drawnIds Counter 3 [Persona.retail] smallRun).Nodup := by decide +kernel
  obtain ⟨built, clustering, building, clustered, exact, _⟩ := rotation_residual 3 _ _ ledger _
    HashOrder.asWritten ⟨by decide +kernel, by decide +kernel⟩ rfl simulated distinct (Or.inl rfl)
  exact ⟨ledger, built, clustering, simulated, building, clustered, exact⟩

end AccountCooker
