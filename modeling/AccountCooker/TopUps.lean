/-
This file proves what the funding post-pass appends to the ledger of a cooker
run. Every record of such a run has a fee payer of its own that never signs, so
that no guard of the pass fires: each record brings forth one top-up of its fee
payer, from a funder the policy allows, early enough. Sorting and renumbering
only rearrange the top-ups behind the base records, which stay as they are.

The run below the post-pass does not depend on the funding configuration.
-/

import Mathlib
import AccountCooker.Custody

namespace AccountCooker

open Collections Draw

/-! ### Assigned funders -/

section Assignment

variable {Generator : Type} [Rng Generator]

/-- The draws before any transfer: the pool of relayers, and the funder of each operator. -/
def assignFunders (fcfg : FundingConfig) (hubs : BTreeMap AgentId AccountId) :
    Draw Generator (List AccountId × BTreeMap AgentId (AccountId × Option AgentId)) := do
  let relayers ← drawRelayers fcfg.policy
  let funderOf ← hubs.keys.foldlM (assignFunder fcfg hubs relayers) BTreeMap.empty
  pure (relayers, funderOf)

/-- The funders a policy may give an operator, when it has drawn `ids`. -/
def FundingPolicy.Gives (policy : FundingPolicy) (hubs : BTreeMap AgentId AccountId)
    (relayers ids : List AccountId) (op : AgentId) (funder : AccountId)
    (label : Option AgentId) : Prop :=
  match policy with
  | .operatorHub => hubs.get? op = some funder ∧ label = some op
  | .dedicatedFunder => funder ∈ ids ∧ label = some op
  | .sharedRelayers _ => funder ∈ relayers ∧ label = none

/-- The operators assigned so far, each to a funder that the policy gives; dedicated wallets are
not shared. -/
structure Assigned (fcfg : FundingConfig) (hubs : BTreeMap AgentId AccountId)
    (relayers ids : List AccountId)
    (funderOf : BTreeMap AgentId (AccountId × Option AgentId)) : Prop where
  gives : ∀ op funder label, funderOf.get? op = some (funder, label) →
    fcfg.policy.Gives hubs relayers ids op funder label
  undrawn : fcfg.policy ≠ .dedicatedFunder → ids = []
  apart : fcfg.policy = .dedicatedFunder → ids.Nodup → ∀ op op' wallet label label',
    funderOf.get? op = some (wallet, label) → funderOf.get? op' = some (wallet, label') → op = op'

theorem drawRelayers_yields (policy : FundingPolicy) :
    Yields (drawRelayers policy : Draw Generator (List AccountId))
      (fun ids relayers => ids = relayers ∧
        ∀ k, policy = .sharedRelayers k → relayers.length = max k 1) := by
  have none : Yields (pure [] : Draw Generator (List AccountId))
      (fun ids relayers => ids = relayers ∧ relayers = []) := by
    refine Yields.mono (yields_pure []) ?_
    rintro _ _ ⟨rfl, rfl⟩
    exact ⟨rfl, rfl⟩
  cases policy with
  | sharedRelayers k =>
    refine (freshAccounts_yields (max k 1)).mono (fun ids relayers both => ⟨both.1, ?_⟩)
    rintro k' equal
    obtain rfl := FundingPolicy.sharedRelayers.inj equal
    exact both.2
  | operatorHub =>
    exact none.mono (fun ids relayers both => ⟨both.1, fun k equal => absurd equal (by simp)⟩)
  | dedicatedFunder =>
    exact none.mono (fun ids relayers both => ⟨both.1, fun k equal => absurd equal (by simp)⟩)

theorem assignFunder_yields {fcfg : FundingConfig} {hubs : BTreeMap AgentId AccountId}
    {relayers ids : List AccountId} {funderOf : BTreeMap AgentId (AccountId × Option AgentId)}
    (sofar : Assigned fcfg hubs relayers ids funderOf) (op : AgentId) :
    Yields (assignFunder fcfg hubs relayers funderOf op :
        Draw Generator (BTreeMap AgentId (AccountId × Option AgentId)))
      (fun more next => Assigned fcfg hubs relayers (ids ++ more) next ∧
        ∃ entry, next = funderOf.insert op entry) := by
  -- Without a draw, the entry for `op` is all that is new.
  have enter {funder : AccountId} {label : Option AgentId}
      (shared : fcfg.policy ≠ .dedicatedFunder)
      (given : fcfg.policy.Gives hubs relayers ids op funder label) :
      Assigned fcfg hubs relayers (ids ++ []) (funderOf.insert op (funder, label)) := by
    rw [List.append_nil]
    refine ⟨fun other funder' label' found => ?_, sofar.undrawn,
      fun dedicated => absurd dedicated shared⟩
    rw [BTreeMap.get?_insert] at found
    split at found
    · rename_i here
      obtain ⟨rfl, rfl⟩ := Prod.mk.inj (Option.some.inj found)
      rwa [here]
    · exact sofar.gives other funder' label' found
  unfold assignFunder
  cases policy : fcfg.policy with
  | operatorHub =>
    refine Silent.bind (yields_checked _) (fun hub found => ?_)
    refine Yields.mono (yields_pure _) ?_
    rintro _ next ⟨rfl, rfl⟩
    refine ⟨enter (by rw [policy]; simp) ?_, _, rfl⟩
    rw [policy]
    exact ⟨found, rfl⟩
  | dedicatedFunder =>
    refine yields_bind yields_randomAccount ?_
    rintro _ wallet rfl
    refine Yields.mono (yields_pure _) ?_
    rintro _ next ⟨rfl, rfl⟩
    have before (other : AgentId) (funder : AccountId) (label : Option AgentId)
        (found : funderOf.get? other = some (funder, label)) :
        funder ∈ ids ∧ label = some other := by
      have given := sofar.gives other funder label found
      rwa [policy] at given
    refine ⟨⟨fun other funder label found => ?_, fun shared => absurd policy shared,
      fun _ distinct one other payer label label' atOne atOther => ?_⟩, _, rfl⟩
    · rw [policy]
      rw [BTreeMap.get?_insert] at found
      split at found
      · rename_i here
        obtain ⟨rfl, rfl⟩ := Prod.mk.inj (Option.some.inj found)
        rw [here]
        exact ⟨by simp, rfl⟩
      · have given := before other funder label found
        exact ⟨List.mem_append_left _ given.1, given.2⟩
    · have fresh : wallet ∉ ids := fun old =>
        (List.nodup_append.mp distinct).2.2 _ old _ List.mem_cons_self rfl
      rw [BTreeMap.get?_insert] at atOne atOther
      split at atOne
      · split at atOther
        · rename_i here there
          exact here.trans there.symm
        · obtain ⟨rfl, _⟩ := Prod.mk.inj (Option.some.inj atOne)
          exact absurd (before other _ label' atOther).1 fresh
      · split at atOther
        · obtain ⟨rfl, _⟩ := Prod.mk.inj (Option.some.inj atOther)
          exact absurd (before one _ label atOne).1 fresh
        · exact sofar.apart policy (List.nodup_append.mp distinct).1 one other payer label label'
            atOne atOther
  | sharedRelayers k =>
    dsimp only
    split
    · refine Silent.bind (yields_choose _) (fun relayer member => ?_)
      refine Yields.mono (yields_pure _) ?_
      rintro _ next ⟨rfl, rfl⟩
      refine ⟨enter (by rw [policy]; simp) ?_, _, rfl⟩
      rw [policy]
      exact ⟨member, rfl⟩
    · refine Silent.bind (yields_checked _) (fun relayer found => ?_)
      refine Yields.mono (yields_pure _) ?_
      rintro _ next ⟨rfl, rfl⟩
      refine ⟨enter (by rw [policy]; simp) ?_, _, rfl⟩
      rw [policy]
      exact ⟨List.mem_of_getElem? found, rfl⟩

/-- Every operator is assigned a funder that the policy gives. -/
theorem assignFunders_yields (fcfg : FundingConfig) (hubs : BTreeMap AgentId AccountId) :
    Yields (assignFunders fcfg hubs : Draw Generator
        (List AccountId × BTreeMap AgentId (AccountId × Option AgentId)))
      (fun ids assigned => ∃ wallets, ids = assigned.1 ++ wallets ∧
        Assigned fcfg hubs assigned.1 wallets assigned.2 ∧
        (∀ k, fcfg.policy = .sharedRelayers k → assigned.1.length = max k 1) ∧
        ∀ op ∈ hubs.keys, (assigned.2.get? op).isSome) := by
  refine yields_bind (drawRelayers_yields fcfg.policy) ?_
  rintro relayers _ ⟨rfl, pool⟩
  have loop (ops : List AgentId) (ids : List AccountId)
      (funderOf : BTreeMap AgentId (AccountId × Option AgentId))
      (sofar : Assigned fcfg hubs relayers ids funderOf) :
      Yields (ops.foldlM (assignFunder fcfg hubs relayers) funderOf : Draw Generator _)
        (fun more last => Assigned fcfg hubs relayers (ids ++ more) last ∧
          ∀ op, op ∈ ops ∨ (funderOf.get? op).isSome → (last.get? op).isSome) := by
    induction ops generalizing ids funderOf with
    | nil =>
      refine Yields.mono (yields_pure funderOf) ?_
      rintro _ last ⟨rfl, rfl⟩
      rw [List.append_nil]
      exact ⟨sofar, fun op known => known.resolve_left List.not_mem_nil⟩
    | cons op rest inductionHypothesis =>
      rw [List.foldlM_cons]
      refine yields_bind (assignFunder_yields sofar op) ?_
      rintro more next ⟨holds, entry, rfl⟩
      refine (inductionHypothesis (ids ++ more) _ holds).mono (fun later last both => ?_)
      rw [List.append_assoc] at both
      refine ⟨both.1, fun other known => both.2 other ?_⟩
      rw [BTreeMap.get?_insert]
      split
      · exact Or.inr rfl
      · rename_i different
        exact known.imp_left (fun member => (List.mem_cons.mp member).resolve_left different)
  refine yields_bind (loop hubs.keys [] BTreeMap.empty ?_) (fun wallets funderOf both => ?_)
  · exact ⟨fun op funder label found => absurd found (by simp), fun _ => rfl,
      fun _ _ op op' wallet label label' found => absurd found (by simp)⟩
  · refine Yields.mono (yields_pure _) ?_
    rintro _ assigned ⟨rfl, rfl⟩
    exact ⟨wallets, by rw [List.append_nil], both.1, pool, fun op member =>
      both.2 op (Or.inl member)⟩

/-! ### One top-up per record -/

/-- The funders the assignment allows an operator: the one assigned to it, or any relayer of the
pool where they are drawn per event. -/
def FundingConfig.Allows (fcfg : FundingConfig)
    (assigned : List AccountId × BTreeMap AgentId (AccountId × Option AgentId)) (op : AgentId)
    (funder : AccountId) (label : Option AgentId) : Prop :=
  if fcfg.perEventRelayer then funder ∈ assigned.1 ∧ label = none
  else assigned.2.get? op = some (funder, label)

/-- An event tops up the fee payer of a record, in time, from a funder the operator is allowed. -/
structure TopUp (fcfg : FundingConfig)
    (assigned : List AccountId × BTreeMap AgentId (AccountId × Option AgentId))
    (record event : TxRecord) : Prop where
  payer : event.feePayer = event.source
  dest : event.dest = record.feePayer
  apart : event.source ≠ event.dest
  kind : event.kind = .transfer
  funder : ∃ op, record.operator = some op ∧ fcfg.Allows assigned op event.source event.operator
  early : event.ts + fcfg.leadMinSecs ≤ record.ts
  late : record.ts ≤ event.ts + max fcfg.leadMaxSecs fcfg.leadMinSecs
  amount : fcfg.topupMin ≤ event.amount ∧ event.amount ≤ max fcfg.topupMax fcfg.topupMin
  range : i64Min ≤ event.ts ∧ event.ts ≤ i64Max

/-- A record whose fee payer never signs, is not funded yet and is no funder is topped up. -/
theorem fundRecord_topUp {fcfg : FundingConfig} {sourceSet : Finset AccountId}
    {assigned : List AccountId × BTreeMap AgentId (AccountId × Option AgentId)}
    {state : FundingEvents} {record : TxRecord} {op : AgentId}
    (unsigned : record.feePayer ∉ sourceSet) (unfunded : record.feePayer ∉ state.funded)
    (operator : record.operator = some op)
    (other : ∀ funder label, fcfg.Allows assigned op funder label → funder ≠ record.feePayer) :
    Silent (fundRecord fcfg sourceSet assigned.1 assigned.2 state record :
        Draw Generator FundingEvents)
      (fun next => ∃ event, TopUp fcfg assigned record event ∧
        next = ⟨insert record.feePayer state.funded, state.events ++ [event]⟩) := by
  unfold fundRecord
  rw [if_neg unsigned, if_neg unfunded, operator]
  have chosen : Silent (if fcfg.perEventRelayer
      then (fun relayer => (relayer, none)) <$> choose assigned.1
      else checked (assigned.2.get? op) : Draw Generator (AccountId × Option AgentId))
      (fun entry => fcfg.Allows assigned op entry.1 entry.2) := by
    unfold FundingConfig.Allows
    split
    · refine (Silent.map (yields_choose assigned.1)).mono ?_
      rintro entry ⟨relayer, member, rfl⟩
      exact ⟨member, rfl⟩
    · exact yields_checked _
  refine Silent.bind chosen (fun entry allowed => ?_)
  have different := other entry.1 entry.2 allowed
  rw [if_neg different]
  refine Silent.bind (yields_randomRange _ _ _) (fun lead leads => ?_)
  refine Silent.bind (yields_randomRangeNat _ _ _) (fun amount amounts => ?_)
  refine Silent.bind (yields_checked _) (fun ts timed => ?_)
  refine (yields_pure _).mono ?_
  rintro next rfl
  obtain ⟨range, rfl⟩ := checkedI64_eq_some.mp timed
  refine ⟨_, ⟨rfl, rfl, different, rfl, ⟨op, operator, allowed⟩, ?_, ?_, amounts, range⟩, rfl⟩
  · show record.ts - lead + fcfg.leadMinSecs ≤ record.ts
    omega
  · show record.ts ≤ record.ts - lead + _
    omega

omit [Rng Generator] in
/-- A loop whose rounds draw no identifier draws none, and keeps what they keep. -/
theorem foldlM_silent {Item State : Type} {invariant : State → Prop}
    (body : State → Item → Draw Generator State) (items : List Item)
    (silent : ∀ state item, invariant state → Silent (body state item) invariant) (state : State)
    (start : invariant state) : Silent (items.foldlM body state) invariant := by
  induction items generalizing state with
  | nil =>
    refine (yields_pure state).mono ?_
    rintro last rfl
    exact start
  | cons item rest inductionHypothesis =>
    rw [List.foldlM_cons]
    exact Silent.bind (silent state item start) (fun next kept => inductionHypothesis next kept)

/-- Funding one record draws no identifier, and adds at most a transfer. -/
theorem fundRecord_silent (fcfg : FundingConfig) (sourceSet : Finset AccountId)
    (relayers : List AccountId) (funderOf : BTreeMap AgentId (AccountId × Option AgentId))
    (state : FundingEvents) (record : TxRecord) :
    Silent (fundRecord fcfg sourceSet relayers funderOf state record :
      Draw Generator FundingEvents)
      (fun next => ∀ event ∈ next.events, event ∈ state.events ∨ event.kind = .transfer) := by
  have finished (funded : Finset AccountId) :
      Silent (pure ⟨funded, state.events⟩ : Draw Generator FundingEvents)
        (fun next => ∀ event ∈ next.events, event ∈ state.events ∨ event.kind = .transfer) := by
    refine (yields_pure _).mono ?_
    rintro next rfl event member
    exact Or.inl member
  have chosen : Silent (if fcfg.perEventRelayer
      then (fun relayer => (relayer, none)) <$> choose relayers
      else checked (funderOf.get? ((record.operator).getD 0)) :
        Draw Generator (AccountId × Option AgentId)) (fun _ => True) := by
    split
    · exact (Silent.map (yields_choose relayers)).mono (fun _ _ => trivial)
    · exact (yields_checked _).mono (fun _ _ => trivial)
  unfold fundRecord
  split
  · exact finished state.funded
  · split
    · exact finished state.funded
    · cases operator : record.operator with
      | none => exact finished _
      | some op =>
        rw [operator] at chosen
        refine Silent.bind chosen (fun assigned _ => ?_)
        split
        · exact finished _
        · refine Silent.bind (yields_randomRange _ _ _) (fun lead _ => ?_)
          refine Silent.bind (yields_randomRangeNat _ _ _) (fun amount _ => ?_)
          refine Silent.bind (yields_checked _) (fun ts _ => ?_)
          refine (yields_pure _).mono ?_
          rintro next rfl event member
          exact (List.mem_append.mp member).imp_right
            (fun new => congrArg TxRecord.kind (List.mem_singleton.mp new))

/-- The pass over the records draws no identifier, and adds nothing but transfers. -/
theorem fundRecords_silent (fcfg : FundingConfig) (sourceSet : Finset AccountId)
    (relayers : List AccountId) (funderOf : BTreeMap AgentId (AccountId × Option AgentId))
    (records : List TxRecord) :
    Silent (records.foldlM (fundRecord fcfg sourceSet relayers funderOf) ⟨∅, []⟩ :
        Draw Generator FundingEvents)
      (fun last => ∀ event ∈ last.events, event.kind = .transfer) := by
  refine foldlM_silent _ records (fun state record transfers => ?_) _
    (fun event member => absurd member List.not_mem_nil)
  refine (fundRecord_silent fcfg sourceSet relayers funderOf state record).mono
    (fun next added event member => ?_)
  exact (added event member).elim (transfers event) id

/-- Records with fee payers of their own are topped up one by one. -/
theorem fundRecords_topUps {fcfg : FundingConfig} {sourceSet : Finset AccountId}
    {assigned : List AccountId × BTreeMap AgentId (AccountId × Option AgentId)}
    {records : List TxRecord} {state : FundingEvents}
    (distinct : records.Pairwise (fun first second => first.feePayer ≠ second.feePayer))
    (unsigned : ∀ record ∈ records, record.feePayer ∉ sourceSet)
    (unfunded : ∀ record ∈ records, record.feePayer ∉ state.funded)
    (operator : ∀ record ∈ records, ∃ op, record.operator = some op ∧
      ∀ funder label, fcfg.Allows assigned op funder label → funder ≠ record.feePayer) :
    Silent (records.foldlM (fundRecord fcfg sourceSet assigned.1 assigned.2) state :
        Draw Generator FundingEvents)
      (fun last => ∃ events, List.Forall₂ (TopUp fcfg assigned) records events ∧
        last.events = state.events ++ events) := by
  induction records generalizing state with
  | nil =>
    refine (yields_pure state).mono ?_
    rintro last rfl
    exact ⟨[], List.Forall₂.nil, (List.append_nil _).symm⟩
  | cons record rest inductionHypothesis =>
    obtain ⟨here, later⟩ := List.pairwise_cons.mp distinct
    obtain ⟨op, labelled, other⟩ := operator record List.mem_cons_self
    rw [List.foldlM_cons]
    refine Silent.bind (fundRecord_topUp (unsigned record List.mem_cons_self)
      (unfunded record List.mem_cons_self) labelled other) ?_
    rintro next ⟨event, topUp, rfl⟩
    refine Silent.mono (inductionHypothesis later
      (fun other member => unsigned other (List.mem_cons_of_mem _ member))
      (fun other member inFunded => ?_)
      (fun other member => operator other (List.mem_cons_of_mem _ member))) ?_
    · rcases Finset.mem_insert.mp inFunded with equal | old
      · exact here other member equal.symm
      · exact unfunded other (List.mem_cons_of_mem _ member) old
    · rintro last ⟨events, topUps, equal⟩
      refine ⟨event :: events, List.Forall₂.cons topUp topUps, ?_⟩
      rw [equal]
      exact List.append_assoc _ _ _

/-- All funding transfers: the assignment of the funders, then one pass over the records. -/
theorem fundingEvents_eq (fcfg : FundingConfig) (hubs : BTreeMap AgentId AccountId)
    (records : List TxRecord) :
    (fundingEvents fcfg hubs records : Draw Generator (List TxRecord)) =
      assignFunders fcfg hubs >>= fun assigned =>
        records.foldlM (fundRecord fcfg (records.map (·.source)).toFinset assigned.1 assigned.2)
          ⟨∅, []⟩ >>= fun state => pure state.events := by
  unfold fundingEvents assignFunders
  simp only [bind_assoc, pure_bind]

/-- Over records whose fee payers are their own, never sign and are not drawn again, the pass tops
up each of them. -/
theorem fundingEvents_topUps {fcfg : FundingConfig} {hubs : BTreeMap AgentId AccountId}
    {records events : List TxRecord} {generator : Generator} {after : Tape Generator}
    (ran : fundingEvents fcfg hubs records ⟨generator, []⟩ = some (events, after))
    (distinct : records.Pairwise (fun first second => first.feePayer ≠ second.feePayer))
    (unsigned : ∀ record ∈ records, ∀ other ∈ records, record.feePayer ≠ other.source)
    (operator : ∀ record ∈ records, ∃ op ∈ hubs.keys, record.operator = some op)
    (unheld : ∀ record ∈ records, ∀ op hub, hubs.get? op = some hub → hub ≠ record.feePayer)
    (undrawn : ∀ record ∈ records, record.feePayer ∉ after.drawn) :
    ∃ assigned wallets middle, assignFunders fcfg hubs ⟨generator, []⟩ = some (assigned, middle) ∧
      after.drawn = assigned.1 ++ wallets ∧
      Assigned fcfg hubs assigned.1 wallets assigned.2 ∧
      (∀ k, fcfg.policy = .sharedRelayers k → assigned.1.length = max k 1) ∧
      (∀ op ∈ hubs.keys, (assigned.2.get? op).isSome) ∧
      List.Forall₂ (TopUp fcfg assigned) records events := by
  rw [fundingEvents_eq] at ran
  obtain ⟨assigned, middle, assigning, rest⟩ := bind_eq_some.mp ran
  obtain ⟨state, last, looped, finished⟩ := bind_eq_some.mp rest
  obtain ⟨rfl, rfl⟩ := pure_eq_some.mp finished
  obtain ⟨_, drawn, wallets, rfl, holds, pool, known⟩ :=
    assignFunders_yields fcfg hubs _ _ _ assigning
  obtain ⟨_, sameDrawn, rfl, _⟩ :=
    fundRecords_silent fcfg _ assigned.1 assigned.2 records _ _ _ looped
  rw [List.append_nil, drawn] at sameDrawn
  -- A funder was drawn or is a hub, and no fee payer is either.
  have other (record : TxRecord) (member : record ∈ records) (op : AgentId) (funder : AccountId)
      (label : Option AgentId) (allowed : fcfg.Allows assigned op funder label) :
      funder ≠ record.feePayer := by
    have drew (inside : funder ∈ assigned.1 ++ wallets) : funder ≠ record.feePayer := by
      rintro rfl
      exact undrawn record member (by rw [sameDrawn]; exact inside)
    unfold FundingConfig.Allows at allowed
    split at allowed
    · exact drew (List.mem_append_left _ allowed.1)
    · have given := holds.gives op funder label allowed
      cases policy : fcfg.policy with
      | operatorHub =>
        rw [policy] at given
        exact unheld record member op funder given.1
      | dedicatedFunder =>
        rw [policy] at given
        exact drew (List.mem_append_right _ given.1)
      | sharedRelayers k =>
        rw [policy] at given
        exact drew (List.mem_append_left _ given.1)
  have apart (record : TxRecord) (member : record ∈ records) :
      record.feePayer ∉ (records.map (·.source)).toFinset := by
    intro inside
    obtain ⟨signed, inRecords, equal⟩ := List.mem_map.mp (List.mem_toFinset.mp inside)
    exact unsigned record member signed inRecords equal.symm
  have labelled (record : TxRecord) (member : record ∈ records) :
      ∃ op, record.operator = some op ∧
        ∀ funder label, fcfg.Allows assigned op funder label → funder ≠ record.feePayer := by
    obtain ⟨op, _, label⟩ := operator record member
    exact ⟨op, label, other record member op⟩
  obtain ⟨_, _, _, events, topUps, equal⟩ := fundRecords_topUps distinct apart
    (fun record member inside => absurd inside (by simp)) labelled _ _ _ looped
  rw [equal, List.nil_append]
  exact ⟨assigned, wallets, middle, assigning, sameDrawn, holds, pool, known, topUps⟩

end Assignment

/-! ### The appended suffix -/

/-- A record without its place in the ledger. -/
def TxRecord.unnumbered (record : TxRecord) : TxRecord := { record with sig := 0, slot := 0 }

theorem appendEvents_spec {sig slot : Nat} {events suffix : List TxRecord}
    (appended : appendEvents sig slot events = some suffix) :
    suffix.map TxRecord.unnumbered = events.map TxRecord.unnumbered ∧
      ∀ index event, suffix[index]? = some event →
        event.sig = sig + index + 1 ∧ event.slot = slot + index + 1 ∧ event.slot ≤ u64Max := by
  induction events generalizing sig slot suffix with
  | nil =>
    obtain rfl := Option.some.inj appended
    exact ⟨rfl, fun index event found => absurd found (by simp)⟩
  | cons event rest inductionHypothesis =>
    unfold appendEvents at appended
    simp only [Option.bind_eq_bind, Option.bind_eq_some_iff] at appended
    obtain ⟨nextSig, countedSig, nextSlot, countedSlot, later, appendedLater, equal⟩ := appended
    obtain ⟨_, rfl⟩ := checkedU64_eq_some.mp countedSig
    obtain ⟨bounded, rfl⟩ := checkedU64_eq_some.mp countedSlot
    obtain ⟨same, numbered⟩ := inductionHypothesis appendedLater
    rw [← Option.some.inj equal]
    refine ⟨?_, fun index found atIndex => ?_⟩
    · rw [List.map_cons, List.map_cons, same]
      rfl
    · cases index with
      | zero =>
        obtain rfl := Option.some.inj atIndex
        exact ⟨rfl, rfl, bounded⟩
      | succ index =>
        obtain ⟨sigs, slots, inRange⟩ := numbered index found atIndex
        exact ⟨by omega, by omega, inRange⟩

theorem fundedBefore_total (first second : TxRecord) :
    fundedBefore first second ∨ fundedBefore second first := by
  unfold fundedBefore
  rcases lt_trichotomy first.ts second.ts with before | same | after
  · exact Or.inl (Or.inl before)
  · exact (le_total first.dest second.dest).imp (fun below => Or.inr ⟨same, below⟩)
      (fun above => Or.inr ⟨same.symm, above⟩)
  · exact Or.inr (Or.inl after)

theorem fundedBefore_trans (first second third : TxRecord) (before : fundedBefore first second)
    (after : fundedBefore second third) : fundedBefore first third := by
  unfold fundedBefore at *
  rcases before with earlier | ⟨same, below⟩
  · rcases after with later | ⟨also, _⟩
    · exact Or.inl (earlier.trans later)
    · exact Or.inl (earlier.trans_eq also)
  · rcases after with later | ⟨also, above⟩
    · exact Or.inl (same.trans_lt later)
    · exact Or.inr ⟨same.trans also, below.trans above⟩

instance : Std.Total fundedBefore := ⟨fundedBefore_total⟩

instance : IsTrans TxRecord fundedBefore := ⟨fundedBefore_trans⟩

/-- A top-up may be numbered anew. -/
theorem TopUp.same {fcfg : FundingConfig}
    {assigned : List AccountId × BTreeMap AgentId (AccountId × Option AgentId)}
    {record event other : TxRecord} (topUp : TopUp fcfg assigned record event)
    (same : other.unnumbered = event.unnumbered) : TopUp fcfg assigned record other := by
  obtain ⟨sig, slot, ts, feePayer, source, dest, amount, kind, operator⟩ := other
  have equal :
      event = ⟨event.sig, event.slot, ts, feePayer, source, dest, amount, kind, operator⟩ := by
    have fields := TxRecord.mk.inj same
    obtain ⟨_, _, rfl, rfl, rfl, rfl, rfl, rfl, rfl⟩ := fields
    rfl
  rw [equal] at topUp
  exact ⟨topUp.payer, topUp.dest, topUp.apart, topUp.kind, topUp.funder, topUp.early, topUp.late,
    topUp.amount, topUp.range⟩

/-- The suffix of a funded ledger: every base record has its top-up, and nothing else is
appended; the top-ups are in order of time and continue the numbers of the base. -/
structure Suffix (fcfg : FundingConfig)
    (assigned : List AccountId × BTreeMap AgentId (AccountId × Option AgentId))
    (base suffix : List TxRecord) : Prop where
  each : ∀ event ∈ suffix, ∃ record ∈ base, TopUp fcfg assigned record event
  all : ∀ record ∈ base, ∃ event ∈ suffix, TopUp fcfg assigned record event
  once : (suffix.map (·.dest)).Nodup
  sorted : suffix.Pairwise fundedBefore
  numbered : ∀ index event, suffix[index]? = some event →
    event.sig = base.length + index + 1 ∧ event.slot = base.length + index + 1 ∧
      event.slot ≤ u64Max

/-- The greatest number of numbered records is how many there are. -/
theorem foldl_max_numbered {records : List TxRecord} {number : TxRecord → Nat}
    (numbered : ∀ index record, records[index]? = some record → number record = index + 1) :
    (records.map number).foldl max 0 = records.length := by
  induction records using List.reverseRecOn with
  | nil => rfl
  | append_singleton earlier last inductionHypothesis =>
    have before := inductionHypothesis (fun index record found => numbered index record
      (by rw [List.getElem?_append_left (List.getElem?_eq_some_iff.mp found).1]; exact found))
    have here := numbered earlier.length last (by simp)
    rw [List.map_append, List.foldl_append, before, List.length_append]
    show max earlier.length (number last) = _
    rw [here]
    exact max_eq_right (Nat.le_succ _)

/-- The top-ups continue the numbers of the base. -/
theorem Suffix.ledger_numbered {fcfg : FundingConfig}
    {assigned : List AccountId × BTreeMap AgentId (AccountId × Option AgentId)}
    {base suffix : List TxRecord} (appended : Suffix fcfg assigned base suffix)
    (numbered : ∀ index record, base[index]? = some record →
      record.sig = index + 1 ∧ record.slot = index + 1)
    {index : Nat} {record : TxRecord} (found : (base ++ suffix)[index]? = some record) :
    record.sig = index + 1 ∧ record.slot = index + 1 := by
  rcases lt_or_ge index base.length with inside | outside
  · rw [List.getElem?_append_left inside] at found
    exact numbered index record found
  · rw [List.getElem?_append_right outside] at found
    obtain ⟨sig, slot, _⟩ := appended.numbered _ record found
    omega

/-- A fee payer of its own is topped up once, for the record it pays for. -/
theorem Suffix.topUp_of_dest {fcfg : FundingConfig}
    {assigned : List AccountId × BTreeMap AgentId (AccountId × Option AgentId)}
    {base suffix : List TxRecord} (appended : Suffix fcfg assigned base suffix)
    (distinct : base.Pairwise (fun first second => first.feePayer ≠ second.feePayer))
    {event record : TxRecord} (member : event ∈ suffix) (inBase : record ∈ base)
    (paid : record.feePayer = event.dest) : TopUp fcfg assigned record event := by
  obtain ⟨other, otherBase, topUp⟩ := appended.each event member
  rcases pairwise_either distinct inBase otherBase with rfl | apart | apart
  · exact topUp
  · exact absurd (paid.trans topUp.dest) apart
  · exact absurd (paid.trans topUp.dest).symm apart

/-- The suffix is what the sorted events become when they are appended. -/
theorem suffix_of_topUps {fcfg : FundingConfig}
    {assigned : List AccountId × BTreeMap AgentId (AccountId × Option AgentId)}
    {base events suffix : List TxRecord}
    (topUps : List.Forall₂ (TopUp fcfg assigned) base events)
    (distinct : base.Pairwise (fun first second => first.feePayer ≠ second.feePayer))
    (appended : appendEvents base.length base.length (events.insertionSort fundedBefore) =
      some suffix) :
    Suffix fcfg assigned base suffix := by
  obtain ⟨same, numbered⟩ := appendEvents_spec appended
  have perm := List.perm_insertionSort fundedBefore events
  refine ⟨fun event member => ?_, fun record member => ?_, ?_, ?_, numbered⟩
  · have moved : event.unnumbered ∈ suffix.map TxRecord.unnumbered := List.mem_map_of_mem member
    rw [same] at moved
    obtain ⟨original, inSorted, equal⟩ := List.mem_map.mp moved
    obtain ⟨record, inBase, topUp⟩ := forall₂_exists_left topUps original (perm.mem_iff.mp inSorted)
    exact ⟨record, inBase, topUp.same equal.symm⟩
  · obtain ⟨original, inEvents, topUp⟩ := forall₂_exists_right topUps record member
    have moved : original.unnumbered ∈ (events.insertionSort fundedBefore).map
        TxRecord.unnumbered := List.mem_map_of_mem (perm.mem_iff.mpr inEvents)
    rw [← same] at moved
    obtain ⟨event, inSuffix, equal⟩ := List.mem_map.mp moved
    exact ⟨event, inSuffix, topUp.same equal⟩
  · have dests := congrArg (List.map (·.dest)) same
    rw [List.map_map, List.map_map] at dests
    have paid : base.map (·.feePayer) = events.map (·.dest) :=
      forall₂_map_eq topUps (fun record event topUp => topUp.dest.symm)
    show (suffix.map ((·.dest) ∘ TxRecord.unnumbered)).Nodup
    rw [dests]
    refine ((perm.map (·.dest)).nodup_iff).mpr ?_
    rw [← paid]
    exact List.pairwise_map.mpr distinct
  · have sorted : (suffix.map TxRecord.unnumbered).Pairwise fundedBefore := by
      rw [same]
      exact List.pairwise_map.mpr (List.pairwise_insertionSort fundedBefore events)
    exact (List.pairwise_map (f := TxRecord.unnumbered)).mp sorted

/-! ### The run below the post-pass -/

section Unfunded

variable {Generator : Type} [Rng Generator] [Libm]

/-- The same configuration without funding. -/
def SimConfig.unfunded (cfg : SimConfig) : SimConfig := { cfg with funding := none }

omit [Rng Generator] [Libm] in
/-- The same state of a run without funding. -/
def RunState.unfunded (st : RunState Generator) : RunState Generator :=
  { st with cfg := st.cfg.unfunded }

/-- Building a run does not read the funding configuration. -/
theorem buildDrawing_unfunded (personas : List Persona) (cfg : SimConfig) :
    (buildDrawing personas cfg.unfunded : Option (RunState Generator × List AccountId)) =
      (buildDrawing personas cfg).map (fun built => (built.1.unfunded, built.2)) := by
  unfold buildDrawing
  split
  · rfl
  · show Option.bind (buildRun personas cfg ⟨Rng.seedFromU64 (deriveSeed cfg), []⟩) _ =
      Option.map _ (Option.bind (buildRun personas cfg ⟨Rng.seedFromU64 (deriveSeed cfg), []⟩) _)
    rw [Option.map_bind]
    refine congrArg (Option.bind _) (funext fun drawn => ?_)
    obtain ⟨⟨externals, built⟩, tape⟩ := drawn
    show Option.bind (checkedI64 (cfg.startTs + cfg.durationSecs)) _ =
      Option.map _ (Option.bind (checkedI64 (cfg.startTs + cfg.durationSecs)) _)
    rw [Option.map_bind]
    rfl

/-- Serving a wake does not read the funding configuration. -/
theorem serve_unfunded (st : RunState Generator) :
    st.unfunded.serve = st.serve.map (fun served => (served.1.unfunded, served.2)) := by
  unfold RunState.serve
  rw [show st.unfunded.heap = st.heap from rfl]
  cases st.heap with
  | nil => rfl
  | cons due heap =>
    obtain ⟨best, si⟩ := due
    show Option.bind st.sched[si]? _ = Option.map _ (Option.bind st.sched[si]? _)
    rw [Option.map_bind]
    refine congrArg (Option.bind _) (funext fun entry => ?_)
    show Option.bind st.agents[entry.agentIdx]? _ =
      Option.map _ (Option.bind st.agents[entry.agentIdx]? _)
    rw [Option.map_bind]
    refine congrArg (Option.bind _) (funext fun agent => ?_)
    show Option.bind (wake st.cfg st.externals best (st.chain.setTime (max best st.chain.now)) agent
        entry.subIdx ⟨st.rng, []⟩) _ = Option.map _ (Option.bind (wake st.cfg st.externals best
          (st.chain.setTime (max best st.chain.now)) agent entry.subIdx ⟨st.rng, []⟩) _)
    rw [Option.map_bind]
    refine congrArg (Option.bind _) (funext fun woken => ?_)
    obtain ⟨woken, tape⟩ := woken
    show Option.bind (checkedU64 (st.events + 1)) _ =
      Option.map _ (Option.bind (checkedU64 (st.events + 1)) _)
    rw [Option.map_bind]
    rfl

/-- The loop does not read the funding configuration. -/
theorem runCore_unfunded (fuel : Nat) (st : RunState Generator) :
    Id.run (runCore (nullSink Generator) fuel st.unfunded ()) =
        Outcome.map (fun ended => (ended.1.unfunded, ended.2))
          (Id.run (runCore (nullSink Generator) fuel st ())) ∧
      servedIds fuel st.unfunded = servedIds fuel st := by
  induction fuel generalizing st with
  | zero => exact ⟨rfl, rfl⟩
  | succ fuel inductionHypothesis =>
    have served := serve_unfunded st
    unfold servedIds
    rw [Id.run, Id.run, runCore_succ, runCore_succ, show st.unfunded.done = st.done from rfl]
    unfold RunState.event
    rw [served]
    by_cases done : st.done = true
    · rw [if_pos done, if_pos done, if_pos done, if_pos done]
      exact ⟨rfl, rfl⟩
    · rw [if_neg done, if_neg done, if_neg done, if_neg done]
      cases st.serve with
      | none => exact ⟨rfl, rfl⟩
      | some next =>
        obtain ⟨ended, ids⟩ := inductionHypothesis next.1
        exact ⟨ended, congrArg (next.2 ++ ·) ids⟩

/-- A run ends in the same state, and draws the same identifiers, with and without funding. -/
theorem finalState_unfunded (fuel : Nat) (personas : List Persona) (cfg : SimConfig) :
    (finalState fuel personas cfg.unfunded : Outcome (RunState Generator)) =
        Outcome.map RunState.unfunded (finalState fuel personas cfg) ∧
      drawnIds Generator fuel personas cfg.unfunded = drawnIds Generator fuel personas cfg := by
  unfold finalState drawnIds buildFresh
  rw [buildDrawing_unfunded]
  cases (buildDrawing personas cfg : Option (RunState Generator × List AccountId)) with
  | none => exact ⟨rfl, rfl⟩
  | some built =>
    obtain ⟨ended, ids⟩ := runCore_unfunded fuel built.1
    refine ⟨?_, congrArg (built.2 ++ ·) ids⟩
    simp only [Option.map_some]
    rw [ended]
    cases Id.run (runCore (nullSink Generator) fuel built.1 ()) <;> rfl

/-- The unfunded simulation returns the ledger of the state that the funded one ends in. -/
theorem simulate_unfunded (fuel : Nat) {personas : List Persona} {cfg : SimConfig}
    {final : RunState Generator} (ran : finalState fuel personas cfg = Outcome.returned final) :
    simulate Generator fuel personas cfg.unfunded = Outcome.returned final.chain.ledger := by
  unfold simulate
  rw [(finalState_unfunded fuel personas cfg).1, ran]
  rfl

end Unfunded

/-! ### The ledger of a funded run -/

/-- The hub of an operator is the main account of its agent. -/
theorem hubsOf_get? {agents : List Agent}
    (built : ∀ index agent, agents[index]? = some agent → BuiltAgent index agent) (id : AgentId) :
    (hubsOf agents).get? id = agents[id]?.map (·.main) := by
  induction agents using List.reverseRecOn with
  | nil => rfl
  | append_singleton earlier last inductionHypothesis =>
    have before := inductionHypothesis (fun index agent found => built index agent
      (by rw [List.getElem?_append_left (List.getElem?_eq_some_iff.mp found).1]; exact found))
    have here := (built earlier.length last (by simp)).id
    have split : hubsOf (earlier ++ [last]) = (hubsOf earlier).insert last.id last.main := by
      unfold hubsOf BTreeMap.ofList
      rw [List.map_append, List.foldl_append]
      rfl
    rw [split, BTreeMap.get?_insert, here, before]
    rcases lt_trichotomy id earlier.length with inside | rfl | outside
    · rw [if_neg inside.ne, List.getElem?_append_left inside]
    · rw [if_pos rfl]
      simp
    · rw [if_neg outside.ne', List.getElem?_eq_none outside.le,
        List.getElem?_eq_none (by simp; omega)]

section Funded

variable {Generator : Type} [Rng Generator] [Libm] {personas : List Persona} {cfg : SimConfig}

/-- The identifiers `AccountId::random` hands out in the funding post-pass of a run. -/
def fundingIds (Generator : Type) [Rng Generator] (fuel : Nat) (personas : List Persona)
    (cfg : SimConfig) : List AccountId :=
  match (finalState fuel personas cfg : Outcome (RunState Generator)), cfg.funding with
  | .returned final, some fcfg =>
    if cfg.mode = .naive then []
    else match (fundingEvents fcfg (hubsOf final.agents) final.chain.ledger.records
        ⟨Rng.seedFromU64 (deriveFundingSeed cfg), []⟩ :
          Option (List TxRecord × Tape Generator)) with
      | some (_, tape) => tape.drawn
      | none => []
  | _, _ => []

/-- All identifiers `AccountId::random` hands out in a simulation. -/
def allIds (Generator : Type) [Rng Generator] (fuel : Nat) (personas : List Persona)
    (cfg : SimConfig) : List AccountId :=
  drawnIds Generator fuel personas cfg ++ fundingIds Generator fuel personas cfg

/-- The funders assigned in the post-pass of a run that ended. -/
def assignedFunders (fcfg : FundingConfig) (cfg : SimConfig) (final : RunState Generator) :
    Option (List AccountId × BTreeMap AgentId (AccountId × Option AgentId)) :=
  (assignFunders fcfg (hubsOf final.agents)
    (⟨Rng.seedFromU64 (deriveFundingSeed cfg), []⟩ : Tape Generator)).map Prod.fst

/-- A simulation that returns ended in a state whose ledger the post-pass extends. -/
theorem simulate_final (fuel : Nat) {ledger : Ledger}
    (simulated : simulate Generator fuel personas cfg = Outcome.returned ledger) :
    ∃ final : RunState Generator, finalState fuel personas cfg = Outcome.returned final ∧
      finalizeFunding final cfg = some ledger := by
  unfold simulate at simulated
  cases ended : (finalState fuel personas cfg : Outcome (RunState Generator)) with
  | returned final =>
    rw [ended] at simulated
    refine ⟨final, rfl, ?_⟩
    dsimp only at simulated
    cases funded : finalizeFunding final cfg with
    | some extended =>
      rw [funded] at simulated
      rw [Outcome.returned.inj simulated]
    | none =>
      rw [funded] at simulated
      exact absurd simulated (by simp)
  | panicked =>
    rw [ended] at simulated
    exact absurd simulated (by simp)
  | running =>
    rw [ended] at simulated
    exact absurd simulated (by simp)

/-- Without a funding configuration, and in naive runs, nothing is appended. -/
theorem simulate_plain (fuel : Nat) {ledger : Ledger}
    (simulated : simulate Generator fuel personas cfg = Outcome.returned ledger)
    (plain : cfg.funding = none ∨ cfg.mode = .naive) :
    ∃ final : RunState Generator, finalState fuel personas cfg = Outcome.returned final ∧
      ledger = final.chain.ledger := by
  obtain ⟨final, ended, funded⟩ := simulate_final fuel simulated
  refine ⟨final, ended, ?_⟩
  unfold finalizeFunding at funded
  cases funding : cfg.funding with
  | none =>
    rw [funding] at funded
    exact (Option.some.inj funded).symm
  | some fcfg =>
    rw [funding] at funded
    unfold applyFunding at funded
    rw [funding] at funded
    dsimp only at funded
    rw [if_pos (plain.resolve_left (by rw [funding]; simp))] at funded
    exact (Option.some.inj funded).symm

/-- The ledger of a funded cooker run: the base, then one top-up per record. -/
theorem simulate_funded (fuel : Nat) {ledger : Ledger} {fcfg : FundingConfig}
    (funding : cfg.funding = some fcfg) (cooker : cfg.mode = .cooker)
    (simulated : simulate Generator fuel personas cfg = Outcome.returned ledger)
    (distinct : (allIds Generator fuel personas cfg).Nodup) :
    ∃ (final : RunState Generator) (suffix : List TxRecord)
      (assigned : List AccountId × BTreeMap AgentId (AccountId × Option AgentId))
      (wallets : List AccountId),
      finalState fuel personas cfg = Outcome.returned final ∧
      ledger.records = final.chain.ledger.records ++ suffix ∧
      assignedFunders fcfg cfg final = some assigned ∧
      fundingIds Generator fuel personas cfg = assigned.1 ++ wallets ∧
      Assigned fcfg (hubsOf final.agents) assigned.1 wallets assigned.2 ∧
      (∀ k, fcfg.policy = .sharedRelayers k → assigned.1.length = max k 1) ∧
      (∀ op ∈ (hubsOf final.agents).keys, (assigned.2.get? op).isSome) ∧
      Suffix fcfg assigned final.chain.ledger.records suffix := by
  obtain ⟨final, ended, funded⟩ := simulate_final fuel simulated
  obtain ⟨⟨built, first, reached⟩, _⟩ := finalState_reached fuel ended
  have base := (List.nodup_append.mp distinct).1
  have throwaways := reached.throwaways cooker base
  obtain ⟨owner, custody⟩ := reached.custody base
  have numbered := reached.ordered.numbered
  have hubs (id : AgentId) : (hubsOf final.agents).get? id = final.agents[id]?.map (·.main) :=
    hubsOf_get? custody.agents id
  unfold finalizeFunding at funded
  rw [funding] at funded
  unfold applyFunding at funded
  rw [funding] at funded
  dsimp only at funded
  rw [if_neg (by rw [cooker]; simp)] at funded
  simp only [Option.bind_eq_bind, Option.bind_eq_some_iff] at funded
  obtain ⟨⟨events, tape⟩, paid, suffix, appended, equal⟩ := funded
  have ids : fundingIds Generator fuel personas cfg = tape.drawn := by
    unfold fundingIds
    rw [ended, funding]
    dsimp only
    rw [if_neg (by rw [cooker]; simp), paid]
  have disjoint (record : TxRecord) (member : record ∈ final.chain.ledger.records) :
      record.feePayer ∉ tape.drawn := by
    intro again
    rw [← ids] at again
    exact (List.nodup_append.mp distinct).2.2 _ (throwaways.known record member).1 _ again rfl
  have labelled (record : TxRecord) (member : record ∈ final.chain.ledger.records) :
      ∃ op ∈ (hubsOf final.agents).keys, record.operator = some op := by
    obtain ⟨op, operator, signer⟩ := custody.signed record member
    refine ⟨op, (BTreeMap.mem_keys_iff _ op).mpr ?_, operator⟩
    have bound : op < final.agents.length := custody.owners _ op signer
    rw [hubs, Option.isSome_map, List.getElem?_eq_getElem bound]
    rfl
  have unheld (record : TxRecord) (member : record ∈ final.chain.ledger.records) (op : AgentId)
      (hub : AccountId) (found : (hubsOf final.agents).get? op = some hub) :
      hub ≠ record.feePayer := by
    rintro rfl
    rw [hubs] at found
    obtain ⟨agent, atAgent, main⟩ := Option.map_eq_some_iff.mp found
    have owned := custody.held op agent atAgent agent.main
      (List.mem_of_getElem? (custody.agents op agent atAgent).main)
    rw [main, (custody.payers cooker record member).1] at owned
    exact absurd owned (by simp)
  obtain ⟨assigned, wallets, middle, assigning, drawn, holds, pool, known, topUps⟩ :=
    fundingEvents_topUps paid throwaways.apart throwaways.unsigned labelled unheld disjoint
  rw [foldl_max_numbered (fun index record found => (numbered.record index record found).1),
    foldl_max_numbered (fun index record found => (numbered.record index record found).2)]
    at appended
  refine ⟨final, suffix, assigned, wallets, ended, ?_, ?_, ids.trans drawn, holds, pool, known,
    suffix_of_topUps topUps throwaways.apart appended⟩
  · rw [← Option.some.inj equal]
  · unfold assignedFunders
    rw [assigning]
    rfl

/-- The funders a policy permits an operator: its hub, its one wallet, its one relayer when
assignments are sticky, otherwise any relayer of the pool. -/
def FundingConfig.Permits (fcfg : FundingConfig) (hubs : BTreeMap AgentId AccountId)
    (pool : List AccountId) (funderOf : AgentId → AccountId) (op : AgentId) (funder : AccountId) :
    Prop :=
  match fcfg.policy with
  | .operatorHub => hubs.get? op = some funder
  | .dedicatedFunder => funder ∈ pool ∧ funder = funderOf op
  | .sharedRelayers _ => funder ∈ pool ∧ (fcfg.sticky = true → funder = funderOf op)

omit [Rng Generator] [Libm] in
/-- What the assignment allows, the policy permits. -/
theorem Assigned.permits {fcfg : FundingConfig} {hubs : BTreeMap AgentId AccountId}
    {wallets : List AccountId}
    {assigned : List AccountId × BTreeMap AgentId (AccountId × Option AgentId)}
    (holds : Assigned fcfg hubs assigned.1 wallets assigned.2) {op : AgentId} {funder : AccountId}
    {label : Option AgentId} (allowed : fcfg.Allows assigned op funder label) :
    fcfg.Permits hubs (assigned.1 ++ wallets)
      (fun op => ((assigned.2.get? op).map Prod.fst).getD ⟨0⟩) op funder := by
  have found (only : fcfg.perEventRelayer = false) :
      assigned.2.get? op = some (funder, label) ∧
        funder = ((assigned.2.get? op).map Prod.fst).getD ⟨0⟩ := by
    unfold FundingConfig.Allows at allowed
    rw [only, if_neg Bool.false_ne_true] at allowed
    rw [allowed]
    exact ⟨rfl, rfl⟩
  unfold FundingConfig.Permits
  unfold FundingConfig.perEventRelayer at found
  cases policy : fcfg.policy with
  | operatorHub =>
    rw [policy] at found
    have given := holds.gives op funder label (found rfl).1
    rw [policy] at given
    exact given.1
  | dedicatedFunder =>
    rw [policy] at found
    have given := holds.gives op funder label (found rfl).1
    rw [policy] at given
    exact ⟨List.mem_append_right _ given.1, (found rfl).2⟩
  | sharedRelayers k =>
    rw [policy] at found
    refine ⟨List.mem_append_left _ ?_, fun sticky => (found (by rw [sticky]; rfl)).2⟩
    cases sticky : fcfg.sticky with
    | true =>
      have given := holds.gives op funder label (found (by rw [sticky]; rfl)).1
      rw [policy] at given
      exact given.1
    | false =>
      unfold FundingConfig.Allows FundingConfig.perEventRelayer at allowed
      rw [policy, sticky] at allowed
      exact allowed.1

/-- Funding leaves the unfunded ledger as it is and appends one top-up for each distinct fee payer
of a cooker run: self-signed, from a funder the policy permits, early enough before every use; in
order of time, and continuing the counters. For a naive run nothing is appended. -/
theorem funding_suffix (fuel : Nat) (personas : List Persona) (cfg : SimConfig) (ledger : Ledger)
    (fcfg : FundingConfig) (funding : cfg.funding = some fcfg)
    (simulated : simulate Generator fuel personas cfg = Outcome.returned ledger)
    (distinct : (allIds Generator fuel personas cfg).Nodup) :
    ∃ (final : RunState Generator) (base : Ledger) (suffix : List TxRecord),
      finalState fuel personas cfg = Outcome.returned final ∧
      simulate Generator fuel personas cfg.unfunded = Outcome.returned base ∧
      ledger.records = base.records ++ suffix ∧
      (cfg.mode = .naive → suffix = []) ∧
      (cfg.mode = .cooker →
        (suffix.map (·.dest)).Nodup ∧
        (∀ account, account ∈ suffix.map (·.dest) ↔ account ∈ base.records.map (·.feePayer)) ∧
        (∃ funderOf : AgentId → AccountId,
          (fcfg.policy = .dedicatedFunder → ∀ op ∈ (hubsOf final.agents).keys,
            ∀ op' ∈ (hubsOf final.agents).keys, funderOf op = funderOf op' → op = op') ∧
          (∀ k, fcfg.policy = .sharedRelayers k →
            (fundingIds Generator fuel personas cfg).length = max k 1) ∧
          ∀ event ∈ suffix, event.feePayer = event.source ∧ event.source ≠ event.dest ∧
            ∀ record ∈ base.records, record.feePayer = event.dest →
              event.ts + fcfg.leadMinSecs ≤ record.ts ∧
              ∃ op, record.operator = some op ∧
                fcfg.Permits (hubsOf final.agents) (fundingIds Generator fuel personas cfg)
                  funderOf op event.source) ∧
        suffix.Pairwise (fun first second => first.ts ≤ second.ts) ∧
        ∀ index record, ledger.records[index]? = some record →
          record.sig = index + 1 ∧ record.slot = index + 1) := by
  cases mode : cfg.mode with
  | naive =>
    obtain ⟨final, ended, rfl⟩ := simulate_plain fuel simulated (Or.inr mode)
    exact ⟨final, final.chain.ledger, [], ended, simulate_unfunded fuel ended,
      (List.append_nil _).symm, fun _ => rfl, fun cooker => absurd cooker (by simp)⟩
  | cooker =>
    obtain ⟨final, suffix, assigned, wallets, ended, records, _, ids, holds, pool, known,
      appended⟩ := simulate_funded fuel funding mode simulated distinct
    obtain ⟨⟨built, first, reached⟩, _⟩ := finalState_reached fuel ended
    have throwaways := reached.throwaways mode (List.nodup_append.mp distinct).1
    have apart := throwaways.apart
    have fresh : wallets.Nodup := by
      have nodup := (List.nodup_append.mp distinct).2.1
      rw [ids] at nodup
      exact (List.nodup_append.mp nodup).2.1
    refine ⟨final, final.chain.ledger, suffix, ended, simulate_unfunded fuel ended, records,
      fun naive => absurd naive (by simp), fun _ => ⟨appended.once, fun account => ?_,
        ⟨fun op => ((assigned.2.get? op).map Prod.fst).getD ⟨0⟩, ?_, ?_, ?_⟩, ?_, ?_⟩⟩
    · constructor
      · intro member
        obtain ⟨event, inSuffix, rfl⟩ := List.mem_map.mp member
        obtain ⟨record, inBase, topUp⟩ := appended.each event inSuffix
        rw [topUp.dest]
        exact List.mem_map_of_mem inBase
      · intro member
        obtain ⟨record, inBase, rfl⟩ := List.mem_map.mp member
        obtain ⟨event, inSuffix, topUp⟩ := appended.all record inBase
        rw [← topUp.dest]
        exact List.mem_map_of_mem inSuffix
    · intro dedicated op member op' member' equal
      obtain ⟨⟨funder, label⟩, found⟩ := Option.isSome_iff_exists.mp (known op member)
      obtain ⟨⟨funder', label'⟩, found'⟩ := Option.isSome_iff_exists.mp (known op' member')
      simp only [found, found', Option.map_some, Option.getD_some] at equal
      subst equal
      exact holds.apart dedicated fresh op op' funder label label' found found'
    · intro k shared
      rw [ids, holds.undrawn (by rw [shared]; simp), List.append_nil]
      exact pool k shared
    · intro event member
      obtain ⟨record, inBase, topUp⟩ := appended.each event member
      refine ⟨topUp.payer, topUp.apart, fun other otherBase paid => ?_⟩
      have tops := appended.topUp_of_dest apart member otherBase paid
      obtain ⟨op, operator, allowed⟩ := tops.funder
      rw [ids]
      exact ⟨tops.early, op, operator, holds.permits allowed⟩
    · refine appended.sorted.imp (fun before => ?_)
      exact before.elim le_of_lt (fun both => both.1.le)
    · intro index record found
      rw [records] at found
      exact appended.ledger_numbered reached.ordered.numbered.record found

end Funded

/-- The small run, its fee payers funded from the hubs. -/
def hubRun : SimConfig := { smallRun with funding := some (FundingConfig.new .operatorHub) }

theorem hubRun_distinct : (allIds Counter 3 [Persona.retail] hubRun).Nodup := by decide +kernel

/-- Three records, and as many top-ups. -/
theorem hubRun_simulated : ∃ ledger,
    simulate Counter 3 [Persona.retail] hubRun = Outcome.returned ledger ∧
    ledger.records.length = 6 := by
  have ran : ((simulate Counter 3 [Persona.retail] hubRun).result?.map
      (fun ledger => ledger.records.length)) = some 6 := by decide +kernel
  obtain ⟨ledger, result, length⟩ := Option.map_eq_some_iff.mp ran
  exact ⟨ledger, Outcome.result?_eq_some.mp result, length⟩

/-- The three records of the small run are topped up from the hubs. -/
theorem funding_suffix_hubRun : ∃ (ledger base : Ledger) (suffix : List TxRecord),
    simulate Counter 3 [Persona.retail] hubRun = Outcome.returned ledger ∧
    simulate Counter 3 [Persona.retail] hubRun.unfunded = Outcome.returned base ∧
    ledger.records = base.records ++ suffix ∧ ledger.records.length = 6 ∧
    (suffix.map (·.dest)).Nodup ∧
    ∀ account, account ∈ suffix.map (·.dest) ↔ account ∈ base.records.map (·.feePayer) := by
  obtain ⟨ledger, simulated, length⟩ := hubRun_simulated
  obtain ⟨_, base, suffix, _, unfunded, records, _, cooker⟩ :=
    funding_suffix 3 _ _ ledger _ rfl simulated hubRun_distinct
  obtain ⟨once, complete, _⟩ := cooker (by decide)
  exact ⟨ledger, base, suffix, simulated, unfunded, records, length, once, complete⟩

end AccountCooker
