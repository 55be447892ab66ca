/-
This file proves that the ground truth of a simulated ledger is well defined.
The operator of a record is a function of its source: the owner of the account,
or the operator a dedicated wallet was drawn for, and nobody for a relayer. So
the ownership map is that function on the sources, whatever the order of the
records.

The facts about a funded cooker run that all later results share are collected
once, in `FundedRun`.
-/

import Mathlib
import AccountCooker.TopUps

namespace AccountCooker

open Collections Draw

/-! ### Ownership of a labelled ledger -/

/-- The operator of every record is a function of its source. -/
def LabelledBy (label : AccountId → Option AgentId) (records : List TxRecord) : Prop :=
  ∀ record ∈ records, record.operator = label record.source

/-- Who owns an account of a labelled ledger. -/
theorem lookup_ownership_eq_some {label : AccountId → Option AgentId} {ledger : Ledger}
    (labelled : LabelledBy label ledger.records) (account : AccountId) (id : AgentId) :
    ledger.ownership.lookup account = some id ↔
      (∃ record ∈ ledger.records, record.source = account) ∧ label account = some id := by
  rw [Ledger.ownership_eq, lookup_insertAll, mem_labels]
  · constructor
    · rintro ⟨record, member, rfl, operator⟩
      exact ⟨⟨record, member, rfl⟩, by rw [← labelled record member, operator]⟩
    · rintro ⟨⟨record, member, rfl⟩, owned⟩
      exact ⟨record, member, rfl, by rw [labelled record member, owned]⟩
  · intro id id' one other
    obtain ⟨record, member, rfl, operator⟩ := mem_labels.mp one
    obtain ⟨partner, inLedger, same, also⟩ := mem_labels.mp other
    rw [labelled record member] at operator
    rw [labelled partner inLedger, same, operator] at also
    exact Option.some.inj also

/-! ### Funded cooker runs -/

/-- The operator behind an account: its owner, or the operator a dedicated wallet was assigned
to. -/
def behind (owner : AccountId → Option AgentId)
    (funderOf : BTreeMap AgentId (AccountId × Option AgentId)) (account : AccountId) :
    Option AgentId :=
  match owner account with
  | some id => some id
  | none => funderOf.keys.find? (fun op => funderOf.get? op = some (account, some op))

theorem behind_of_owner {owner : AccountId → Option AgentId} {account : AccountId} {id : AgentId}
    (owned : owner account = some id)
    (funderOf : BTreeMap AgentId (AccountId × Option AgentId)) :
    behind owner funderOf account = some id := by
  unfold behind
  rw [owned]

/-- The base of a finished cooker run under its owners, and the top-ups appended to it. -/
structure FundedRun (cfg : SimConfig) (fcfg : FundingConfig) (externals : List AccountId)
    (owner : AccountId → Option AgentId) (view : View)
    (assigned : List AccountId × BTreeMap AgentId (AccountId × Option AgentId))
    (wallets : List AccountId) (suffix : List TxRecord) : Prop where
  cooker : cfg.mode = .cooker
  custody : Custody cfg externals owner view
  throwaways : Throwaways view
  assigns : Assigned fcfg (hubsOf view.agents) assigned.1 wallets assigned.2
  fresh : (view.drawn ++ (assigned.1 ++ wallets)).Nodup
  known : ∀ op ∈ (hubsOf view.agents).keys, (assigned.2.get? op).isSome
  appended : Suffix fcfg assigned view.chain.ledger.records suffix

section FundedRun

variable {cfg : SimConfig} {fcfg : FundingConfig} {externals : List AccountId}
  {owner : AccountId → Option AgentId} {view : View}
  {assigned : List AccountId × BTreeMap AgentId (AccountId × Option AgentId)}
  {wallets : List AccountId} {suffix : List TxRecord}

/-- What the post-pass draws belongs to nobody. -/
theorem FundedRun.unowned (run : FundedRun cfg fcfg externals owner view assigned wallets suffix)
    {account : AccountId} (drew : account ∈ assigned.1 ++ wallets) : owner account = none := by
  refine Option.eq_none_iff_forall_ne_some.mpr (fun id owned => ?_)
  exact (List.nodup_append.mp run.fresh).2.2 _ (run.custody.drawn_of_owner owned) _ drew rfl

/-- The hub of an operator is its own. -/
theorem FundedRun.owner_hub (run : FundedRun cfg fcfg externals owner view assigned wallets suffix)
    {op : AgentId} {hub : AccountId} (found : (hubsOf view.agents).get? op = some hub) :
    ∃ agent, view.agents[op]? = some agent ∧ agent.main = hub ∧ owner hub = some op := by
  rw [hubsOf_get? run.custody.agents] at found
  obtain ⟨agent, atAgent, rfl⟩ := Option.map_eq_some_iff.mp found
  exact ⟨agent, atAgent, rfl, run.custody.held op agent atAgent _
    (List.mem_of_getElem? (run.custody.agents op agent atAgent).main)⟩

/-- Nobody is behind a relayer. -/
theorem FundedRun.behind_relayer
    (run : FundedRun cfg fcfg externals owner view assigned wallets suffix) {k : Nat}
    (shared : fcfg.policy = .sharedRelayers k) {relayer : AccountId}
    (inPool : relayer ∈ assigned.1) : behind owner assigned.2 relayer = none := by
  unfold behind
  rw [run.unowned (List.mem_append_left _ inPool)]
  refine List.find?_eq_none.mpr (fun op _ equal => ?_)
  have given := run.assigns.gives op relayer (some op) (of_decide_eq_true equal)
  rw [shared] at given
  exact absurd given.2 (by simp)

/-- The label of an assigned funder is the operator behind it. -/
theorem FundedRun.behind_assigned
    (run : FundedRun cfg fcfg externals owner view assigned wallets suffix) {op : AgentId}
    {funder : AccountId} {label : Option AgentId}
    (found : assigned.2.get? op = some (funder, label)) :
    behind owner assigned.2 funder = label := by
  have given := run.assigns.gives op funder label found
  cases policy : fcfg.policy with
  | operatorHub =>
    rw [policy] at given
    obtain ⟨hub, rfl⟩ := given
    obtain ⟨_, _, _, owned⟩ := run.owner_hub hub
    exact behind_of_owner owned _
  | dedicatedFunder =>
    rw [policy] at given
    obtain ⟨drew, rfl⟩ := given
    have distinct := (List.nodup_append.mp (List.nodup_append.mp run.fresh).2.1).2.1
    unfold behind
    rw [run.unowned (List.mem_append_right _ drew)]
    show assigned.2.keys.find? _ = _
    cases search : assigned.2.keys.find?
        (fun op => assigned.2.get? op = some (funder, some op)) with
    | none =>
      have member := (BTreeMap.mem_keys_iff assigned.2 op).mpr (by rw [found]; rfl)
      exact absurd found (of_decide_eq_false (Bool.eq_false_of_not_eq_true
        (List.find?_eq_none.mp search op member)))
    | some other =>
      have also : assigned.2.get? other = some (funder, some other) := by
        have passed := List.find?_some search
        exact of_decide_eq_true passed
      exact congrArg some (run.assigns.apart policy distinct _ _ _ _ _ also found)
  | sharedRelayers k =>
    rw [policy] at given
    obtain ⟨inPool, rfl⟩ := given
    exact run.behind_relayer policy inPool

/-- The label of an allowed funder is the operator behind it. -/
theorem FundedRun.behind_funder
    (run : FundedRun cfg fcfg externals owner view assigned wallets suffix) {op : AgentId}
    {funder : AccountId} {label : Option AgentId}
    (allowed : fcfg.Allows assigned op funder label) : behind owner assigned.2 funder = label := by
  unfold FundingConfig.Allows at allowed
  split at allowed
  · rename_i perEvent
    obtain ⟨inPool, rfl⟩ := allowed
    unfold FundingConfig.perEventRelayer at perEvent
    cases policy : fcfg.policy with
    | operatorHub | dedicatedFunder =>
      rw [policy] at perEvent
      exact absurd perEvent Bool.false_ne_true
    | sharedRelayers k => exact run.behind_relayer policy inPool
  · exact run.behind_assigned allowed

/-- A funder was drawn after the run, or is the hub of the operator. -/
theorem FundedRun.funder_place
    (run : FundedRun cfg fcfg externals owner view assigned wallets suffix) {op : AgentId}
    {funder : AccountId} {label : Option AgentId}
    (allowed : fcfg.Allows assigned op funder label) :
    funder ∈ assigned.1 ++ wallets ∨
      (hubsOf view.agents).get? op = some funder ∧ owner funder = some op := by
  unfold FundingConfig.Allows at allowed
  split at allowed
  · exact Or.inl (List.mem_append_left _ allowed.1)
  · have given := run.assigns.gives op _ _ allowed
    cases policy : fcfg.policy with
    | operatorHub =>
      rw [policy] at given
      obtain ⟨_, _, _, owned⟩ := run.owner_hub given.1
      exact Or.inr ⟨given.1, owned⟩
    | dedicatedFunder =>
      rw [policy] at given
      exact Or.inl (List.mem_append_right _ given.1)
    | sharedRelayers k =>
      rw [policy] at given
      exact Or.inl (List.mem_append_left _ given.1)

/-- The operator of every record of a funded ledger is the one behind its source. -/
theorem FundedRun.labelled
    (run : FundedRun cfg fcfg externals owner view assigned wallets suffix) :
    LabelledBy (behind owner assigned.2) (view.chain.ledger.records ++ suffix) := by
  intro record member
  rcases List.mem_append.mp member with base | topUp
  · obtain ⟨id, operator, owned⟩ := run.custody.signed record base
    rw [operator, behind_of_owner owned]
  · obtain ⟨_, _, tops⟩ := run.appended.each record topUp
    obtain ⟨op, _, allowed⟩ := tops.funder
    exact (run.behind_funder allowed).symm

end FundedRun

/-! ### The end of a run -/

section Final

variable {Generator : Type} [Rng Generator] [Libm] {personas : List Persona} {cfg : SimConfig}

/-- The state a run ends in is the last of its boundaries. -/
theorem runCore_mem_boundaries (fuel : Nat) {st final : RunState Generator}
    (ran : runCore (nullSink Generator) fuel st () = Outcome.returned (final, ())) :
    final ∈ st.boundaries fuel := by
  induction fuel generalizing st with
  | zero => exact absurd ran (by simp [runCore, pure])
  | succ fuel inductionHypothesis =>
    rw [runCore_succ] at ran
    unfold RunState.boundaries
    by_cases done : st.done = true
    · rw [if_pos done] at ran
      obtain ⟨rfl, _⟩ := Prod.mk.inj (Outcome.returned.inj ran)
      exact List.mem_cons_self
    · rw [if_neg done] at ran ⊢
      cases next : st.event with
      | none =>
        rw [next] at ran
        exact absurd ran (by simp)
      | some later =>
        rw [next] at ran
        exact List.mem_cons_of_mem _ (inductionHypothesis ran)

/-- Everything known of a finished run: where it ended, who owned what at its boundaries, and who
signed its records. -/
structure Finished (fuel : Nat) (personas : List Persona) (cfg : SimConfig)
    (built final : RunState Generator) (owner : AccountId → Option AgentId) : Prop where
  building : buildFresh personas cfg = some built
  ended : finalState fuel personas cfg = Outcome.returned final
  reached : ∃ first, ReachedBy personas cfg built final first (drawnIds Generator fuel personas cfg)
  last : final ∈ built.boundaries fuel
  custody : Custody cfg final.externals owner (final.view (drawnIds Generator fuel personas cfg))
  held : ∀ id account, HeldAt (built.boundaries fuel) id account → owner account = some id
  signed : ∀ record ∈ final.chain.ledger.records,
    ∃ id, record.operator = some id ∧ HeldAt (built.boundaries fuel) id record.source

theorem finalState_finished (fuel : Nat) {final : RunState Generator}
    (ran : finalState fuel personas cfg = Outcome.returned final)
    (distinct : (drawnIds Generator fuel personas cfg).Nodup) :
    ∃ built owner, Finished fuel personas cfg built final owner := by
  obtain ⟨built, owner, building, custody, held, signed⟩ := finalState_custody fuel ran distinct
  obtain ⟨⟨other, first, reached⟩, _⟩ := finalState_reached fuel ran
  obtain ⟨third, _, drew, _, looped⟩ := finalState_ran fuel ran
  have same {state : RunState Generator} {ids : List AccountId}
      (drawn : buildDrawing personas cfg = some (state, ids)) : state = built := by
    unfold buildFresh at building
    rw [drawn] at building
    exact Option.some.inj building
  obtain rfl := same reached.building
  obtain rfl := same drew
  exact ⟨third, owner, building, ran, ⟨first, reached⟩, runCore_mem_boundaries fuel looped,
    custody, held, signed⟩

/-- A funded simulation of a cooker run is a finished run and its top-ups. -/
theorem simulate_fundedRun (fuel : Nat) {ledger : Ledger} {fcfg : FundingConfig}
    (funding : cfg.funding = some fcfg) (cooker : cfg.mode = .cooker)
    (simulated : simulate Generator fuel personas cfg = Outcome.returned ledger)
    (distinct : (allIds Generator fuel personas cfg).Nodup) :
    ∃ (built final : RunState Generator) (owner : AccountId → Option AgentId)
      (assigned : List AccountId × BTreeMap AgentId (AccountId × Option AgentId))
      (wallets : List AccountId) (suffix : List TxRecord),
      Finished fuel personas cfg built final owner ∧
      ledger.records = final.chain.ledger.records ++ suffix ∧
      assignedFunders fcfg cfg final = some assigned ∧
      FundedRun cfg fcfg final.externals owner
        (final.view (drawnIds Generator fuel personas cfg)) assigned wallets suffix := by
  obtain ⟨final, suffix, assigned, wallets, ended, records, assigning, ids, holds, _, known,
    appended⟩ := simulate_funded fuel funding cooker simulated distinct
  have base := (List.nodup_append.mp distinct).1
  obtain ⟨built, owner, finished⟩ := finalState_finished fuel ended base
  obtain ⟨first, reached⟩ := finished.reached
  unfold allIds at distinct
  rw [ids] at distinct
  exact ⟨built, final, owner, assigned, wallets, suffix, finished, records, assigning, cooker,
    finished.custody, reached.throwaways cooker base, holds, distinct, known, appended⟩

/-! ### Ground truth -/

/-- An account is the dedicated wallet that was drawn for an operator after a run. -/
def DedicatedTo (cfg : SimConfig) (final : RunState Generator) (id : AgentId)
    (account : AccountId) : Prop :=
  ∃ fcfg assigned, cfg.funding = some fcfg ∧ fcfg.policy = .dedicatedFunder ∧
    cfg.mode = .cooker ∧ assignedFunders fcfg cfg final = some assigned ∧
      assigned.2.get? id = some (account, some id)

/-- The operator of a record of a funded run holds its source at some boundary, or had it
drawn. -/
theorem Finished.operator_iff {fuel : Nat} {built final : RunState Generator}
    {owner : AccountId → Option AgentId} {fcfg : FundingConfig}
    {assigned : List AccountId × BTreeMap AgentId (AccountId × Option AgentId)}
    {wallets : List AccountId} {suffix : List TxRecord}
    (finished : Finished fuel personas cfg built final owner)
    (funding : cfg.funding = some fcfg) (assigning : assignedFunders fcfg cfg final = some assigned)
    (run : FundedRun cfg fcfg final.externals owner
      (final.view (drawnIds Generator fuel personas cfg)) assigned wallets suffix)
    {record : TxRecord} (member : record ∈ final.chain.ledger.records ++ suffix) (id : AgentId) :
    record.operator = some id ↔
      HeldAt (built.boundaries fuel) id record.source ∨ DedicatedTo cfg final id record.source := by
  constructor
  · intro operator
    rcases List.mem_append.mp member with base | topUp
    · obtain ⟨other, labelled, held⟩ := finished.signed record base
      obtain rfl := Option.some.inj (operator.symm.trans labelled)
      exact Or.inl held
    · obtain ⟨_, _, tops⟩ := run.appended.each record topUp
      obtain ⟨op, _, allowed⟩ := tops.funder
      unfold FundingConfig.Allows at allowed
      split at allowed
      · exact absurd (operator.symm.trans allowed.2) (by simp)
      · have given := run.assigns.gives op _ _ allowed
        cases policy : fcfg.policy with
        | operatorHub =>
          rw [policy] at given
          obtain rfl := Option.some.inj (operator.symm.trans given.2)
          obtain ⟨agent, found, main, _⟩ := run.owner_hub given.1
          refine Or.inl ⟨final, finished.last, agent, found, ?_⟩
          rw [← main]
          exact List.mem_of_getElem? (run.custody.agents id agent found).main
        | dedicatedFunder =>
          rw [policy] at given
          obtain rfl := Option.some.inj (operator.symm.trans given.2)
          rw [operator] at allowed
          exact Or.inr ⟨fcfg, assigned, funding, policy, run.cooker, assigning, allowed⟩
        | sharedRelayers k =>
          rw [policy] at given
          exact absurd (operator.symm.trans given.2) (by simp)
  · rw [run.labelled record member]
    rintro (held | ⟨_, _, funded, _, _, assigned, found⟩)
    · exact behind_of_owner (finished.held id _ held) _
    · obtain rfl := Option.some.inj (funding.symm.trans funded)
      obtain rfl := Option.some.inj (assigning.symm.trans assigned)
      exact run.behind_assigned found

/-- The operator of a record is determined by its source: the agent that held the account at some
boundary of the run, or had it drawn as its dedicated wallet. No account was held by two agents,
and the ownership map, on which all scores rest, is this truth in any order of the records. -/
theorem ground_truth (fuel : Nat) (personas : List Persona) (cfg : SimConfig) (ledger : Ledger)
    (simulated : simulate Generator fuel personas cfg = Outcome.returned ledger)
    (distinct : (allIds Generator fuel personas cfg).Nodup) :
    ∃ built final : RunState Generator, buildFresh personas cfg = some built ∧
      finalState fuel personas cfg = Outcome.returned final ∧
      (∀ record ∈ ledger.records, ∀ other ∈ ledger.records, record.source = other.source →
        record.operator = other.operator) ∧
      (∀ record ∈ ledger.records, ∀ id, record.operator = some id ↔
        HeldAt (built.boundaries fuel) id record.source ∨
          DedicatedTo cfg final id record.source) ∧
      (∀ record ∈ ledger.records, ∀ id id',
        HeldAt (built.boundaries fuel) id record.source ∨ DedicatedTo cfg final id record.source →
        HeldAt (built.boundaries fuel) id' record.source ∨
          DedicatedTo cfg final id' record.source → id = id') ∧
      ∀ other : Ledger, other.records.Perm ledger.records → ∀ account id,
        other.ownership.lookup account = some id ↔
          (∃ record ∈ ledger.records, record.source = account) ∧
            (HeldAt (built.boundaries fuel) id account ∨ DedicatedTo cfg final id account) := by
  obtain ⟨built, final, label, building, ended, labelled, truth⟩ :
      ∃ (built final : RunState Generator) (label : AccountId → Option AgentId),
        buildFresh personas cfg = some built ∧
        finalState fuel personas cfg = Outcome.returned final ∧
        LabelledBy label ledger.records ∧ ∀ record ∈ ledger.records, ∀ id,
          record.operator = some id ↔ HeldAt (built.boundaries fuel) id record.source ∨
            DedicatedTo cfg final id record.source := by
    by_cases plain : cfg.funding = none ∨ cfg.mode = .naive
    · obtain ⟨final, ended, rfl⟩ := simulate_plain fuel simulated plain
      obtain ⟨built, owner, finished⟩ :=
        finalState_finished fuel ended (List.nodup_append.mp distinct).1
      have labelled : LabelledBy owner final.chain.ledger.records := by
        intro record member
        obtain ⟨id, operator, owned⟩ := finished.custody.signed record member
        rw [operator, owned]
      refine ⟨built, final, owner, finished.building, ended, labelled, fun record member id => ?_⟩
      constructor
      · intro operator
        obtain ⟨other, also, held⟩ := finished.signed record member
        obtain rfl := Option.some.inj (operator.symm.trans also)
        exact Or.inl held
      · rintro (held | ⟨fcfg, _, funding, _, cooker, _⟩)
        · rw [labelled record member]
          exact finished.held id _ held
        · rcases plain with none | naive
          · exact absurd (none.symm.trans funding) (by simp)
          · exact absurd (naive.symm.trans cooker) (by simp)
    · rw [not_or] at plain
      obtain ⟨fcfg, funding⟩ := Option.ne_none_iff_exists'.mp plain.1
      have cooker : cfg.mode = .cooker := by
        cases mode : cfg.mode with
        | naive => exact absurd mode plain.2
        | cooker => rfl
      obtain ⟨built, final, owner, assigned, wallets, suffix, finished, records, assigning, run⟩ :=
        simulate_fundedRun fuel funding cooker simulated distinct
      rw [records]
      exact ⟨built, final, behind owner assigned.2, finished.building, finished.ended, run.labelled,
        fun record member id => finished.operator_iff funding assigning run member id⟩
  refine ⟨built, final, building, ended, fun record member other inLedger same => ?_, truth,
    fun record member id id' one two => ?_, fun other perm account id => ?_⟩
  · rw [labelled record member, labelled other inLedger, same]
  · exact Option.some.inj
      (((truth record member id).mpr one).symm.trans ((truth record member id').mpr two))
  · have alike : LabelledBy label other.records :=
      fun record member => labelled record (perm.mem_iff.mp member)
    rw [lookup_ownership_eq_some alike]
    constructor
    · rintro ⟨⟨record, member, rfl⟩, owned⟩
      have inLedger := perm.mem_iff.mp member
      refine ⟨⟨record, inLedger, rfl⟩, (truth record inLedger id).mp ?_⟩
      rw [labelled record inLedger, owned]
    · rintro ⟨⟨record, member, rfl⟩, holder⟩
      refine ⟨⟨record, perm.mem_iff.mpr member, rfl⟩, ?_⟩
      rw [← labelled record member]
      exact (truth record member id).mpr holder

end Final

/-- In the small run funded from the hubs, six records agree on the operators of their sources. -/
theorem ground_truth_hubRun : ∃ ledger,
    simulate Counter 3 [Persona.retail] hubRun = Outcome.returned ledger ∧
    ledger.records.length = 6 ∧
    ∀ record ∈ ledger.records, ∀ other ∈ ledger.records, record.source = other.source →
      record.operator = other.operator := by
  obtain ⟨ledger, simulated, length⟩ := hubRun_simulated
  obtain ⟨_, _, _, _, agree, _⟩ := ground_truth 3 _ _ ledger simulated hubRun_distinct
  exact ⟨ledger, simulated, length, agree⟩

end AccountCooker
