/-
This file says whose account is whose, in all three engines. Every account that
an agent ever held has one owner, for good: the records it signs carry that
owner as their operator, nobody else pays it, and a rotation passes the owner on
to the successor. Externals, churn addresses and the throwaway fee payers of a
cooker run belong to nobody.

The owners are bookkeeping, extended when a successor joins the table. That a
record is signed by an account its agent held when the wake began is a matter of
the engines: a rotating wake moves distinct sub-accounts, so that no successor
is moved on in the wake it joined.
-/

import Mathlib
import AccountCooker.Residual

namespace AccountCooker

open Collections Draw

/-! ### The invariant -/

/-- Every account has at most one owner, who holds it or held it. -/
structure Custody (cfg : SimConfig) (externals : List AccountId)
    (owner : AccountId → Option AgentId) (view : View) : Prop where
  agents : ∀ index agent, view.agents[index]? = some agent → BuiltAgent index agent
  held : ∀ index agent, view.agents[index]? = some agent →
    ∀ account ∈ agent.subaccounts, owner account = some index
  owners : ∀ account id, owner account = some id → id < view.agents.length
  outside : ∀ account ∈ externals, owner account = none
  known : ∀ account, (owner account).isSome ∨ account ∈ externals → account ∈ view.drawn
  mentioned : ∀ record ∈ view.chain.ledger.records,
    record.dest ∈ view.drawn ∧ record.feePayer ∈ view.drawn
  signed : ∀ record ∈ view.chain.ledger.records,
    ∃ id, record.operator = some id ∧ owner record.source = some id
  toward : ∀ record ∈ view.chain.ledger.records,
    ∀ id, owner record.dest = some id → record.operator = some id
  mains : cfg.Rotates → ∀ record ∈ view.chain.ledger.records,
    record.dest ∈ view.agents.map (·.main) → record.dest = record.source ∧ record.amount = 0
  payers : cfg.mode = .cooker → ∀ record ∈ view.chain.ledger.records,
    owner record.feePayer = none ∧ record.feePayer ∉ externals ∧
      ∀ other ∈ view.chain.ledger.records, other.dest ≠ record.feePayer

/-- A new table of sub-accounts changes no main account. -/
theorem mains_set {agents : List Agent} {index : Nat} {agent : Agent}
    (found : agents[index]? = some agent) (table : List AccountId) :
    (agents.set index { agent with subaccounts := table }).map (·.main) =
      agents.map (·.main) := by
  obtain ⟨_, here⟩ := List.getElem?_eq_some_iff.mp found
  rw [List.map_set, show agent.main = agents[index].main by rw [here], ← List.map_set,
    List.set_getElem_self]

section Records

variable {cfg : SimConfig} {externals : List AccountId} {owner : AccountId → Option AgentId}
  {agents : List Agent} {chain recorded : MockChain} {drawn ids : List AccountId}
  {record : TxRecord}

/-- An owned account was drawn. -/
theorem Custody.drawn_of_owner {view : View} (custody : Custody cfg externals owner view)
    {account : AccountId} {id : AgentId} (owned : owner account = some id) :
    account ∈ view.drawn :=
  custody.known account (Or.inl (Option.isSome_iff_exists.mpr ⟨id, owned⟩))

/-- A record of an owner keeps the invariant when it pays an external, the same owner or a fresh
account, and in a cooker run is paid for by a fresh account. -/
theorem Custody.payment (custody : Custody cfg externals owner ⟨agents, chain, drawn⟩)
    (appended : recorded.ledger.records = chain.ledger.records ++ [record]) {id : AgentId}
    (operator : record.operator = some id) (signer : owner record.source = some id)
    (place : record.dest ∈ externals ∨ owner record.dest = some id ∨
      record.dest ∉ drawn ∧ record.dest ∈ ids)
    (feePayer : record.feePayer ∈ drawn ++ ids)
    (mains : cfg.Rotates → record.dest ∈ agents.map (·.main) →
      record.dest = record.source ∧ record.amount = 0)
    (payer : cfg.mode = .cooker → record.feePayer ∉ drawn ∧ record.dest ≠ record.feePayer) :
    Custody cfg externals owner ⟨agents, recorded, drawn ++ ids⟩ := by
  have either {other : TxRecord} (member : other ∈ recorded.ledger.records) :
      other ∈ chain.ledger.records ∨ other = record := by
    rw [appended] at member
    exact (List.mem_append.mp member).imp_right List.mem_singleton.mp
  have nobody {account : AccountId} (fresh : account ∉ drawn) : owner account = none :=
    Option.eq_none_iff_forall_ne_some.mpr (fun id owned => fresh (custody.drawn_of_owner owned))
  refine ⟨custody.agents, custody.held, custody.owners, custody.outside,
    fun account place => List.mem_append_left _ (custody.known account place),
    fun other member => ?_, fun other member => ?_, fun other member => ?_,
    fun rotates other member => ?_, fun cooker other member => ?_⟩
  · rcases either member with old | rfl
    · exact ⟨List.mem_append_left _ (custody.mentioned other old).1,
        List.mem_append_left _ (custody.mentioned other old).2⟩
    · refine ⟨?_, feePayer⟩
      rcases place with external | owned | fresh
      · exact List.mem_append_left _ (custody.known _ (Or.inr external))
      · exact List.mem_append_left _ (custody.drawn_of_owner owned)
      · exact List.mem_append_right _ fresh.2
  · rcases either member with old | rfl
    · exact custody.signed other old
    · exact ⟨id, operator, signer⟩
  · rcases either member with old | rfl
    · exact custody.toward other old
    · intro paid owned
      rcases place with external | mine | fresh
      · exact absurd owned (by rw [custody.outside _ external]; simp)
      · rw [operator, ← mine, owned]
      · exact absurd owned (by rw [nobody fresh.1]; simp)
  · rcases either member with old | rfl
    · exact custody.mains rotates other old
    · exact mains rotates
  · obtain ⟨fresh, apart⟩ := payer cooker
    rcases either member with old | rfl
    · obtain ⟨unowned, inside, unpaid⟩ := custody.payers cooker other old
      refine ⟨unowned, inside, fun paid paidMember equal => ?_⟩
      rcases either paidMember with paidOld | rfl
      · exact unpaid paid paidOld equal
      · rw [equal] at place
        rcases place with external | owned | unknown
        · exact inside external
        · exact absurd owned (by rw [unowned]; simp)
        · exact unknown.1 (custody.mentioned other old).2
    · refine ⟨nobody fresh, fun external => fresh (custody.known _ (Or.inr external)),
        fun paid paidMember equal => ?_⟩
      rcases either paidMember with paidOld | rfl
      · exact fresh (by rw [← equal]; exact (custody.mentioned paid paidOld).1)
      · exact apart equal

/-- A fresh successor in an operational place of a table takes the owner of the table. -/
theorem Custody.adopt {index subIdx : Nat} {agent : Agent} {successor : AccountId}
    (custody : Custody cfg externals owner ⟨agents, chain, drawn⟩)
    (found : agents[index]? = some agent) (operational : 0 < subIdx)
    (fresh : successor ∉ drawn) :
    Custody cfg externals (Function.update owner successor (some index))
      ⟨agents.set index { agent with subaccounts := agent.subaccounts.set subIdx successor },
        chain, drawn ++ [successor]⟩ := by
  have kept {account : AccountId} (inDrawn : account ∈ drawn) :
      Function.update owner successor (some index) account = owner account :=
    Function.update_of_ne (fun equal => fresh (by rw [← equal]; exact inDrawn)) _ _
  have bound := (List.getElem?_eq_some_iff.mp found).1
  have owned {index : Nat} {agent : Agent} (found : agents[index]? = some agent)
      {account : AccountId} (own : account ∈ agent.subaccounts) : account ∈ drawn :=
    custody.drawn_of_owner (custody.held index agent found account own)
  refine ⟨fun other next atOther => ?_, fun other next atOther account member => ?_,
    fun account id owned => ?_, fun account external => ?_, fun account place => ?_,
    fun record member => ?_, fun record member => ?_, fun record member id paid => ?_,
    fun rotates record member main => ?_, fun cooker record member => ?_⟩
  · by_cases same : index = other
    · subst same
      rw [List.getElem?_set_self bound] at atOther
      rw [← Option.some.inj atOther]
      refine ⟨(custody.agents index agent found).id, ?_⟩
      rw [List.getElem?_set_ne operational.ne']
      exact (custody.agents index agent found).main
    · rw [List.getElem?_set_ne same] at atOther
      exact custody.agents other next atOther
  · by_cases same : index = other
    · subst same
      rw [List.getElem?_set_self bound] at atOther
      rw [← Option.some.inj atOther] at member
      rcases List.mem_or_eq_of_mem_set member with old | rfl
      · rw [kept (owned found old)]
        exact custody.held index agent found account old
      · exact Function.update_self _ _ _
    · rw [List.getElem?_set_ne same] at atOther
      rw [kept (owned atOther member)]
      exact custody.held other next atOther account member
  · rw [List.length_set]
    by_cases same : account = successor
    · rw [same, Function.update_self] at owned
      rw [← Option.some.inj owned]
      exact bound
    · rw [Function.update_of_ne same] at owned
      exact custody.owners account id owned
  · rw [kept (custody.known account (Or.inr external))]
    exact custody.outside account external
  · by_cases same : account = successor
    · exact List.mem_append_right _ (List.mem_singleton.mpr same)
    · rw [Function.update_of_ne same] at place
      exact List.mem_append_left _ (custody.known account place)
  · exact ⟨List.mem_append_left _ (custody.mentioned record member).1,
      List.mem_append_left _ (custody.mentioned record member).2⟩
  · obtain ⟨id, operator, signer⟩ := custody.signed record member
    exact ⟨id, operator, by rw [kept (custody.drawn_of_owner signer), signer]⟩
  · rw [kept (custody.mentioned record member).1] at paid
    exact custody.toward record member id paid
  · rw [show _ = agents.map _ from mains_set found _] at main
    exact custody.mains rotates record member main
  · rw [kept (custody.mentioned record member).2]
    exact custody.payers cooker record member

end Records

/-! ### Steps -/

section Emissions

variable {cfg : SimConfig} {externals : List AccountId} {agent after : Agent} {tx : PlannedTx}
  {feePayer : AccountId} {ids : List AccountId}

/-- A record pays an external, an account of its agent, or an address drawn for it. -/
theorem Emission.place (built : agent.main ∈ agent.subaccounts)
    (emission : Emission cfg externals agent tx feePayer after ids) (distinct : ids.Nodup) :
    tx.dest ∈ externals ∨ tx.dest ∈ after.subaccounts ∨ tx.dest ∈ ids ∧ tx.dest ≠ feePayer := by
  cases emission with
  | naivePay source dest amount kind _ own outward =>
    exact outward.imp_right (fun back => Or.inl (by rw [back]; exact own))
  | naiveConsolidate => exact Or.inr (Or.inl built)
  | legacyPay source dest amount kind feePayer _ _ own outward =>
    exact outward.imp_right (fun back => Or.inl back.1)
  | legacyChurn source churn amount feePayer =>
    refine Or.inr (Or.inr ⟨List.mem_cons_self, fun equal => ?_⟩)
    exact (List.nodup_cons.mp distinct).1 (List.mem_singleton.mpr equal)
  | pay source dest amount kind feePayer _ own outward =>
    exact outward.imp_right (fun back => Or.inl (by rw [back.1]; exact own))
  | rotate subIdx source successor amount feePayer _ _ _ atSource =>
    exact Or.inr (Or.inl (List.mem_set (List.getElem?_eq_some_iff.mp atSource).1 _))
  | sweep => exact Or.inr (Or.inl built)

/-- Who pays the fee: the main account of a naive agent, a fresh account otherwise. -/
theorem Emission.payer (built : agent.main ∈ agent.subaccounts)
    (emission : Emission cfg externals agent tx feePayer after ids) :
    feePayer ∈ agent.subaccounts ++ ids ∧ (cfg.mode = .cooker → feePayer ∈ ids) := by
  cases mode : cfg.mode with
  | naive =>
    obtain ⟨_, rfl, _⟩ := emission.naive mode
    exact ⟨List.mem_append_left _ built, fun cooker => absurd cooker (by simp)⟩
  | cooker =>
    obtain ⟨_, joined, rfl, _⟩ := emission.cooker mode
    have member : feePayer ∈ joined ++ [feePayer] := List.mem_append_right _ List.mem_cons_self
    exact ⟨List.mem_append_right _ member, fun _ => member⟩

/-- A rotating run pays a main account nothing, and only from itself. -/
theorem Emission.toward_main (rotates : cfg.Rotates)
    (emission : Emission cfg externals agent tx feePayer after ids) :
    tx.dest ∈ externals ∨ tx.dest = tx.source ∧ tx.amount = 0 ∨ tx.dest ∈ ids := by
  cases emission with
  | naivePay _ _ _ _ naive | naiveConsolidate _ _ naive =>
    exact absurd ((naive_unhardened naive).symm.trans rotates.hardened) (by simp)
  | legacyPay _ _ _ _ _ _ legacy | legacyChurn _ _ _ _ _ legacy =>
    exact absurd (legacy.symm.trans rotates.hardened) (by simp)
  | sweep _ _ _ _ _ directHub =>
    exact absurd (directHub.symm.trans rotates.strategy) (by simp)
  | pay source dest amount kind feePayer _ _ outward => exact outward.imp_right Or.inl
  | rotate => exact Or.inr (Or.inr List.mem_cons_self)

/-- The source of a record is an account of its agent. -/
theorem Emission.own (emission : Emission cfg externals agent tx feePayer after ids) :
    tx.source ∈ agent.subaccounts := by
  cases mode : cfg.mode with
  | naive => exact (emission.naive mode).1
  | cooker => exact (emission.cooker mode).1

end Emissions

/-- A step keeps the owners, and gives one to what it draws into a table. -/
theorem step_custody {cfg : SimConfig} {externals : List AccountId}
    {owner : AccountId → Option AgentId} {before after : View}
    (custody : Custody cfg externals owner before) (step : Step cfg externals before after)
    (distinct : after.drawn.Nodup) :
    ∃ extended, Custody cfg externals extended after ∧
      ∀ account ∈ before.drawn, extended account = owner account := by
  cases step with
  | tick agents chain drawn ts later =>
    exact ⟨owner, ⟨custody.agents, custody.held, custody.owners, custody.outside, custody.known,
      custody.mentioned, custody.signed, custody.toward, custody.mains, custody.payers⟩,
      fun account member => rfl⟩
  | act agents chain drawn index agent next found move =>
    cases move with
    | mk chain agent drawn ts tx feePayer after ids recorded timely emission appended =>
      have written := congrArg (fun chain => chain.ledger.records) (record_eq appended)
      simp only at written
      have built := List.mem_of_getElem? (custody.agents index agent found).main
      have own := custody.held index agent found
      have id : some agent.id = some index := congrArg some (custody.agents index agent found).id
      have fresh {account : AccountId} (member : account ∈ ids) : account ∉ drawn :=
        fun old => (List.nodup_append.mp distinct).2.2 _ old _ member rfl
      have mainDrawn {account : AccountId} (main : account ∈ agents.map (·.main)) :
          account ∈ drawn := by
        obtain ⟨other, member, rfl⟩ := List.mem_map.mp main
        obtain ⟨index, found⟩ := List.mem_iff_getElem?.mp member
        exact custody.drawn_of_owner (custody.held index other found _
          (List.mem_of_getElem? (custody.agents index other found).main))
      have signs := emission.own
      have place := emission.place built (List.nodup_append.mp distinct).2.1
      obtain ⟨feePayerPlace, feePayerFresh⟩ := emission.payer built
      have mains (rotates : cfg.Rotates) (main : tx.dest ∈ agents.map (·.main)) :
          tx.dest = tx.source ∧ tx.amount = 0 := by
        rcases emission.toward_main rotates with external | back | new
        · obtain ⟨other, member, equal⟩ := List.mem_map.mp main
          obtain ⟨index, found⟩ := List.mem_iff_getElem?.mp member
          have owned := custody.held index other found _
            (List.mem_of_getElem? (custody.agents index other found).main)
          rw [equal, custody.outside _ external] at owned
          exact absurd owned (by simp)
        · exact back
        · exact absurd (mainDrawn main) (fresh new)
      have unchanged (same : after = agent) : ∃ extended, Custody cfg externals extended
          ⟨agents.set index after, recorded, drawn ++ ids⟩ ∧
            ∀ account ∈ drawn, extended account = owner account := by
        subst same
        obtain ⟨bound, here⟩ := List.getElem?_eq_some_iff.mp found
        refine ⟨owner, ?_, fun account _ => rfl⟩
        rw [show agents.set index after = agents by rw [← here, List.set_getElem_self]]
        refine custody.payment written id (own tx.source signs) ?_ ?_ mains (fun cooker => ?_)
        · exact place.imp_right (Or.imp (own tx.dest) (fun new => ⟨fresh new.1, new.1⟩))
        · rcases List.mem_append.mp feePayerPlace with old | new
          · exact List.mem_append_left _ (custody.drawn_of_owner (own _ old))
          · exact List.mem_append_right _ new
        · refine ⟨fresh (feePayerFresh cooker), fun equal => ?_⟩
          rcases place with external | held | new
          · refine fresh (feePayerFresh cooker) ?_
            rw [← show tx.dest = feePayer from equal]
            exact custody.known _ (Or.inr external)
          · refine fresh (feePayerFresh cooker) ?_
            rw [← show tx.dest = feePayer from equal]
            exact custody.drawn_of_owner (own _ held)
          · exact new.2 equal
      cases emission with
      | rotate subIdx source successor amount feePayer hardened strategy operational atSource =>
        have unknown := fresh List.mem_cons_self
        have adopted := custody.adopt found operational unknown
        have kept (account : AccountId) (member : account ∈ drawn) :
            Function.update owner successor (some index) account = owner account :=
          Function.update_of_ne (fun equal => unknown (by rw [← equal]; exact member)) _ _
        have payerFresh := fresh (List.mem_cons_of_mem _ List.mem_cons_self)
        have payerApart : feePayer ≠ successor := fun equal =>
          (List.nodup_cons.mp (List.nodup_append.mp distinct).2.1).1 (by rw [equal]; simp)
        refine ⟨_, ?_, kept⟩
        show Custody cfg externals _ ⟨_, recorded, drawn ++ ([successor] ++ [feePayer])⟩
        rw [← List.append_assoc]
        refine adopted.payment written id ?_ (Or.inr (Or.inl (Function.update_self _ _ _)))
          (List.mem_append_right _ List.mem_cons_self) (fun _ main => ?_) (fun _ => ⟨?_, ?_⟩)
        · show Function.update owner successor (some index) source = _
          rw [kept source (custody.drawn_of_owner (own source (List.mem_of_getElem? atSource)))]
          exact own source (List.mem_of_getElem? atSource)
        · rw [show _ = agents.map _ from mains_set found _] at main
          exact absurd (mainDrawn main) unknown
        · rw [List.mem_append, List.mem_singleton, not_or]
          exact ⟨payerFresh, payerApart⟩
        · exact payerApart.symm
      | _ => exact unchanged rfl

/-- At the start an account belongs to the agent that holds it. -/
theorem fresh_custody {Generator : Type} {cfg : SimConfig} {built : RunState Generator}
    {ids : List AccountId} (fresh : Fresh cfg ids built) (distinct : ids.Nodup) :
    ∃ owner, Custody cfg built.externals owner (built.view ids) := by
  have empty : built.chain.ledger.records = [] := by rw [fresh.chain]; rfl
  have nothing {record : TxRecord} {proposition : Prop}
      (member : record ∈ built.chain.ledger.records) : proposition := by
    rw [empty] at member
    exact absurd member List.not_mem_nil
  rw [fresh.ids] at distinct
  obtain ⟨_, apart, outside⟩ := List.nodup_append.mp distinct
  let owner (account : AccountId) : Option AgentId :=
    built.agents.findIdx? (fun agent => account ∈ agent.subaccounts)
  have owned {account : AccountId} {id : AgentId} (found : owner account = some id) :
      ∃ agent, built.agents[id]? = some agent ∧ account ∈ agent.subaccounts := by
    obtain ⟨bound, holds, _⟩ := List.findIdx?_eq_some_iff_getElem.mp found
    exact ⟨_, List.getElem?_eq_getElem bound, of_decide_eq_true holds⟩
  refine ⟨owner, fresh.agents, fun index agent found account member => ?_,
    fun account id holder => ?_, fun account external => ?_, fun account place => ?_,
    fun record member => nothing member, fun record member => nothing member,
    fun record member => nothing member,
    fun _ record member => nothing member, fun _ record member => nothing member⟩
  · cases holder : owner account with
    | none =>
      have nobody := List.findIdx?_eq_none_iff.mp holder agent (List.mem_of_getElem? found)
      exact absurd member (of_decide_eq_false nobody)
    | some id =>
      obtain ⟨other, atOther, own⟩ := owned holder
      rw [agent_unique apart atOther found own member]
  · obtain ⟨agent, found, _⟩ := owned holder
    exact (List.getElem?_eq_some_iff.mp found).1
  · refine List.findIdx?_eq_none_iff.mpr (fun agent inAgents => decide_eq_false (fun own => ?_))
    exact outside _ external _ (List.mem_flatMap.mpr ⟨agent, inAgents, own⟩) rfl
  · show account ∈ ids
    rw [fresh.ids]
    rcases place with held | external
    · obtain ⟨id, holder⟩ := Option.isSome_iff_exists.mp held
      obtain ⟨agent, found, own⟩ := owned holder
      exact List.mem_append_right _ (mem_held found own)
    · exact List.mem_append_left _ external

/-! ### Who signs in a wake -/

/-- Records were only added to a chain, and all of one sort. -/
structure Adds (sort : TxRecord → Prop) (chain after : MockChain) : Prop where
  grown : chain.ledger.records <+: after.ledger.records
  added : ∀ record ∈ after.ledger.records, record ∈ chain.ledger.records ∨ sort record

theorem Adds.refl {sort : TxRecord → Prop} (chain : MockChain) : Adds sort chain chain :=
  ⟨List.prefix_rfl, fun _ member => Or.inl member⟩

theorem Adds.trans {sort : TxRecord → Prop} {chain middle after : MockChain}
    (first : Adds sort chain middle) (second : Adds sort middle after) : Adds sort chain after :=
  ⟨first.grown.trans second.grown, fun record member =>
    (second.added record member).elim (first.added record) Or.inr⟩

theorem Adds.append {sort : TxRecord → Prop} {chain middle after : MockChain} {record : TxRecord}
    (added : Adds sort chain middle)
    (appended : after.ledger.records = middle.ledger.records ++ [record]) (sorted : sort record) :
    Adds sort chain after := by
  refine added.trans ⟨appended ▸ List.prefix_append _ _, fun other member => ?_⟩
  rw [appended] at member
  refine (List.mem_append.mp member).imp_right (fun new => ?_)
  rw [List.mem_singleton.mp new]
  exact sorted

theorem Adds.record {sort : TxRecord → Prop} {chain middle after : MockChain} {tx : PlannedTx}
    {feePayer : AccountId} {operator : Option AgentId} (added : Adds sort chain middle)
    (appended : middle.record tx feePayer operator = some after)
    (sorted : sort (middle.stamp tx feePayer operator)) : Adds sort chain after :=
  added.append (congrArg (fun chain => chain.ledger.records) (record_eq appended)) sorted

/-- The clock of a chain is no record. -/
theorem Adds.ticked {sort : TxRecord → Prop} {chain after : MockChain} {ts : Int}
    (added : Adds sort (chain.setTime ts) after) : Adds sort chain after :=
  ⟨added.grown, added.added⟩

theorem Adds.tick {sort : TxRecord → Prop} {chain after : MockChain}
    (added : Adds sort chain after) (ts : Int) : Adds sort chain (after.setTime ts) :=
  ⟨added.grown, added.added⟩

/-- All records written since a chain are signed by accounts of a table. -/
def SignedBy (table : List AccountId) : MockChain → MockChain → Prop :=
  Adds fun record => record.source ∈ table

/-- A sequence of moves that ends without a new account in the table never changed it. -/
theorem moves_signed {cfg : SimConfig} {externals : List AccountId} {start last : Acting}
    (moves : Moves cfg externals start last)
    (known : ∀ account ∈ start.agent.subaccounts, account ∈ start.drawn)
    (distinct : last.drawn.Nodup) :
    (last.agent.subaccounts = start.agent.subaccounts ∧
      SignedBy start.agent.subaccounts start.chain last.chain ∨
        ∃ joined ∈ last.agent.subaccounts, joined ∉ start.agent.subaccounts) ∧
      ∀ account ∈ start.drawn, account ∈ last.drawn := by
  induction moves with
  | refl => exact ⟨Or.inl ⟨rfl, Adds.refl _⟩, fun account member => member⟩
  | tail _ move inductionHypothesis =>
    cases move with
    | mk chain agent drawn ts tx feePayer after ids recorded timely emission appended =>
      obtain ⟨sofar, grown⟩ := inductionHypothesis (List.nodup_append.mp distinct).1
      have written := congrArg (fun chain => chain.ledger.records) (record_eq appended)
      simp only at written
      have own := emission.own
      have unchanged (same : after.subaccounts = agent.subaccounts) :
          after.subaccounts = start.agent.subaccounts ∧
            SignedBy start.agent.subaccounts start.chain recorded ∨
              ∃ joined ∈ after.subaccounts, joined ∉ start.agent.subaccounts := by
        rw [same]
        refine sofar.imp_left (fun both => ⟨both.1, both.2.append written ?_⟩)
        rw [← both.1]
        exact own
      refine ⟨?_, fun account member => List.mem_append_left _ (grown account member)⟩
      cases emission with
      | rotate subIdx source successor amount feePayer _ _ _ atSource =>
        refine Or.inr ⟨successor, List.mem_set (List.getElem?_eq_some_iff.mp atSource).1 _,
          fun old => ?_⟩
        exact (List.nodup_append.mp distinct).2.2 _ (grown _ (known _ old)) _
          List.mem_cons_self rfl
      | _ => exact unchanged rfl

section Wakes

variable {Generator : Type}

theorem swap_perm {Item : Type} {items swapped : List Item} {i j : Nat}
    (exchanged : swap items i j = some swapped) : swapped.Perm items := by
  simp only [swap, Option.bind_eq_bind, Option.bind_eq_some_iff] at exchanged
  obtain ⟨first, atFirst, second, atSecond, equal⟩ := exchanged
  obtain ⟨firstBound, rfl⟩ := List.getElem?_eq_some_iff.mp atFirst
  obtain ⟨secondBound, rfl⟩ := List.getElem?_eq_some_iff.mp atSecond
  rw [← Option.some.inj equal]
  exact List.set_set_perm firstBound secondBound

variable [Rng Generator]

/-- The shuffle picks distinct indices. -/
theorem sweepIndices_nodup (n k : Nat) :
    Silent (sweepIndices n k : Draw Generator (List Nat)) (fun idxs => idxs.Nodup) := by
  have shuffled : Silent
      ((List.range k).foldlM (shuffleStep (n - 1)) (List.range' 1 (n - 1)) :
        Draw Generator (List Nat)) (fun idxs => idxs.Nodup) := by
    refine Yields.mono (yields_foldlM
      (fun ids (idxs : List Nat) => ids = [] ∧ idxs.Nodup) _ _ ?_ [] _ ⟨rfl, List.nodup_range'⟩)
      (fun ids idxs both => both)
    rintro ids idxs ⟨rfl, distinct⟩ i _
    refine Silent.bind (yields_checked _) (fun left _ => ?_)
    refine Silent.bind (yields_randomIndex left) (fun offset _ => ?_)
    exact (yields_checked _).mono
      (fun swapped exchanged => (swap_perm exchanged).nodup_iff.mpr distinct)
  refine Silent.bind shuffled (fun idxs distinct => ?_)
  refine (yields_pure _).mono ?_
  rintro taken rfl
  exact distinct.sublist (List.take_sublist _ _)

variable [Libm] {cfg : SimConfig} {externals : List AccountId}

/-- A rotation at one place is signed by the account in that place, and leaves the others. -/
theorem rotateOne_signed {rotating : Rotating} {table : List AccountId} {chain : MockChain}
    {subIdx : Nat} (signed : SignedBy table chain rotating.clocked.chain)
    (here : ∀ source, rotating.agent.subaccounts[subIdx]? = some source → source ∈ table) :
    Yields (rotateOne cfg rotating subIdx : Draw Generator Rotating)
      (fun _ next => SignedBy table chain next.clocked.chain ∧
        ∀ other, other ≠ subIdx →
          next.agent.subaccounts[other]? = rotating.agent.subaccounts[other]?) := by
  refine Silent.bind (yields_checked _) (fun source found => ?_)
  refine yields_bind yields_randomAccount (fun _ successor _ => ?_)
  refine Silent.bind (advance_silent rotating.clocked cfg) (fun moved advanced => ?_)
  refine Silent.bind (Persona.sampleAmount_silent _) (fun amount _ => ?_)
  refine yields_bind yields_randomAccount (fun _ feePayer _ => ?_)
  have recorded : Silent (moved.record rotating.agent
      ⟨source, successor, amount, .transfer⟩ feePayer : Draw Generator Clocked)
      (fun next => SignedBy table chain next.chain) := by
    refine Silent.bind (yields_checked _) (fun after appended => ?_)
    refine (yields_pure _).mono ?_
    rintro next rfl
    have written := congrArg (fun chain => chain.ledger.records) (record_eq appended)
    rw [advanced.2] at written
    exact signed.append written (here source found)
  refine Silent.bind recorded (fun next holds => ?_)
  refine Yields.mono (yields_pure _) ?_
  rintro _ rotated ⟨rfl, rfl⟩
  exact ⟨holds, fun other different => List.getElem?_set_ne different.symm⟩

/-- A rotating wake is signed by accounts of the table it found: the places it rotates are
distinct. -/
theorem rotateAccounts_signed {clocked : Clocked} {agent : Agent} {chain : MockChain}
    (signed : SignedBy agent.subaccounts chain clocked.chain) :
    Yields (rotateAccounts cfg clocked agent : Draw Generator Rotating)
      (fun _ next => SignedBy agent.subaccounts chain next.clocked.chain) := by
  have loop (idxs : List Nat) (distinct : idxs.Nodup) (rotating : Rotating)
      (sofar : SignedBy agent.subaccounts chain rotating.clocked.chain)
      (kept : ∀ idx ∈ idxs, rotating.agent.subaccounts[idx]? = agent.subaccounts[idx]?) :
      Yields (idxs.foldlM (rotateOne cfg) rotating : Draw Generator Rotating)
        (fun _ next => SignedBy agent.subaccounts chain next.clocked.chain) := by
    induction idxs generalizing rotating with
    | nil =>
      refine Yields.mono (yields_pure rotating) ?_
      rintro _ next ⟨_, rfl⟩
      exact sofar
    | cons subIdx rest inductionHypothesis =>
      obtain ⟨apart, later⟩ := List.nodup_cons.mp distinct
      rw [List.foldlM_cons]
      refine yields_bind (rotateOne_signed sofar (fun source found => ?_)) (fun _ next both => ?_)
      · rw [kept subIdx List.mem_cons_self] at found
        exact List.mem_of_getElem? found
      · refine inductionHypothesis later next both.1 (fun idx member => ?_)
        rw [both.2 idx (fun equal => apart (by rw [← equal]; exact member))]
        exact kept idx (List.mem_cons_of_mem _ member)
  unfold rotateAccounts
  split
  · refine Yields.mono (yields_pure _) ?_
    rintro _ next ⟨_, rfl⟩
    exact signed
  · refine Silent.bind (yields_checked _) (fun kmax _ => ?_)
    refine Silent.bind (yields_checked _) (fun kmin _ => ?_)
    refine Silent.bind (sweepCount_silent kmin kmax) (fun k _ => ?_)
    refine Silent.bind (sweepIndices_nodup _ k) (fun idxs distinct => ?_)
    exact loop idxs distinct ⟨clocked, agent⟩ signed (fun _ _ => rfl)

/-- A wake either leaves its agent alone or is signed by the table it found. -/
theorem wake_signed {best : Int} {chain : MockChain} {agent : Agent} {subIdx : Option Nat}
    {woken : Woken} {before after : Tape Generator}
    (woke : wake cfg externals best chain agent subIdx before = some (woken, after)) :
    woken.agent = agent ∨ SignedBy agent.subaccounts chain woken.chain := by
  cases subIdx with
  | none =>
    obtain ⟨acted, _, _, scheduled⟩ := bind_eq_some.mp woke
    obtain ⟨delay, _, _, finished⟩ := bind_eq_some.mp scheduled
    obtain ⟨rfl, _⟩ := pure_eq_some.mp finished
    exact Or.inl rfl
  | some k =>
    obtain ⟨acted, _, ran, scheduled⟩ := bind_eq_some.mp woke
    obtain ⟨sub, _, _, timed⟩ := bind_eq_some.mp scheduled
    obtain ⟨delay, _, _, held⟩ := bind_eq_some.mp timed
    obtain ⟨d, _, _, finished⟩ := bind_eq_some.mp held
    obtain ⟨rfl, _⟩ := pure_eq_some.mp finished
    obtain ⟨source, _, _, decided⟩ := bind_eq_some.mp ran
    obtain ⟨unit, _, _, chosen⟩ := bind_eq_some.mp decided
    split at chosen
    · obtain ⟨rotated, _, maintained, finished⟩ := bind_eq_some.mp chosen
      obtain ⟨rfl, _⟩ := pure_eq_some.mp finished
      unfold maintain at maintained
      cases strategy : cfg.hardening.rebalance with
      | rotateAccounts =>
        rw [strategy] at maintained
        have unsigned : SignedBy agent.subaccounts chain chain := Adds.refl chain
        obtain ⟨_, _, signed⟩ := rotateAccounts_signed unsigned _ _ _ maintained
        exact Or.inr signed
      | directHub =>
        rw [strategy] at maintained
        obtain ⟨swept, _, rfl⟩ := map_eq_some.mp maintained
        exact Or.inl rfl
    · obtain ⟨moved, _, _, finished⟩ := bind_eq_some.mp chosen
      obtain ⟨rfl, _⟩ := pure_eq_some.mp finished
      exact Or.inl rfl

end Wakes

/-! ### Boundaries of a run -/

/-- The steps of a run keep the owners. -/
theorem steps_custody {cfg : SimConfig} {externals : List AccountId}
    {owner : AccountId → Option AgentId} {before after : View}
    (custody : Custody cfg externals owner before)
    (steps : Steps cfg externals before after) (distinct : after.drawn.Nodup) :
    ∃ extended, Custody cfg externals extended after ∧
      ∀ account ∈ before.drawn, account ∈ after.drawn ∧ extended account = owner account := by
  induction steps with
  | refl => exact ⟨owner, custody, fun account member => ⟨member, rfl⟩⟩
  | tail _ last inductionHypothesis =>
    have grown := step_drawn last
    obtain ⟨middle, holds, kept⟩ := inductionHypothesis (distinct.sublist grown)
    obtain ⟨extended, concluded, agrees⟩ := step_custody holds last distinct
    refine ⟨extended, concluded, fun account member => ?_⟩
    obtain ⟨known, same⟩ := kept account member
    exact ⟨grown.subset known, (agrees account known).trans same⟩

section Boundaries

variable {Generator : Type} [Rng Generator] [Libm]

/-- The states at the boundaries of the loop, from a state on. -/
def RunState.boundaries : Nat → RunState Generator → List (RunState Generator)
  | 0, _ => []
  | fuel + 1, st =>
    st :: if st.done then []
      else match st.event with
        | none => []
        | some next => next.boundaries fuel

/-- A run keeps what its events keep. Where every event adds only records of one sort, unless the
state it happens in is marked, and one of a marked state adds a record that is odd, the run adds
only records of that sort if it visits no marked state, and an odd record if it visits one. -/
theorem runCore_adds (invariant : RunState Generator → Prop)
    {marked : RunState Generator → Bool} {sort odd : TxRecord → Prop}
    (step : ∀ st next ids, invariant st → st.serve = some (next, ids) →
      invariant next ∧ st.chain.ledger.records <+: next.chain.ledger.records ∧
        (marked st = false → Adds sort st.chain next.chain) ∧
        (marked st = true → ∃ record ∈ next.chain.ledger.records, odd record))
    (fuel : Nat) {st final : RunState Generator} (start : invariant st)
    (ran : runCore (nullSink Generator) fuel st () = Outcome.returned (final, ())) :
    st.chain.ledger.records <+: final.chain.ledger.records ∧
      ((∀ visited ∈ st.boundaries fuel, visited.done = false → marked visited = false) →
        Adds sort st.chain final.chain) ∧
      ∀ visited ∈ st.boundaries fuel, visited.done = false → marked visited = true →
        ∃ record ∈ final.chain.ledger.records, odd record := by
  induction fuel generalizing st with
  | zero => exact absurd ran (by simp [runCore, pure])
  | succ fuel inductionHypothesis =>
    rw [runCore_succ] at ran
    unfold RunState.boundaries
    by_cases done : st.done = true
    · rw [if_pos done] at ran ⊢
      obtain ⟨rfl, _⟩ := Prod.mk.inj (Outcome.returned.inj ran)
      refine ⟨List.prefix_rfl, fun _ => Adds.refl _, fun visited member due => ?_⟩
      rw [List.mem_singleton.mp member, done] at due
      exact absurd due (by simp)
    · rw [if_neg done] at ran ⊢
      unfold RunState.event at ran ⊢
      cases served : st.serve with
      | none =>
        rw [served] at ran
        exact absurd ran (by simp)
      | some result =>
        rw [served] at ran
        obtain ⟨next, ids⟩ := result
        obtain ⟨later, grown, sorted, astray⟩ := step st next ids start served
        obtain ⟨kept, clean, found⟩ := inductionHypothesis later ran
        refine ⟨grown.trans kept, fun quiet => ?_, fun visited member due mark => ?_⟩
        · have here := sorted (quiet st List.mem_cons_self (Bool.eq_false_of_not_eq_true done))
          exact here.trans
            (clean fun visited member => quiet visited (List.mem_cons_of_mem _ member))
        · rcases List.mem_cons.mp member with rfl | after
          · obtain ⟨record, inNext, strange⟩ := astray mark
            exact ⟨record, kept.subset inNext, strange⟩
          · exact found visited after due mark

/-- An agent holds an account at some boundary of a run. -/
def HeldAt (states : List (RunState Generator)) (id : AgentId) (account : AccountId) : Prop :=
  ∃ st ∈ states, ∃ agent, st.agents[id]? = some agent ∧ account ∈ agent.subaccounts

variable {personas : List Persona} {cfg : SimConfig} {built st : RunState Generator}
  {first ids : List AccountId}

/-- The owners of a reached state. -/
theorem ReachedBy.custody (reached : ReachedBy personas cfg built st first ids)
    (distinct : ids.Nodup) : ∃ owner, Custody cfg st.externals owner (st.view ids) := by
  refine reached.holdsDistinct
    (fun externals view => ∃ owner, Custody cfg externals owner view)
    (fun built first fresh nodup => fresh_custody fresh nodup)
    (fun externals before after holds step nodup => ?_) distinct
  obtain ⟨owner, custody⟩ := holds
  obtain ⟨extended, concluded, _⟩ := step_custody custody step nodup
  exact ⟨extended, concluded⟩

/-- What an event writes is signed by accounts that their operator held at the boundary before
it. -/
theorem serve_signed {next : RunState Generator} {more : List AccountId}
    {owner : AccountId → Option AgentId} (engine : EngineSchedule st)
    (custody : Custody cfg st.externals owner (st.view ids))
    (served : st.serve = some (next, more)) (config : st.cfg = cfg)
    (distinct : (ids ++ more).Nodup) :
    ∃ extended, Custody cfg next.externals extended (next.view (ids ++ more)) ∧
      (∀ account ∈ ids, extended account = owner account) ∧
      ∀ record ∈ next.chain.ledger.records, record ∈ st.chain.ledger.records ∨
        ∃ id agent, record.operator = some id ∧ st.agents[id]? = some agent ∧
          record.source ∈ agent.subaccounts := by
  obtain ⟨due, rest, facts⟩ := serve_served served
  obtain ⟨entry, agent, woken, atEntry, found, woke, agents, chain, _⟩ := facts.acted
  have steps := serve_steps engine served ids
  rw [config] at steps
  obtain ⟨extended, concluded, agrees⟩ := steps_custody custody steps distinct
  rw [← facts.externals] at concluded
  refine ⟨extended, concluded, fun account member => (agrees account member).2,
    fun record member => ?_⟩
  have signed : SignedBy agent.subaccounts (st.chain.setTime (max due.1 st.chain.now))
      next.chain := by
    rw [chain]
    have own (account : AccountId) (member : account ∈ agent.subaccounts) : account ∈ ids ++ [] :=
      List.mem_append_left _ (custody.drawn_of_owner (custody.held _ agent found account member))
    obtain ⟨drew, drawn, moves⟩ := wake_moves due.1 (engine entry (List.mem_of_getElem? atEntry))
      _ _ _ woke
    obtain rfl : more = drew := drawn
    have shifted := moves_signed (moves_shift moves ids) own distinct
    rcases wake_signed woke with same | signed
    · rcases shifted.1 with ⟨_, signed⟩ | ⟨joined, new, old⟩
      · exact signed
      · exact absurd (show joined ∈ agent.subaccounts by rw [← same]; exact new) old
    · exact signed
  refine (signed.ticked.added record member).imp_right (fun own => ?_)
  obtain ⟨id, operator, signer⟩ := concluded.signed record member
  have held := custody.held entry.agentIdx agent found record.source own
  rw [(agrees _ (custody.drawn_of_owner held)).2, held] at signer
  obtain rfl := Option.some.inj signer
  exact ⟨entry.agentIdx, agent, operator, found, own⟩

/-- In a run to its end every record is signed by an account that its operator held at some
boundary, and no account is held by two agents. -/
theorem runCore_custody (fuel : Nat) {owner : AccountId → Option AgentId}
    {final : RunState Generator} (engine : EngineSchedule st)
    (custody : Custody cfg st.externals owner (st.view ids)) (config : st.cfg = cfg)
    (distinct : (ids ++ servedIds fuel st).Nodup)
    (ran : runCore (nullSink Generator) fuel st () = Outcome.returned (final, ())) :
    ∃ extended, Custody cfg final.externals extended (final.view (ids ++ servedIds fuel st)) ∧
      (∀ account ∈ ids, extended account = owner account) ∧
      (∀ id account, HeldAt (st.boundaries fuel) id account → extended account = some id) ∧
      ∀ record ∈ final.chain.ledger.records, record ∈ st.chain.ledger.records ∨
        ∃ id, record.operator = some id ∧ HeldAt (st.boundaries fuel) id record.source := by
  induction fuel generalizing st ids owner with
  | zero => exact absurd ran (by simp [runCore, pure])
  | succ fuel inductionHypothesis =>
    rw [runCore_succ] at ran
    unfold servedIds at distinct ⊢
    unfold RunState.boundaries
    by_cases done : st.done = true
    · rw [if_pos done] at ran distinct ⊢
      obtain ⟨rfl, _⟩ := Prod.mk.inj (Outcome.returned.inj ran)
      rw [List.append_nil, if_pos done]
      refine ⟨owner, custody, fun account _ => rfl, ?_, fun record member => Or.inl member⟩
      rintro id account ⟨visited, member, agent, found, own⟩
      rw [List.mem_singleton.mp member] at found
      exact custody.held id agent found account own
    · rw [if_neg done] at ran distinct ⊢
      rw [if_neg done]
      unfold RunState.event at ran ⊢
      cases served : st.serve with
      | none =>
        rw [served] at ran
        exact absurd ran (by simp)
      | some result =>
        rw [served] at ran distinct
        obtain ⟨next, more⟩ := result
        have grown : ids ++ (more ++ servedIds fuel next) =
            (ids ++ more) ++ servedIds fuel next := (List.append_assoc _ _ _).symm
        show ∃ extended, Custody cfg final.externals extended
            (final.view (ids ++ (more ++ servedIds fuel next))) ∧ (∀ account ∈ ids, _) ∧
          (∀ id account, HeldAt (st :: next.boundaries fuel) id account → _) ∧
          ∀ record ∈ final.chain.ledger.records, _ ∨
            ∃ id, _ ∧ HeldAt (st :: next.boundaries fuel) id record.source
        have grows : (ids ++ (more ++ servedIds fuel next)).Nodup := distinct
        rw [grown] at grows ⊢
        obtain ⟨due, rest, facts⟩ := serve_served served
        have later := engine.serve served
        obtain ⟨middle, between, agrees, signed⟩ := serve_signed engine custody served config
          (List.nodup_append.mp grows).1
        obtain ⟨extended, concluded, grownOwner, visited, written⟩ :=
          inductionHypothesis later between (facts.cfg.trans config) grows ran
        have same (account : AccountId) (member : account ∈ ids) :
            extended account = owner account :=
          (grownOwner account (List.mem_append_left _ member)).trans (agrees account member)
        have wider {id : AgentId} {account : AccountId}
            (held : HeldAt (next.boundaries fuel) id account) :
            HeldAt (st :: next.boundaries fuel) id account := by
          obtain ⟨boundary, member, holds⟩ := held
          exact ⟨boundary, List.mem_cons_of_mem _ member, holds⟩
        refine ⟨extended, concluded, same, ?_, fun record member => ?_⟩
        · rintro id account ⟨boundary, member, agent, found, own⟩
          rcases List.mem_cons.mp member with rfl | after
          · have held := custody.held id agent found account own
            rw [same account (custody.drawn_of_owner held), held]
          · exact visited id account ⟨boundary, after, agent, found, own⟩
        · rcases written record member with old | ⟨id, operator, held⟩
          · rcases signed record old with older | ⟨id, agent, operator, found, own⟩
            · exact Or.inl older
            · exact Or.inr ⟨id, operator, st, List.mem_cons_self, agent, found, own⟩
          · exact Or.inr ⟨id, operator, wider held⟩

/-- The owners at the end of a run: what an agent held at any boundary stays its own, and every
record is signed by an account that its operator held at some boundary. -/
theorem finalState_custody (fuel : Nat) {final : RunState Generator}
    (ran : finalState fuel personas cfg = Outcome.returned final)
    (distinct : (drawnIds Generator fuel personas cfg).Nodup) :
    ∃ (built : RunState Generator) (owner : AccountId → Option AgentId),
      buildFresh personas cfg = some built ∧
      Custody cfg final.externals owner (final.view (drawnIds Generator fuel personas cfg)) ∧
      (∀ id account, HeldAt (built.boundaries fuel) id account → owner account = some id) ∧
      ∀ record ∈ final.chain.ledger.records,
        ∃ id, record.operator = some id ∧ HeldAt (built.boundaries fuel) id record.source := by
  obtain ⟨built, first, building, drawn, looped⟩ := finalState_ran fuel ran
  rw [drawn] at distinct ⊢
  have fresh := buildDrawing_fresh building
  obtain ⟨owner, custody⟩ := fresh_custody fresh (List.nodup_append.mp distinct).1
  obtain ⟨extended, concluded, _, visited, written⟩ :=
    runCore_custody fuel fresh.engine custody fresh.config distinct looped
  refine ⟨built, extended, buildFresh_of_drawing building, concluded, visited,
    fun record member => (written record member).resolve_left (fun old => ?_)⟩
  rw [fresh.chain] at old
  exact absurd old List.not_mem_nil

end Boundaries

end AccountCooker
