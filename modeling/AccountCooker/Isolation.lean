/-
This file proves that operators are isolated. Apart from the external accounts,
which are only ever paid, no account of a simulated ledger has to do with two
operators: what an operator owns it alone signs for, pays into and pays fees
from, and every other address was drawn for one record and the top-up of its
fee payer.
-/

import Mathlib
import AccountCooker.Truth

namespace AccountCooker

open Collections Draw

/-! ### The invariant -/

/-- Under some owners, a fee payer is not external and its owner is the operator of the record;
two records that mention an account of nobody have one operator. -/
structure Apart (cfg : SimConfig) (externals : List AccountId)
    (owner : AccountId → Option AgentId) (view : View) : Prop where
  custody : Custody cfg externals owner view
  fees : ∀ record ∈ view.chain.ledger.records, ∀ id, owner record.feePayer = some id →
    record.operator = some id
  inner : ∀ record ∈ view.chain.ledger.records, record.feePayer ∉ externals
  strangers : ∀ first ∈ view.chain.ledger.records, ∀ second ∈ view.chain.ledger.records,
    ∀ account, account ∉ externals → owner account = none → Ledger.Mentions first account →
      Ledger.Mentions second account → first.operator = second.operator

section Invariant

variable {cfg : SimConfig} {externals : List AccountId} {owner : AccountId → Option AgentId}
  {view before after : View} {record : TxRecord} {account : AccountId}

/-- What a record mentions was drawn. -/
theorem Custody.drawn_of_mentions (custody : Custody cfg externals owner view)
    (member : record ∈ view.chain.ledger.records) (mentions : Ledger.Mentions record account) :
    account ∈ view.drawn := by
  rcases mentions with rfl | rfl | rfl
  · exact (custody.mentioned record member).2
  · obtain ⟨_, _, owned⟩ := custody.signed record member
    exact custody.drawn_of_owner owned
  · exact (custody.mentioned record member).1

/-- An account that a new record mentions is external, has an owner or was drawn for the
record. -/
theorem Custody.mentions_emission {agents : List Agent} {chain recorded : MockChain}
    {drawn ids : List AccountId} {index : Nat} {agent next : Agent} {tx : PlannedTx}
    {feePayer : AccountId} {extended : AccountId → Option AgentId}
    (custody : Custody cfg externals owner ⟨agents, chain, drawn⟩)
    (concluded : Custody cfg externals extended ⟨agents.set index next, recorded, drawn ++ ids⟩)
    (agrees : ∀ account ∈ drawn, extended account = owner account)
    (found : agents[index]? = some agent) (distinct : ids.Nodup)
    (emission : Emission cfg externals agent tx feePayer next ids)
    (mentions : account = feePayer ∨ account = tx.source ∨ account = tx.dest) :
    account ∈ externals ∨ (extended account).isSome ∨ account ∈ ids := by
  have built := List.mem_of_getElem? (custody.agents index agent found).main
  have own {account : AccountId} (inside : account ∈ agent.subaccounts) :
      (extended account).isSome := by
    have owned := custody.held index agent found account inside
    rw [agrees account (custody.drawn_of_owner owned), owned]
    rfl
  rcases mentions with rfl | rfl | rfl
  · exact Or.inr ((List.mem_append.mp (emission.payer built).1).imp_left own)
  · exact Or.inr (Or.inl (own emission.own))
  · refine (emission.place built distinct).imp_right (Or.imp (fun inside => ?_) And.left)
    have held := concluded.held index next
      (List.getElem?_set_self (List.getElem?_eq_some_iff.mp found).1) _ inside
    exact Option.isSome_iff_exists.mpr ⟨index, held⟩

/-- A step keeps operators apart. -/
theorem step_apart (apart : Apart cfg externals owner before)
    (step : Step cfg externals before after) (distinct : after.drawn.Nodup) :
    ∃ extended, Apart cfg externals extended after := by
  obtain ⟨extended, concluded, agrees⟩ := step_custody apart.custody step distinct
  have kept {record : TxRecord} (member : record ∈ before.chain.ledger.records)
      {account : AccountId} (mentions : Ledger.Mentions record account) :
      extended account = owner account :=
    agrees account (apart.custody.drawn_of_mentions member mentions)
  have fees : ∀ record ∈ before.chain.ledger.records, ∀ id,
      extended record.feePayer = some id → record.operator = some id := by
    intro record member id owned
    exact apart.fees record member id ((kept member (Or.inl rfl)).symm.trans owned)
  have strangers : ∀ first ∈ before.chain.ledger.records,
      ∀ second ∈ before.chain.ledger.records, ∀ account, account ∉ externals →
        extended account = none → Ledger.Mentions first account →
          Ledger.Mentions second account → first.operator = second.operator := by
    intro first one second two account inner nobody mentions also
    exact apart.strangers first one second two account inner
      ((kept one mentions).symm.trans nobody) mentions also
  cases step with
  | tick agents chain drawn ts later =>
    exact ⟨extended, concluded, fees, apart.inner, strangers⟩
  | act agents chain drawn index agent next found move =>
    cases move with
    | mk chain agent drawn ts tx feePayer next ids recorded timely emission appended =>
      have written := congrArg (fun chain => chain.ledger.records) (record_eq appended)
      simp only at written
      have either {record : TxRecord} (member : record ∈ recorded.ledger.records) :
          record ∈ chain.ledger.records ∨
            record = (chain.setTime ts).stamp tx feePayer (some agent.id) := by
        rw [written] at member
        exact (List.mem_append.mp member).imp_right List.mem_singleton.mp
      have id := (apart.custody.agents index agent found).id
      -- No address of nobody is mentioned by the new record and by an old one.
      have unshared {record : TxRecord} (old : record ∈ chain.ledger.records)
          {account : AccountId} (inner : account ∉ externals) (nobody : extended account = none)
          (mentions : Ledger.Mentions record account) (also : Ledger.Mentions
            ((chain.setTime ts).stamp tx feePayer (some agent.id)) account) : False := by
        obtain ⟨_, idsDistinct, fresh⟩ := List.nodup_append.mp distinct
        rcases apart.custody.mentions_emission concluded agrees found idsDistinct emission also with
          external | owned | drew
        · exact inner external
        · rw [nobody] at owned
          exact absurd owned (by simp)
        · exact fresh _ (apart.custody.drawn_of_mentions old mentions) _ drew rfl
      have payer : (∀ operator, extended feePayer = some operator → operator = index) ∧
          feePayer ∉ externals := by
        cases mode : cfg.mode with
        | naive =>
          obtain ⟨_, main, _⟩ := emission.naive mode
          have held := apart.custody.held index agent found _
            (List.mem_of_getElem? (apart.custody.agents index agent found).main)
          rw [← main] at held
          have same := (agrees _ (apart.custody.drawn_of_owner held)).trans held
          refine ⟨fun operator owned => Option.some.inj (owned.symm.trans same), fun external => ?_⟩
          exact absurd (same.symm.trans (concluded.outside _ external)) (by simp)
        | cooker =>
          obtain ⟨nobody, inner, _⟩ := concluded.payers mode
            ((chain.setTime ts).stamp tx feePayer (some agent.id))
            (by rw [written]; exact List.mem_append_right _ List.mem_cons_self)
          exact ⟨fun operator owned => absurd (nobody.symm.trans owned) (by simp), inner⟩
      refine ⟨extended, concluded, fun record member operator owned => ?_, fun record member => ?_,
        fun first one second two account inner nobody mentions also => ?_⟩
      · rcases either member with old | rfl
        · exact fees record old operator owned
        · show some agent.id = some operator
          rw [id, payer.1 operator owned]
      · rcases either member with old | rfl
        · exact apart.inner record old
        · exact payer.2
      · rcases either one with oldFirst | rfl
        · rcases either two with oldSecond | rfl
          · exact strangers first oldFirst second oldSecond account inner nobody mentions also
          · exact (unshared oldFirst inner nobody mentions also).elim
        · rcases either two with oldSecond | rfl
          · exact (unshared oldSecond inner nobody also mentions).elim
          · rfl

theorem fresh_apart {Generator : Type} {cfg : SimConfig} {built : RunState Generator}
    {ids : List AccountId} (fresh : Fresh cfg ids built) (distinct : ids.Nodup) :
    ∃ owner, Apart cfg built.externals owner (built.view ids) := by
  obtain ⟨owner, custody⟩ := fresh_custody fresh distinct
  have empty : (built.view ids).chain.ledger.records = [] := by
    show built.chain.ledger.records = []
    rw [fresh.chain]
    rfl
  refine ⟨owner, custody, ?_, ?_, ?_⟩
  all_goals
    rw [empty]
    exact fun record member => absurd member List.not_mem_nil

/-- Whoever mentions an owned account is its owner. -/
theorem Apart.operator_of_owner (apart : Apart cfg externals owner view)
    (member : record ∈ view.chain.ledger.records) (mentions : Ledger.Mentions record account)
    {id : AgentId} (owned : owner account = some id) : record.operator = some id := by
  rcases mentions with rfl | rfl | rfl
  · exact apart.fees record member id owned
  · obtain ⟨other, operator, signer⟩ := apart.custody.signed record member
    rw [operator, ← signer, owned]
  · exact apart.custody.toward record member id owned

/-- Two records that share an account which is not external have one operator. -/
theorem Apart.same_operator (apart : Apart cfg externals owner view) {first second : TxRecord}
    (one : first ∈ view.chain.ledger.records) (two : second ∈ view.chain.ledger.records)
    (inner : account ∉ externals) (mentions : Ledger.Mentions first account)
    (also : Ledger.Mentions second account) : first.operator = second.operator := by
  cases owned : owner account with
  | none => exact apart.strangers first one second two account inner owned mentions also
  | some id =>
    rw [apart.operator_of_owner one mentions owned, apart.operator_of_owner two also owned]

theorem ReachedBy.apart {Generator : Type} [Rng Generator] [Libm] {personas : List Persona}
    {built st : RunState Generator} {first ids : List AccountId}
    (reached : ReachedBy personas cfg built st first ids) (distinct : ids.Nodup) :
    ∃ owner, Apart cfg st.externals owner (st.view ids) := by
  refine reached.holdsDistinct (fun externals view => ∃ owner, Apart cfg externals owner view)
    (fun built first fresh nodup => fresh_apart fresh nodup)
    (fun externals before after holds step nodup => ?_) distinct
  obtain ⟨owner, apart⟩ := holds
  exact step_apart apart step nodup

end Invariant

/-! ### Funded ledgers -/

section Funded

variable {cfg : SimConfig} {fcfg : FundingConfig} {externals : List AccountId}
  {owner known : AccountId → Option AgentId} {view : View}
  {assigned : List AccountId × BTreeMap AgentId (AccountId × Option AgentId)}
  {wallets : List AccountId} {suffix : List TxRecord} {event : TxRecord} {op : AgentId}

/-- A labelled top-up is of the operator whose fee payer it tops up, from its hub or from the
wallet that was drawn for it. -/
structure Backed (view : View)
    (assigned : List AccountId × BTreeMap AgentId (AccountId × Option AgentId))
    (wallets : List AccountId) (event : TxRecord) (op : AgentId) : Prop where
  payer : event.feePayer = event.source
  record : ∃ record ∈ view.chain.ledger.records, record.operator = some op ∧
    event.dest = record.feePayer
  funder : (∃ agent, view.agents[op]? = some agent ∧ agent.main = event.source) ∨
    event.source ∈ wallets ∧ assigned.2.get? op = some (event.source, some op)

theorem FundedRun.backed (run : FundedRun cfg fcfg externals owner view assigned wallets suffix)
    (member : event ∈ suffix) (operator : event.operator = some op) :
    Backed view assigned wallets event op := by
  obtain ⟨record, inBase, tops⟩ := run.appended.each event member
  obtain ⟨other, labelled, allowed⟩ := tops.funder
  unfold FundingConfig.Allows at allowed
  split at allowed
  · exact absurd (operator.symm.trans allowed.2) (by simp)
  have given := run.assigns.gives other _ _ allowed
  cases policy : fcfg.policy with
  | operatorHub =>
    rw [policy] at given
    obtain rfl := Option.some.inj (operator.symm.trans given.2)
    obtain ⟨agent, found, main, _⟩ := run.owner_hub given.1
    exact ⟨tops.payer, ⟨record, inBase, labelled, tops.dest⟩, Or.inl ⟨agent, found, main⟩⟩
  | dedicatedFunder =>
    rw [policy] at given
    obtain rfl := Option.some.inj (operator.symm.trans given.2)
    rw [operator] at allowed
    exact ⟨tops.payer, ⟨record, inBase, labelled, tops.dest⟩, Or.inr ⟨given.1, allowed⟩⟩
  | sharedRelayers k =>
    rw [policy] at given
    exact absurd (operator.symm.trans given.2) (by simp)

/-- What a funded ledger has an operator do with an account: a record of the run mentions it, it
is the operator's own, or it is the wallet drawn for the operator. -/
def Touches (view : View) (known : AccountId → Option AgentId)
    (assigned : List AccountId × BTreeMap AgentId (AccountId × Option AgentId))
    (wallets : List AccountId) (op : AgentId) (account : AccountId) : Prop :=
  (∃ record ∈ view.chain.ledger.records, record.operator = some op ∧
    Ledger.Mentions record account) ∨
  known account = some op ∨ account ∈ wallets ∧ assigned.2.get? op = some (account, some op)

theorem FundedRun.touches (run : FundedRun cfg fcfg externals owner view assigned wallets suffix)
    (apart : Apart cfg externals known view) {record : TxRecord}
    (member : record ∈ view.chain.ledger.records ++ suffix) (operator : record.operator = some op)
    {account : AccountId} (mentions : Ledger.Mentions record account) :
    Touches view known assigned wallets op account := by
  rcases List.mem_append.mp member with base | topUp
  · exact Or.inl ⟨record, base, operator, mentions⟩
  · have backed := run.backed topUp operator
    have funder : Touches view known assigned wallets op record.source := by
      rcases backed.funder with ⟨agent, found, main⟩ | wallet
      · rw [← main]
        exact Or.inr (Or.inl (apart.custody.held op agent found _
          (List.mem_of_getElem? (apart.custody.agents op agent found).main)))
      · exact Or.inr (Or.inr wallet)
    rcases mentions with rfl | rfl | rfl
    · rw [backed.payer]
      exact funder
    · exact funder
    · obtain ⟨paid, inBase, labelled, dest⟩ := backed.record
      exact Or.inl ⟨paid, inBase, labelled, Or.inl dest⟩

/-- No account that is not external is touched by two operators. -/
theorem FundedRun.touches_unique
    (run : FundedRun cfg fcfg externals owner view assigned wallets suffix)
    (apart : Apart cfg externals known view) {account : AccountId} (inner : account ∉ externals)
    {op other : AgentId} (one : Touches view known assigned wallets op account)
    (two : Touches view known assigned wallets other account) : op = other := by
  obtain ⟨_, later, fresh⟩ := List.nodup_append.mp run.fresh
  have drawn {op : AgentId} (touched : (∃ record ∈ view.chain.ledger.records,
      record.operator = some op ∧ Ledger.Mentions record account) ∨ known account = some op) :
      account ∉ wallets := by
    intro wallet
    refine fresh account ?_ account (List.mem_append_right _ wallet) rfl
    rcases touched with ⟨record, member, _, mentions⟩ | owned
    · exact apart.custody.drawn_of_mentions member mentions
    · exact apart.custody.drawn_of_owner owned
  rcases one with ⟨first, inFirst, operator, mentions⟩ | owned | wallet
  · rcases two with ⟨second, inSecond, also, mentioned⟩ | owned | wallet
    · have same := apart.same_operator inFirst inSecond inner mentions mentioned
      exact Option.some.inj (operator.symm.trans (same.trans also))
    · exact Option.some.inj
        (operator.symm.trans (apart.operator_of_owner inFirst mentions owned))
    · exact absurd wallet.1 (drawn (Or.inl ⟨first, inFirst, operator, mentions⟩))
  · rcases two with ⟨second, inSecond, also, mentioned⟩ | owns | wallet
    · exact Option.some.inj
        ((apart.operator_of_owner inSecond mentioned owned).symm.trans also)
    · exact Option.some.inj (owned.symm.trans owns)
    · exact absurd wallet.1 (drawn (Or.inr owned))
  · rcases two with mentioned | owned | also
    · exact absurd wallet.1 (drawn (Or.inl mentioned))
    · exact absurd wallet.1 (drawn (Or.inr owned))
    · have dedicated : fcfg.policy = .dedicatedFunder := by
        by_contra other
        rw [run.assigns.undrawn other] at wallet
        exact absurd wallet.1 List.not_mem_nil
      exact run.assigns.apart dedicated (List.nodup_append.mp later).2.1 _ _ _ _ _ wallet.2 also.2

/-- A funder is not external. -/
theorem FundedRun.funder_inner
    (run : FundedRun cfg fcfg externals owner view assigned wallets suffix)
    (member : event ∈ suffix) : event.source ∉ externals := by
  intro external
  obtain ⟨record, _, tops⟩ := run.appended.each event member
  obtain ⟨op, _, allowed⟩ := tops.funder
  rcases run.funder_place allowed with drew | ⟨_, owned⟩
  · exact (List.nodup_append.mp run.fresh).2.2 _
      (run.custody.known _ (Or.inr external)) _ drew rfl
  · exact absurd (owned.symm.trans (run.custody.outside _ external)) (by simp)

end Funded

/-! ### Isolation -/

/-- Operators do not meet in a ledger: external accounts are only paid, any other account is
mentioned in the records of one operator at most, and a record of nobody pays its own fee and
pays an account that never signs. -/
structure Isolated (externals : List AccountId) (ledger : Ledger) : Prop where
  inner : ∀ record ∈ ledger.records,
    record.source ∉ externals ∧ record.feePayer ∉ externals
  alone : ∀ first ∈ ledger.records, ∀ second ∈ ledger.records, ∀ account,
    account ∉ externals → Ledger.Mentions first account → Ledger.Mentions second account →
      ∀ op other, first.operator = some op → second.operator = some other → op = other
  nobody : ∀ record ∈ ledger.records, record.operator = none →
    record.feePayer = record.source ∧ ∀ other ∈ ledger.records, other.source ≠ record.dest

section Final

variable {cfg : SimConfig} {fcfg : FundingConfig} {externals : List AccountId}
  {owner known : AccountId → Option AgentId} {view : View}
  {assigned : List AccountId × BTreeMap AgentId (AccountId × Option AgentId)}
  {wallets : List AccountId} {suffix : List TxRecord}

theorem Apart.isolated (apart : Apart cfg externals known view) :
    Isolated externals view.chain.ledger where
  inner record member := by
    refine ⟨fun external => ?_, apart.inner record member⟩
    obtain ⟨id, _, owned⟩ := apart.custody.signed record member
    exact absurd (owned.symm.trans (apart.custody.outside _ external)) (by simp)
  alone first one second two account inner mentions also op other operator labelled :=
    Option.some.inj
      (operator.symm.trans ((apart.same_operator one two inner mentions also).trans labelled))
  nobody record member unlabelled := by
    obtain ⟨id, operator, _⟩ := apart.custody.signed record member
    exact absurd (operator.symm.trans unlabelled) (by simp)

theorem FundedRun.isolated
    (run : FundedRun cfg fcfg externals owner view assigned wallets suffix)
    (apart : Apart cfg externals known view) {ledger : Ledger}
    (records : ledger.records = view.chain.ledger.records ++ suffix) :
    Isolated externals ledger where
  inner record member := by
    rw [records] at member
    rcases List.mem_append.mp member with base | topUp
    · exact apart.isolated.inner record base
    · obtain ⟨_, _, tops⟩ := run.appended.each record topUp
      rw [tops.payer]
      exact ⟨run.funder_inner topUp, run.funder_inner topUp⟩
  alone first one second two account inner mentions also op other operator labelled := by
    rw [records] at one two
    exact run.touches_unique apart inner (run.touches apart one operator mentions)
      (run.touches apart two labelled also)
  nobody record member unlabelled := by
    rw [records] at member
    rcases List.mem_append.mp member with base | topUp
    · obtain ⟨id, operator, _⟩ := apart.custody.signed record base
      exact absurd (operator.symm.trans unlabelled) (by simp)
    · obtain ⟨paid, inBase, tops⟩ := run.appended.each record topUp
      refine ⟨tops.payer, fun other inLedger signs => ?_⟩
      rw [tops.dest] at signs
      rw [records] at inLedger
      rcases List.mem_append.mp inLedger with base | funds
      · exact run.throwaways.unsigned paid inBase other base signs.symm
      · -- A funder is a hub, which is owned, or was drawn after the run.
        obtain ⟨_, _, also⟩ := run.appended.each other funds
        obtain ⟨op, _, allowed⟩ := also.funder
        have payer := run.custody.payers run.cooker paid inBase
        rcases run.funder_place allowed with drew | ⟨_, owned⟩
        · exact (List.nodup_append.mp run.fresh).2.2 _ (run.custody.mentioned paid inBase).2 _ drew
            signs.symm
        · rw [signs, payer.1] at owned
          exact absurd owned (by simp)

end Final

section Simulated

variable {Generator : Type} [Rng Generator] [Libm]

/-- A simulated ledger is that of a finished run, or of a finished cooker run and its top-ups. -/
theorem simulate_cases (fuel : Nat) {personas : List Persona} {cfg : SimConfig} {ledger : Ledger}
    (simulated : simulate Generator fuel personas cfg = Outcome.returned ledger)
    (distinct : (allIds Generator fuel personas cfg).Nodup) :
    ((cfg.funding = none ∨ cfg.mode = .naive) ∧
      ∃ (built final : RunState Generator) (owner : AccountId → Option AgentId),
        Finished fuel personas cfg built final owner ∧ ledger = final.chain.ledger) ∨
    ∃ fcfg, cfg.funding = some fcfg ∧ cfg.mode = .cooker ∧
      ∃ (built final : RunState Generator) (owner : AccountId → Option AgentId)
        (assigned : List AccountId × BTreeMap AgentId (AccountId × Option AgentId))
        (wallets : List AccountId) (suffix : List TxRecord),
        Finished fuel personas cfg built final owner ∧
        ledger.records = final.chain.ledger.records ++ suffix ∧
        FundedRun cfg fcfg final.externals owner
          (final.view (drawnIds Generator fuel personas cfg)) assigned wallets suffix := by
  by_cases plain : cfg.funding = none ∨ cfg.mode = .naive
  · obtain ⟨final, ended, rfl⟩ := simulate_plain fuel simulated plain
    obtain ⟨built, owner, finished⟩ :=
      finalState_finished fuel ended (List.nodup_append.mp distinct).1
    exact Or.inl ⟨plain, built, final, owner, finished, rfl⟩
  · rw [not_or] at plain
    obtain ⟨fcfg, funding⟩ := Option.ne_none_iff_exists'.mp plain.1
    have cooker : cfg.mode = .cooker := by
      cases mode : cfg.mode with
      | naive => exact absurd mode plain.2
      | cooker => rfl
    obtain ⟨built, final, owner, assigned, wallets, suffix, finished, records, _, run⟩ :=
      simulate_fundedRun fuel funding cooker simulated distinct
    exact Or.inr ⟨fcfg, funding, cooker, built, final, owner, assigned, wallets, suffix, finished,
      records, run⟩

theorem simulate_isolated (fuel : Nat) {personas : List Persona} {cfg : SimConfig}
    {ledger : Ledger} (simulated : simulate Generator fuel personas cfg = Outcome.returned ledger)
    (distinct : (allIds Generator fuel personas cfg).Nodup) :
    ∃ built : RunState Generator, buildFresh personas cfg = some built ∧
      Isolated built.externals ledger := by
  have base := (List.nodup_append.mp distinct).1
  rcases simulate_cases fuel simulated distinct with ⟨_, built, final, owner, finished, rfl⟩ |
    ⟨fcfg, _, _, built, final, owner, assigned, wallets, suffix, finished, records, run⟩
  · obtain ⟨first, reached⟩ := finished.reached
    obtain ⟨known, apart⟩ := reached.apart base
    rw [reached.same.externals] at apart
    exact ⟨built, finished.building, apart.isolated⟩
  · obtain ⟨first, reached⟩ := finished.reached
    obtain ⟨known, apart⟩ := reached.apart base
    rw [reached.same.externals] at apart run
    exact ⟨built, finished.building, run.isolated apart records⟩

/-- External accounts neither sign nor pay fees, and any other account is mentioned in the records
of one operator at most, whatever the engine, the rebalancing and the funding. -/
theorem operators_isolated (fuel : Nat) (personas : List Persona) (cfg : SimConfig)
    (ledger : Ledger) (simulated : simulate Generator fuel personas cfg = Outcome.returned ledger)
    (distinct : (allIds Generator fuel personas cfg).Nodup) :
    ∃ built : RunState Generator, buildFresh personas cfg = some built ∧
      (∀ record ∈ ledger.records,
        record.source ∉ built.externals ∧ record.feePayer ∉ built.externals) ∧
      ∀ first ∈ ledger.records, ∀ second ∈ ledger.records, ∀ account,
        account ∉ built.externals → Ledger.Mentions first account →
          Ledger.Mentions second account → ∀ op other, first.operator = some op →
            second.operator = some other → op = other := by
  obtain ⟨built, building, isolated⟩ := simulate_isolated fuel simulated distinct
  exact ⟨built, building, isolated.inner, isolated.alone⟩

end Simulated

/-- In the small run funded from the hubs, records and top-ups that share an inner account are of
one operator. -/
theorem operators_isolated_hubRun : ∃ (ledger : Ledger) (built : RunState Counter),
    simulate Counter 3 [Persona.retail] hubRun = Outcome.returned ledger ∧
    ledger.records.length = 6 ∧ buildFresh [Persona.retail] hubRun = some built ∧
    ∀ first ∈ ledger.records, ∀ second ∈ ledger.records, ∀ account,
      account ∉ built.externals → Ledger.Mentions first account →
        Ledger.Mentions second account → ∀ op other, first.operator = some op →
          second.operator = some other → op = other := by
  obtain ⟨ledger, simulated, length⟩ := hubRun_simulated
  obtain ⟨built, building, _, isolated⟩ :=
    operators_isolated 3 _ _ ledger simulated hubRun_distinct
  exact ⟨ledger, built, simulated, length, building, isolated⟩

end AccountCooker
