/-
This file settles what one live action can cost its source. The chain may drop a
submitted transaction, charge its fee and nothing else, or apply it; each
distinct transaction takes effect at most once, however often it was sent.

The quote bounds what the source parts with: the top-up, the value of the action
and the fee quoted for the funding transaction. The funding transaction is then
built anew under another blockhash, and its fee is not asked for again. So the
ceiling holds exactly when that fee has not grown beyond the room the quote left
under it.
-/

import Mathlib
import AccountCooker.Quote

namespace AccountCooker.Live

open Interaction

/-! ### What the chain takes -/

/-- What becomes of a submitted transaction. -/
inductive Fate
  | dropped
  | failed
  | applied

/-- The lamports an instruction moves out of an account. -/
def Instruction.leaving (account : AccountId) : Instruction → Nat
  | .transfer sender receiver lamports =>
    if sender = account ∧ receiver ≠ account then lamports else 0
  | .createAccount sender created lamports _ =>
    if sender = account ∧ created ≠ account then lamports else 0
  | _ => 0

/-- The lamports a message moves out of an account, fees aside. -/
def Message.leaving (account : AccountId) (message : Message) : Nat :=
  (message.instructions.map (·.leaving account)).sum

/-- The fee a landed message takes from an account. -/
def Message.feeOn (charge : Message → Nat) (account : AccountId) (message : Message) : Nat :=
  if message.feePayer = account then charge message else 0

/-- The lamports that leave an account because of one transaction. -/
def debit (charge : Message → Nat) (fate : Transaction → Fate) (account : AccountId)
    (tx : Transaction) : Nat :=
  match fate tx with
  | .dropped => 0
  | .failed => tx.message.feeOn charge account
  | .applied => tx.message.feeOn charge account + tx.message.leaving account

/-- The transaction a request submits. -/
def submitted (event : Event Answer) : Option Transaction :=
  match event.request.call with
  | .sendTransaction tx => some tx
  | _ => none

/-- The distinct transactions submitted in a history. -/
def sent (history : List (Event Answer)) : Finset Transaction :=
  (history.filterMap submitted).toFinset

/-- The lamports that leave an account because of a history, each transaction counted once. -/
def debited (charge : Message → Nat) (fate : Transaction → Fate) (account : AccountId)
    (history : List (Event Answer)) : Nat :=
  ∑ tx ∈ sent history, debit charge fate account tx

theorem sent_append (first second : List (Event Answer)) :
    sent (first ++ second) = sent first ∪ sent second := by
  unfold sent
  rw [List.filterMap_append, List.toFinset_append]

theorem mem_sent {history : List (Event Answer)} {tx : Transaction} :
    tx ∈ sent history ↔ ∃ event ∈ history, event.request.call = .sendTransaction tx := by
  unfold sent
  rw [List.mem_toFinset, List.mem_filterMap]
  refine exists_congr fun event => and_congr_right fun _ => ?_
  unfold submitted
  split
  · rename_i other call
    rw [call, Option.some_inj, Call.sendTransaction.injEq]
  · rename_i silent
    exact ⟨fun impossible => absurd impossible (by simp), fun call => absurd call (silent tx)⟩

theorem debit_applied (charge : Message → Nat) (account : AccountId) (tx : Transaction) :
    debit charge (fun _ => .applied) account tx =
      tx.message.feeOn charge account + tx.message.leaving account := rfl

/-- Nothing takes more than a transaction that is applied. -/
theorem debit_le (charge : Message → Nat) (fate : Transaction → Fate) (account : AccountId)
    (tx : Transaction) :
    debit charge fate account tx ≤
      tx.message.feeOn charge account + tx.message.leaving account := by
  unfold debit
  cases fate tx with
  | dropped => exact Nat.zero_le _
  | failed => exact Nat.le_add_right _ _
  | applied => exact le_rfl

/-! ### What is sent -/

/-- A request that submits nothing. -/
def Silent (request : Request) : Prop := ∀ tx, request.call ≠ .sendTransaction tx

/-- A request that submits this transaction or none. -/
def Only (tx : Transaction) (request : Request) : Prop :=
  ∀ other, request.call = .sendTransaction other → other = tx

section Asking

variable {allowed : Request → Prop} {Result : Type}

theorem asks_attempt {chain : RpcChain} {call : Call} (permitted : allowed ⟨chain.url, call⟩) :
    (chain.attempt call).run.Asks allowed := ⟨permitted, fun _ => trivial⟩

theorem asks_orStop (result : Except String Result) : (orStop result).run.Asks allowed := by
  cases result with
  | error message => exact trivial
  | ok value => exact trivial

theorem asks_orInvalid (message : String) (result : Option Result) :
    (orInvalid message result).run.Asks allowed := by
  cases result with
  | none => exact trivial
  | some value => exact trivial

theorem asks_ask {chain : RpcChain} {call : Call} (permitted : allowed ⟨chain.url, call⟩) :
    (chain.ask call).run.Asks allowed :=
  asks_bindFailing (asks_attempt permitted) asks_orStop

end Asking

section Silence

variable {sdk : Sdk} {cfg : LiveActionConfig} {chain : RpcChain}

theorem silent_checkStakeFunding (action : LiveAction) :
    (checkStakeFunding chain action).run.Asks Silent := by
  cases action with
  | transfer destination lamports => exact trivial
  | memo text => exact trivial
  | stake vote lamports =>
    refine asks_bindFailing (asks_ask nofun) fun stakeRent => ?_
    refine asks_bindFailing (asks_ask nofun) fun minDelegation => ?_
    exact asks_bindFailing (asks_orInvalid _ _) fun required => asks_orStop _

/-- The quote submits nothing. -/
theorem silent_quoteAction : (quoteAction sdk cfg).run.Asks Silent := by
  refine asks_bindFailing (asks_orStop _) fun _ => ?_
  refine asks_bindFailing (asks_orStop _) fun source => ?_
  refine asks_bindFailing (silent_checkStakeFunding _) fun _ => ?_
  refine asks_bindFailing (asks_orStop _) fun plan => ?_
  refine asks_bindFailing (asks_ask nofun) fun quoteHash => ?_
  refine asks_bindFailing (asks_ask nofun) fun actionFee => ?_
  refine asks_bindFailing (asks_ask nofun) fun rentExemptMin => ?_
  refine asks_bindFailing (asks_orInvalid _ _) fun feePayerTopup => ?_
  refine asks_bindFailing (asks_orStop _) fun _ => ?_
  refine asks_bindFailing (asks_ask nofun) fun fundingFee => ?_
  refine asks_bindFailing (asks_orInvalid _ _) fun requiredDebit => ?_
  refine asks_bindFailing (asks_orStop _) fun _ => ?_
  refine asks_bindFailing (asks_ask nofun) fun sourceBalance => ?_
  exact asks_bindFailing (asks_orStop _) fun _ => trivial

variable {quoted : Quoted}

theorem silent_buildFunding : (buildFunding sdk cfg quoted).run.Asks Silent :=
  asks_bindFailing (asks_ask nofun) fun _ => trivial

theorem silent_buildAction : (buildAction sdk cfg quoted).run.Asks Silent := by
  refine asks_bindFailing (asks_ask nofun) fun actionHash => ?_
  refine asks_bindFailing (asks_ask nofun) fun actualActionFee => ?_
  exact asks_bindFailing (asks_orStop _) fun _ => trivial

variable {tx : Transaction}

theorem only_resend (lastSendError : Option String) :
    (chain.resend sdk tx lastSendError).run.Asks (Only tx) := by
  have own : Only tx ⟨chain.url, .sendTransaction tx⟩ :=
    fun other call => (Call.sendTransaction.inj call).symm
  refine asks_bindFailing (asks_mapFailing (asks_attempt own) _) fun lastSendError => ?_
  refine asks_bindFailing (asks_ask nofun) fun valid => ?_
  split
  · exact trivial
  · exact trivial

/-- A submission sends its own transaction and no other. -/
theorem only_pollStatus (remaining poll : Nat) (lastSendError : Option String) :
    (chain.pollStatus sdk tx remaining poll lastSendError).run.Asks (Only tx) := by
  induction remaining generalizing poll lastSendError with
  | zero => exact trivial
  | succ remaining inductionHypothesis =>
    refine asks_bindFailing ?_ fun lastSendError => ?_
    · split
      · exact only_resend _
      · exact trivial
    · refine asks_bindFailing (asks_ask nofun) fun statuses => ?_
      split
      · exact trivial
      · exact trivial
      · exact trivial
      · exact inductionHypothesis _ _

theorem sent_grows {first second : List (Event Answer)} (grown : first <+: second) :
    sent first ⊆ sent second := by
  obtain ⟨added, rfl⟩ := grown
  rw [sent_append]
  exact Finset.subset_union_left

/-- The first poll sends. -/
theorem sent_pollStatus (node : Node Answer) (history : List (Event Answer)) (remaining : Nat)
    (lastSendError : Option String) :
    tx ∈ sent (play node history
      (chain.pollStatus sdk tx (remaining + 1) 0 lastSendError)).2 := by
  have sending : history ++ [⟨⟨chain.url, .sendTransaction tx⟩, node history _⟩] <+:
      (play node history (chain.resend sdk tx lastSendError)).2 := by
    refine List.IsPrefix.trans ?_ (play_bind_grows node history _ _)
    rw [play_map]
    exact List.prefix_rfl
  have polling : (play node history (chain.resend sdk tx lastSendError)).2 <+:
      (play node history (chain.pollStatus sdk tx (remaining + 1) 0 lastSendError)).2 := by
    unfold RpcChain.pollStatus
    exact play_bind_grows node history _ _
  refine sent_grows (sending.trans polling) (mem_sent.mpr ?_)
  exact ⟨_, List.mem_append_right _ (List.mem_singleton.mpr rfl), rfl⟩

end Silence

/-! ### The transactions of a call -/

section Sending

variable (node : Node Answer) {sdk : Sdk} {cfg : LiveActionConfig}

/-- A silent program submits nothing new. -/
theorem sent_silent {Result : Type} {program : Rpc Result} (silent : program.run.Asks Silent)
    (history : List (Event Answer)) : sent (play node history program).2 = sent history := by
  obtain ⟨added, grown, quiet⟩ := Program.asks_run node silent history
  have none : sent added = ∅ := by
    refine Finset.eq_empty_of_forall_notMem fun tx member => ?_
    obtain ⟨event, inside, call⟩ := mem_sent.mp member
    exact quiet event inside tx call
  show sent (Program.run node program.run history).2 = _
  rw [grown, sent_append, none, Finset.union_empty]

/-- A submission adds its transaction to what was sent, and no other. -/
theorem sent_submit (history : List (Event Answer)) (tx : Transaction) :
    sent (play node history (submit sdk cfg tx)).2 = insert tx (sent history) := by
  obtain ⟨added, grown, only⟩ := Program.asks_run node
    (@only_pollStatus sdk ⟨cfg.rpcUrl⟩ tx (max cfg.statusPolls 1) 0 none) history
  have own : sent added ⊆ {tx} := by
    intro other member
    obtain ⟨event, inside, call⟩ := mem_sent.mp member
    exact Finset.mem_singleton.mpr (only event inside other call)
  have some : tx ∈ sent (play node history (submit sdk cfg tx)).2 := by
    obtain ⟨rest, polls⟩ := Nat.exists_eq_succ_of_ne_zero
      (Nat.one_le_iff_ne_zero.mp (le_max_right cfg.statusPolls 1))
    unfold submit RpcChain.sendIdempotent
    rw [polls]
    exact sent_pollStatus node history rest none
  have split : sent (play node history (submit sdk cfg tx)).2 = sent history ∪ sent added := by
    rw [← sent_append, ← grown]
    rfl
  rw [split] at some ⊢
  ext other
  rw [Finset.mem_union, Finset.mem_insert]
  constructor
  · rintro (before | new)
    · exact Or.inr before
    · exact Or.inl (Finset.mem_singleton.mp (own new))
  · rintro (rfl | before)
    · exact Finset.mem_union.mp some
    · exact Or.inl before

variable (sdk cfg)

/-- The call gets as far as submitting this funding transaction, with this quote behind it. -/
structure Funds (quoted : Quoted) (fundingTx : Transaction) (history : List (Event Answer)) :
    Prop where
  executes : cfg.execute = true
  quotes : ∃ quotedAt, play node [] (quoteAction sdk cfg) = (.ok quoted, quotedAt) ∧
    play node quotedAt (buildFunding sdk cfg quoted) = (.ok fundingTx, history)

/-- From its funding transaction the call gets as far as submitting this action transaction. -/
def Acts (quoted : Quoted) (fundingTx : Transaction) (history : List (Event Answer))
    (actionTx : Transaction) : Prop :=
  ∃ signature confirmedAt builtAt,
    play node history (submit sdk cfg fundingTx) = (.ok signature, confirmedAt) ∧
    play node confirmedAt (buildAction sdk cfg quoted) = (.ok actionTx, builtAt)

variable {sdk cfg} {quoted : Quoted} {fundingTx actionTx : Transaction}
  {history : List (Event Answer)}

/-- A call that does not get to its funding transaction submits nothing. -/
theorem sent_of_unfunded
    (unfunded : ∀ quoted fundingTx history, ¬ Funds node sdk cfg quoted fundingTx history) :
    sent (play node [] (runLiveAction sdk cfg)).2 = ∅ := by
  unfold runLiveAction
  rw [play_bind]
  have silent : sent (play node [] (quoteAction sdk cfg)).2 = ∅ :=
    sent_silent node silent_quoteAction []
  cases quoting : play node [] (quoteAction sdk cfg) with
  | mk outcome quotedAt =>
    rw [quoting] at silent
    cases outcome with
    | error stop => exact silent
    | ok quoted =>
      cases executes : cfg.execute with
      | false => exact silent
      | true =>
        show sent (play node quotedAt (buildFunding sdk cfg quoted >>= _)).2 = ∅
        rw [play_bind]
        have stillSilent : sent (play node quotedAt (buildFunding sdk cfg quoted)).2 = ∅ :=
          (sent_silent node silent_buildFunding quotedAt).trans silent
        cases building : play node quotedAt (buildFunding sdk cfg quoted) with
        | mk outcome builtAt =>
          cases outcome with
          | error stop =>
            rw [building] at stillSilent
            exact stillSilent
          | ok fundingTx =>
            exact absurd ⟨executes, quotedAt, quoting, building⟩ (unfunded quoted fundingTx builtAt)

/-- Up to its funding transaction a call submits nothing. -/
theorem Funds.sent (funds : Funds node sdk cfg quoted fundingTx history) :
    Live.sent history = ∅ := by
  obtain ⟨quotedAt, quotes, builds⟩ := funds.quotes
  have silent := sent_silent node (@silent_buildFunding sdk cfg quoted) quotedAt
  rw [builds] at silent
  rw [silent]
  have before := sent_silent node (@silent_quoteAction sdk cfg) []
  rw [quotes] at before
  exact before

/-- From its funding transaction on, a call submits it, builds the action and submits that. -/
theorem Funds.rest (funds : Funds node sdk cfg quoted fundingTx history) :
    ∃ receipt : Signature → Signature → LiveActionReceipt,
      play node [] (runLiveAction sdk cfg) = play node history (do
        let fundingSignature ← submit sdk cfg fundingTx
        let actionTx ← buildAction sdk cfg quoted
        let actionSignature ← submit sdk cfg actionTx
        pure (receipt fundingSignature actionSignature)) := by
  obtain ⟨quotedAt, quotes, builds⟩ := funds.quotes
  refine ⟨fun fundingSignature actionSignature => { receiptOf sdk cfg quoted with
    fundingSignature := some (sdk.signatureText fundingSignature)
    actionSignature := some (sdk.signatureText actionSignature) }, ?_⟩
  unfold runLiveAction
  rw [play_bind, quotes]
  simp only [funds.executes]
  rw [if_neg (by simp), play_bind, builds]

/-- A call that stops before its action submits the funding transaction alone. -/
theorem Funds.sent_alone (funds : Funds node sdk cfg quoted fundingTx history)
    (stops : ∀ actionTx, ¬ Acts node sdk cfg quoted fundingTx history actionTx) :
    Live.sent (play node [] (runLiveAction sdk cfg)).2 = {fundingTx} := by
  obtain ⟨receipt, rest⟩ := funds.rest
  have submitted := @sent_submit node sdk cfg history fundingTx
  rw [funds.sent] at submitted
  rw [rest, play_bind]
  cases submitting : play node history (submit sdk cfg fundingTx) with
  | mk outcome confirmedAt =>
    rw [submitting] at submitted
    cases outcome with
    | error stop => exact submitted
    | ok signature =>
      show Live.sent (play node confirmedAt (buildAction sdk cfg quoted >>= _)).2 = _
      rw [play_bind]
      have silent := sent_silent node (@silent_buildAction sdk cfg quoted) confirmedAt
      cases building : play node confirmedAt (buildAction sdk cfg quoted) with
      | mk outcome builtAt =>
        rw [building] at silent
        cases outcome with
        | error stop => exact silent.trans submitted
        | ok actionTx =>
          exact absurd ⟨signature, confirmedAt, builtAt, submitting, building⟩ (stops actionTx)

/-- A call that gets to its action submits the funding and the action transaction. -/
theorem Funds.sent_both (funds : Funds node sdk cfg quoted fundingTx history)
    (acts : Acts node sdk cfg quoted fundingTx history actionTx) :
    Live.sent (play node [] (runLiveAction sdk cfg)).2 = {actionTx, fundingTx} := by
  obtain ⟨receipt, rest⟩ := funds.rest
  obtain ⟨signature, confirmedAt, builtAt, submitting, building⟩ := acts
  have submitted := @sent_submit node sdk cfg history fundingTx
  have silent := sent_silent node (@silent_buildAction sdk cfg quoted) confirmedAt
  have last := @sent_submit node sdk cfg builtAt actionTx
  rw [funds.sent, submitting] at submitted
  rw [building, submitted] at silent
  rw [silent] at last
  rw [rest, play_bind, submitting]
  show Live.sent (play node confirmedAt (buildAction sdk cfg quoted >>= _)).2 = _
  rw [play_bind, building]
  show Live.sent (play node builtAt (submit sdk cfg actionTx >>= _)).2 = _
  rw [play_bind]
  cases acting : play node builtAt (submit sdk cfg actionTx) with
  | mk outcome actedAt =>
    rw [acting] at last
    cases outcome with
    | error stop => exact last
    | ok actionSignature => exact last

end Sending

/-! ### What a transaction takes -/

section Taking

variable {sdk : Sdk} {cfg : LiveActionConfig} {charge : Message → Nat} {account : AccountId}

/-- The keys generated for a call are not the key of its source. -/
structure Sdk.Fresh (sdk : Sdk) (source : Keypair) : Prop where
  feePayer : sdk.feePayer.pubkey ≠ source.pubkey
  stakeKeypair : sdk.stakeKeypair.pubkey ≠ source.pubkey

theorem buildTransfer_message (sender feePayer : Keypair) (receiver : AccountId) (lamports : Nat)
    (recentBlockhash : Hash) :
    (buildTransfer sdk sender receiver lamports feePayer recentBlockhash).message =
      ⟨feePayer.pubkey, [.transfer sender.pubkey receiver lamports], recentBlockhash⟩ := by
  unfold buildTransfer
  split <;> rfl

/-- A funding transaction takes its fee and the top-up from the source. -/
theorem taken_funding {source : Keypair} (fresh : sdk.Fresh source) (lamports : Nat)
    (recentBlockhash : Hash) :
    (buildTransfer sdk source sdk.feePayer.pubkey lamports source recentBlockhash).message.feeOn
        charge source.pubkey +
      (buildTransfer sdk source sdk.feePayer.pubkey lamports source
        recentBlockhash).message.leaving source.pubkey =
    charge (buildTransfer sdk source sdk.feePayer.pubkey lamports source
      recentBlockhash).message + lamports := by
  rw [buildTransfer_message]
  unfold Message.feeOn Message.leaving
  rw [if_pos rfl, List.map_singleton, List.sum_singleton]
  exact congrArg (_ + ·) (if_pos ⟨rfl, fresh.feePayer⟩)

/-- The instructions of a plan move its source debit out of the source. -/
theorem planAction_leaving {source : Keypair} (fresh : sdk.Fresh source) {action : LiveAction}
    {plan : ActionPlan}
    (planned : planAction sdk action source (stakeKp sdk action) = .ok plan) :
    (plan.instructions.map (·.leaving source.pubkey)).sum = plan.sourceDebit := by
  cases action with
  | transfer destination lamports =>
    simp only [planAction] at planned
    split at planned
    · exact absurd planned (by simp)
    · rename_i different
      rw [← Except.ok.inj planned]
      show (if _ then lamports else 0) + 0 = lamports
      rw [if_pos ⟨rfl, fun same => different same.symm⟩, Nat.add_zero]
  | stake vote lamports =>
    rw [← Except.ok.inj planned]
    show (if _ then lamports else 0) + 0 = lamports
    rw [if_pos ⟨rfl, fresh.stakeKeypair⟩, Nat.add_zero]
  | memo text =>
    simp only [planAction] at planned
    split at planned
    · exact absurd planned (by simp)
    · split at planned
      · exact absurd planned (by simp)
      · rw [← Except.ok.inj planned]
        rfl

/-- An action transaction takes its source debit from the source, and its fee from another. -/
theorem taken_action {source : Keypair} (fresh : sdk.Fresh source) {action : LiveAction}
    {plan : ActionPlan}
    (planned : planAction sdk action source (stakeKp sdk action) = .ok plan)
    (recentBlockhash : Hash) :
    (buildActionTx sdk plan sdk.feePayer recentBlockhash).message.feeOn charge source.pubkey +
      (buildActionTx sdk plan sdk.feePayer recentBlockhash).message.leaving source.pubkey =
    plan.sourceDebit := by
  unfold Message.feeOn Message.leaving
  show (if sdk.feePayer.pubkey = source.pubkey then _ else 0) + _ = _
  rw [if_neg fresh.feePayer, Nat.zero_add]
  exact planAction_leaving fresh planned

end Taking

/-! ### The quote -/

section Quoting

variable {node : Node Answer} {sdk : Sdk} {cfg : LiveActionConfig}
  {history reached : List (Event Answer)}

/-- What a quote that stands has established. -/
structure Quoted.Within (sdk : Sdk) (cfg : LiveActionConfig) (quoted : Quoted) : Prop where
  source : sdk.readKeypairFile cfg.payerPath = .ok quoted.source
  plan : planAction sdk cfg.action quoted.source (stakeKp sdk cfg.action) = .ok quoted.plan
  required : quoted.requiredDebit =
    quoted.plan.sourceDebit + quoted.feePayerTopup + quoted.fundingFee
  ceiling : quoted.requiredDebit ≤ cfg.maxTotalDebit

theorem quoteAction_within {quoted : Quoted}
    (quotes : play node history (quoteAction sdk cfg) = (.ok quoted, reached)) :
    quoted.Within sdk cfg := by
  obtain ⟨_, backed⟩ := quoteAction_backed quotes
  exact ⟨backed.source, backed.plan, backed.required, backed.ceiling⟩

theorem buildFunding_built {quoted : Quoted} {fundingTx : Transaction}
    (builds : play node history (buildFunding sdk cfg quoted) = (.ok fundingTx, reached)) :
    ∃ fundingHash, fundingTx = buildTransfer sdk quoted.source sdk.feePayer.pubkey
      quoted.feePayerTopup quoted.source fundingHash := by
  obtain ⟨fundingHash, _, _, built⟩ := play_bind_ok.mp builds
  exact ⟨fundingHash, (Except.ok.inj (congrArg Prod.fst built)).symm⟩

theorem buildAction_built {quoted : Quoted} {actionTx : Transaction}
    (builds : play node history (buildAction sdk cfg quoted) = (.ok actionTx, reached)) :
    ∃ actionHash, actionTx = buildActionTx sdk quoted.plan sdk.feePayer actionHash := by
  obtain ⟨actionHash, _, _, builds⟩ := play_bind_ok.mp builds
  obtain ⟨_, _, _, builds⟩ := play_bind_ok.mp builds
  obtain ⟨_, _, _, built⟩ := play_bind_ok.mp builds
  exact ⟨actionHash, (Except.ok.inj (congrArg Prod.fst built)).symm⟩

end Quoting

/-! ### The ceiling -/

section Bounding

variable {node : Node Answer} {sdk : Sdk} {cfg : LiveActionConfig} {charge : Message → Nat}
  {quoted : Quoted} {fundingTx actionTx : Transaction} {history : List (Event Answer)}

theorem Funds.within (funds : Funds node sdk cfg quoted fundingTx history) :
    quoted.Within sdk cfg := by
  obtain ⟨_, quotes, _⟩ := funds.quotes
  exact quoteAction_within quotes

/-- Applied, the funding transaction takes its fee and the quoted top-up. -/
theorem Funds.taken (funds : Funds node sdk cfg quoted fundingTx history)
    (fresh : sdk.Fresh quoted.source) :
    debit charge (fun _ => .applied) quoted.source.pubkey fundingTx =
      charge fundingTx.message + quoted.feePayerTopup := by
  obtain ⟨_, _, builds⟩ := funds.quotes
  obtain ⟨fundingHash, rfl⟩ := buildFunding_built builds
  rw [debit_applied]
  exact taken_funding fresh quoted.feePayerTopup fundingHash

theorem Funds.feePayer (funds : Funds node sdk cfg quoted fundingTx history) :
    fundingTx.message.feePayer = quoted.source.pubkey := by
  obtain ⟨_, _, builds⟩ := funds.quotes
  obtain ⟨fundingHash, rfl⟩ := buildFunding_built builds
  rw [buildTransfer_message]

/-- Applied, the action transaction takes the quoted debit of the source. -/
theorem Acts.taken (acts : Acts node sdk cfg quoted fundingTx history actionTx)
    (within : quoted.Within sdk cfg) (fresh : sdk.Fresh quoted.source) :
    debit charge (fun _ => .applied) quoted.source.pubkey actionTx = quoted.plan.sourceDebit := by
  obtain ⟨_, _, _, _, builds⟩ := acts
  obtain ⟨actionHash, rfl⟩ := buildAction_built builds
  rw [debit_applied]
  exact taken_action fresh within.plan actionHash

theorem Acts.feePayer (acts : Acts node sdk cfg quoted fundingTx history actionTx) :
    actionTx.message.feePayer = sdk.feePayer.pubkey := by
  obtain ⟨_, _, _, _, builds⟩ := acts
  obtain ⟨actionHash, rfl⟩ := buildAction_built builds
  rfl

/-- No fate of the transactions takes more than applying them all. -/
theorem debited_le (charge : Message → Nat) (fate : Transaction → Fate) (account : AccountId)
    (history : List (Event Answer)) :
    debited charge fate account history ≤ debited charge (fun _ => .applied) account history :=
  Finset.sum_le_sum fun tx _ => debit_le charge fate account tx

/-- What leaves the source when the call stops before its action. -/
theorem Funds.debited_alone (funds : Funds node sdk cfg quoted fundingTx history)
    (fresh : sdk.Fresh quoted.source)
    (stops : ∀ actionTx, ¬ Acts node sdk cfg quoted fundingTx history actionTx) :
    debited charge (fun _ => .applied) quoted.source.pubkey
        (play node [] (runLiveAction sdk cfg)).2 =
      charge fundingTx.message + quoted.feePayerTopup := by
  unfold debited
  rw [funds.sent_alone node stops, Finset.sum_singleton, funds.taken fresh]

/-- What leaves the source when the call gets to its action. -/
theorem Funds.debited_both (funds : Funds node sdk cfg quoted fundingTx history)
    (fresh : sdk.Fresh quoted.source)
    (acts : Acts node sdk cfg quoted fundingTx history actionTx) :
    debited charge (fun _ => .applied) quoted.source.pubkey
        (play node [] (runLiveAction sdk cfg)).2 =
      quoted.plan.sourceDebit + (charge fundingTx.message + quoted.feePayerTopup) := by
  have distinct : actionTx ≠ fundingTx := by
    rintro rfl
    exact fresh.feePayer (acts.feePayer.symm.trans funds.feePayer)
  unfold debited
  rw [funds.sent_both node acts, Finset.sum_pair distinct, acts.taken funds.within fresh,
    funds.taken fresh]

/-- The fee of the funding transaction as submitted is at most the one quoted for it and the room
the quote left under the ceiling. An action that is never submitted leaves its debit as room. -/
def FundingFeeFits (node : Node Answer) (sdk : Sdk) (cfg : LiveActionConfig)
    (charge : Message → Nat) : Prop :=
  ∀ quoted fundingTx history, Funds node sdk cfg quoted fundingTx history →
    charge fundingTx.message ≤ quoted.fundingFee + (cfg.maxTotalDebit - quoted.requiredDebit) +
      quoted.plan.sourceDebit ∧
    ∀ actionTx, Acts node sdk cfg quoted fundingTx history actionTx →
      charge fundingTx.message ≤ quoted.fundingFee + (cfg.maxTotalDebit - quoted.requiredDebit)

/-- The ceiling on what leaves the source holds, whatever becomes of the transactions, exactly
when the fee of the funding transaction fits under it. -/
theorem debited_le_ceiling (sdk : Sdk) (cfg : LiveActionConfig) (node : Node Answer)
    (charge : Message → Nat)
    (fresh : ∀ source, sdk.readKeypairFile cfg.payerPath = .ok source → sdk.Fresh source) :
    (∀ source, sdk.readKeypairFile cfg.payerPath = .ok source → ∀ fate,
      debited charge fate source.pubkey (play node [] (runLiveAction sdk cfg)).2 ≤
        cfg.maxTotalDebit) ↔
    FundingFeeFits node sdk cfg charge := by
  constructor
  · intro bounded quoted fundingTx history funds
    have within := funds.within
    have known := fresh _ within.source
    have total := bounded _ within.source fun _ => .applied
    have required := within.required
    have ceiling := within.ceiling
    by_cases acting : ∃ actionTx, Acts node sdk cfg quoted fundingTx history actionTx
    · obtain ⟨actionTx, acts⟩ := acting
      rw [funds.debited_both known acts] at total
      exact ⟨by omega, fun _ _ => by omega⟩
    · have stops := not_exists.mp acting
      rw [funds.debited_alone known stops] at total
      exact ⟨by omega, fun actionTx acts => absurd acts (stops actionTx)⟩
  · intro fits source read fate
    refine (debited_le charge fate source.pubkey _).trans ?_
    by_cases funding : ∃ quoted fundingTx history, Funds node sdk cfg quoted fundingTx history
    · obtain ⟨quoted, fundingTx, history, funds⟩ := funding
      have within := funds.within
      obtain rfl : quoted.source = source := Except.ok.inj (within.source.symm.trans read)
      have known := fresh _ read
      have required := within.required
      have ceiling := within.ceiling
      obtain ⟨alone, both⟩ := fits quoted fundingTx history funds
      by_cases acting : ∃ actionTx, Acts node sdk cfg quoted fundingTx history actionTx
      · obtain ⟨actionTx, acts⟩ := acting
        have room := both actionTx acts
        rw [funds.debited_both known acts]
        omega
      · rw [funds.debited_alone known (not_exists.mp acting)]
        omega
    · simp only [not_exists] at funding
      unfold debited
      rw [sent_of_unfunded node funding, Finset.sum_empty]
      exact Nat.zero_le _

end Bounding

/-! ### A surging fee -/

/-- A node that grants everything: its blockhashes count up, and its fee for a message is the one
the chain charges. -/
def grantingNode (charge : Message → Nat) : Node Answer := fun history request =>
  match request with
  | ⟨_, .getLatestBlockhash⟩ =>
    .ok ⟨Fin.ofNat _ (history.countP (·.request.call = .getLatestBlockhash))⟩
  | ⟨_, .getFeeForMessage message⟩ => .ok (charge message)
  | ⟨_, .getMinimumBalanceForRentExemption _⟩ => .ok 890880
  | ⟨_, .getStakeMinimumDelegation⟩ => .ok 1
  | ⟨_, .getVoteAccounts⟩ => .ok []
  | ⟨_, .getBalance _⟩ => .ok 1000000000
  | ⟨_, .sendTransaction tx⟩ => .ok tx.signature
  | ⟨_, .isBlockhashValid _⟩ => .ok true
  | ⟨_, .getSignatureStatuses _⟩ => .ok [some ⟨none, true⟩]

/-- The base fee doubles after the first blockhash. -/
def surgingFee (message : Message) : Nat :=
  if message.recentBlockhash = ⟨0⟩ then 5000 else 10000

/-- A transfer of a thousand lamports, its ceiling the debit that will be quoted. -/
def smallTransfer : LiveActionConfig :=
  ⟨"http://127.0.0.1:8899", "payer.json", .transfer ⟨4⟩ 1000, 901880, 2000000, 20, false, true⟩

theorem smallSdk_fresh (source : Keypair)
    (read : smallSdk.readKeypairFile smallTransfer.payerPath = .ok source) :
    smallSdk.Fresh source := by
  have payer : smallSdk.readKeypairFile smallTransfer.payerPath = .ok ⟨⟨1⟩⟩ := rfl
  rw [← Except.ok.inj (payer.symm.trans read)]
  exact ⟨by decide, by decide⟩

/-- Where the fee surges the condition fails. -/
theorem debited_le_ceiling_surging :
    ¬ FundingFeeFits (grantingNode surgingFee) smallSdk smallTransfer surgingFee := by
  intro fits
  have bounded := (debited_le_ceiling smallSdk smallTransfer (grantingNode surgingFee) surgingFee
    smallSdk_fresh).mpr fits ⟨⟨1⟩⟩ rfl fun _ => .applied
  exact absurd bounded (by decide +kernel)

/-- The chain charges what the node reports, and the funding transaction alone takes more out of
the source than the ceiling allows. -/
theorem surge_exceeds_ceiling :
    (∀ history url message, grantingNode surgingFee history ⟨url, .getFeeForMessage message⟩ =
      .ok (surgingFee message)) ∧
    smallSdk.readKeypairFile smallTransfer.payerPath = .ok ⟨⟨1⟩⟩ ∧ smallSdk.Fresh ⟨⟨1⟩⟩ ∧
    ¬ debited surgingFee (fun _ => .applied) ⟨1⟩
        (play (grantingNode surgingFee) [] (runLiveAction smallSdk smallTransfer)).2 ≤
      smallTransfer.maxTotalDebit := by
  refine ⟨fun history url message => rfl, rfl, smallSdk_fresh _ rfl, ?_⟩
  decide +kernel

end AccountCooker.Live
