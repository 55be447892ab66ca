/-
This file is about what a live action knows from its node. A reply, once heard,
stays in the history; so what rests on replies is not lost when the history
grows.

A quote that stands rests on the replies it was computed from, and has passed
every limit of its configuration. A submission that returns has heard that its
transaction is confirmed.
-/

import Mathlib
import AccountCooker.Live

namespace AccountCooker.Live

open Interaction

/-! ### What the node has said -/

section Hearing

variable {url : String} {node : Node Answer} {history reached : List (Event Answer)}

/-- The node at a URL has replied so to a call. -/
def Heard (url : String) (history : List (Event Answer)) (call : Call) (reply : call.Reply) :
    Prop :=
  (⟨⟨url, call⟩, .ok reply⟩ : Event Answer) ∈ history

theorem Heard.grow {call : Call} {reply : call.Reply} (heard : Heard url history call reply)
    (grown : history <+: reached) : Heard url reached call reply := grown.subset heard

theorem play_attempt (chain : RpcChain) (call : Call) :
    play node history (chain.attempt call) =
      (.ok (node history ⟨chain.url, call⟩),
        history ++ [⟨⟨chain.url, call⟩, node history ⟨chain.url, call⟩⟩]) := rfl

theorem ask_grows (chain : RpcChain) {call : Call} {reply : call.Reply}
    (asked : play node history (chain.ask call) = (.ok reply, reached)) :
    reached = history ++ [⟨⟨chain.url, call⟩, .ok reply⟩] := by
  obtain ⟨answer, halfway, attempted, stopped⟩ := play_bind_ok.mp asked
  obtain ⟨replied, rfl⟩ := play_orStop_eq_ok.mp stopped
  rw [play_attempt] at attempted
  obtain ⟨same, rfl⟩ := Prod.mk.inj attempted
  rw [Except.ok.inj same, replied]

theorem ask_heard (chain : RpcChain) {call : Call} {reply : call.Reply}
    (asked : play node history (chain.ask call) = (.ok reply, reached)) :
    history <+: reached ∧ Heard chain.url reached call reply := by
  rw [ask_grows chain asked]
  exact ⟨List.prefix_append _ _, List.mem_append_right _ (List.mem_singleton.mpr rfl)⟩

/-- The node has reported a transaction confirmed, without an error. -/
def Confirmed (url : String) (history : List (Event Answer)) (tx : Transaction) : Prop :=
  ∃ others, Heard url history (.getSignatureStatuses [tx.signature]) (some ⟨none, true⟩ :: others)

theorem Confirmed.grow {tx : Transaction} (confirmed : Confirmed url history tx)
    (grown : history <+: reached) : Confirmed url reached tx := by
  obtain ⟨others, heard⟩ := confirmed
  exact ⟨others, heard.grow grown⟩

/-- A submission returns the signature of its transaction, and only once the node has reported it
confirmed. -/
theorem pollStatus_confirmed (chain : RpcChain) {sdk : Sdk} {tx : Transaction} {remaining : Nat}
    {poll : Nat} {lastSendError : Option String} {signature : Signature}
    (submitted : play node history (chain.pollStatus sdk tx remaining poll lastSendError) =
      (.ok signature, reached)) :
    signature = tx.signature ∧ Confirmed chain.url reached tx := by
  induction remaining generalizing history poll lastSendError with
  | zero =>
    exact absurd (congrArg Prod.fst submitted)
      (by simp [RpcChain.pollStatus, invalidInput, play_throw])
  | succ remaining inductionHypothesis =>
    unfold RpcChain.pollStatus at submitted
    obtain ⟨newSendError, sentAt, _, submitted⟩ := play_bind_ok.mp submitted
    obtain ⟨statuses, polledAt, polled, submitted⟩ := play_bind_ok.mp submitted
    obtain ⟨_, heard⟩ := ask_heard chain polled
    split at submitted
    · exact absurd (congrArg Prod.fst submitted) (by simp [play_throw])
    · exact absurd (congrArg Prod.fst submitted) (by simp [invalidInput, play_throw])
    · rename_i others
      obtain ⟨same, rfl⟩ := Prod.mk.inj submitted
      exact ⟨(Except.ok.inj same).symm, others, heard⟩
    · exact inductionHypothesis submitted

end Hearing

/-! ### The quote -/

section Quoting

variable {node : Node Answer} {sdk : Sdk} {cfg : LiveActionConfig}
  {history reached : List (Event Answer)}

/-- The lamports of a stake cover the rent and the minimum delegation the node has named. -/
def StakeCovered (url : String) (history : List (Event Answer)) : LiveAction → Prop
  | .stake _ lamports => ∃ stakeRent minDelegation,
    Heard url history (.getMinimumBalanceForRentExemption stakeAccountSpace) stakeRent ∧
    Heard url history .getStakeMinimumDelegation minDelegation ∧
    stakeRent + minDelegation ≤ lamports
  | _ => True

theorem StakeCovered.grow {url : String} {action : LiveAction}
    (covered : StakeCovered url history action) (grown : history <+: reached) :
    StakeCovered url reached action := by
  cases action with
  | transfer destination lamports => exact trivial
  | memo text => exact trivial
  | stake vote lamports =>
    obtain ⟨stakeRent, minDelegation, rent, minimum, enough⟩ := covered
    exact ⟨stakeRent, minDelegation, rent.grow grown, minimum.grow grown, enough⟩

theorem checkStakeFunding_covered {chain : RpcChain} {action : LiveAction} {result : Unit}
    (checked : play node history (checkStakeFunding chain action) = (.ok result, reached)) :
    StakeCovered chain.url reached action := by
  cases action with
  | transfer destination lamports => exact trivial
  | memo text => exact trivial
  | stake vote lamports =>
    obtain ⟨stakeRent, rentAt, rent, checked⟩ := play_bind_ok.mp checked
    obtain ⟨minDelegation, minimumAt, minimum, checked⟩ := play_bind_ok.mp checked
    obtain ⟨required, _, sum, checked⟩ := play_bind_ok.mp checked
    obtain ⟨noWrap, rfl⟩ := play_orInvalid_eq_ok.mp sum
    obtain ⟨enough, rfl⟩ := play_orStop_eq_ok.mp checked
    obtain ⟨_, rfl⟩ := checkedU64_eq_some.mp noWrap
    obtain ⟨_, rentHeard⟩ := ask_heard chain rent
    obtain ⟨grown, minimumHeard⟩ := ask_heard chain minimum
    exact ⟨stakeRent, minDelegation, rentHeard.grow grown, minimumHeard,
      of_decide_eq_true (ensure_eq_ok.mp enough)⟩

/-- A quote that passed every check, on what the node has said so far. -/
structure Quoted.Backed (sdk : Sdk) (cfg : LiveActionConfig) (quoted : Quoted)
    (rentExemptMin : Nat) (history : List (Event Answer)) : Prop where
  validated : cfg.validate sdk = .ok ()
  source : sdk.readKeypairFile cfg.payerPath = .ok quoted.source
  plan : planAction sdk cfg.action quoted.source (stakeKp sdk cfg.action) = .ok quoted.plan
  stake : StakeCovered cfg.rpcUrl history cfg.action
  rent : Heard cfg.rpcUrl history (.getMinimumBalanceForRentExemption 0) rentExemptMin
  fees : ∃ quoteHash,
    Heard cfg.rpcUrl history (.getFeeForMessage
      (buildActionTx sdk quoted.plan sdk.feePayer quoteHash).message) quoted.actionFee ∧
    Heard cfg.rpcUrl history (.getFeeForMessage (buildTransfer sdk quoted.source
      sdk.feePayer.pubkey quoted.feePayerTopup quoted.source quoteHash).message) quoted.fundingFee
  balance : Heard cfg.rpcUrl history (.getBalance quoted.source.pubkey) quoted.sourceBalance
  topup : quoted.feePayerTopup = quoted.actionFee + rentExemptMin
  topupLimit : quoted.feePayerTopup ≤ cfg.maxFeePayerTopup
  required : quoted.requiredDebit =
    quoted.plan.sourceDebit + quoted.feePayerTopup + quoted.fundingFee
  noWrap : quoted.requiredDebit ≤ u64Max
  ceiling : quoted.requiredDebit ≤ cfg.maxTotalDebit
  funds : quoted.requiredDebit ≤ quoted.sourceBalance

variable {quoted : Quoted} {rentExemptMin : Nat}

theorem Quoted.Backed.grow (backed : quoted.Backed sdk cfg rentExemptMin history)
    (grown : history <+: reached) : quoted.Backed sdk cfg rentExemptMin reached := by
  obtain ⟨quoteHash, actionFee, fundingFee⟩ := backed.fees
  exact { backed with
    stake := backed.stake.grow grown
    rent := backed.rent.grow grown
    fees := ⟨quoteHash, actionFee.grow grown, fundingFee.grow grown⟩
    balance := backed.balance.grow grown }

theorem quoteAction_backed
    (quotes : play node history (quoteAction sdk cfg) = (.ok quoted, reached)) :
    ∃ rentExemptMin, quoted.Backed sdk cfg rentExemptMin reached := by
  unfold quoteAction at quotes
  obtain ⟨_, _, validated, quotes⟩ := play_bind_ok.mp quotes
  obtain ⟨source, _, read, quotes⟩ := play_bind_ok.mp quotes
  obtain ⟨_, stakeAt, stake, quotes⟩ := play_bind_ok.mp quotes
  obtain ⟨plan, _, planned, quotes⟩ := play_bind_ok.mp quotes
  obtain ⟨rfl⟩ := (play_orStop_eq_ok.mp planned).2
  obtain ⟨quoteHash, hashAt, hash, quotes⟩ := play_bind_ok.mp quotes
  obtain ⟨actionFee, actionFeeAt, actionFeeAsked, quotes⟩ := play_bind_ok.mp quotes
  obtain ⟨rentExemptMin, rentAt, rent, quotes⟩ := play_bind_ok.mp quotes
  obtain ⟨feePayerTopup, _, topup, quotes⟩ := play_bind_ok.mp quotes
  obtain ⟨rfl⟩ := (play_orInvalid_eq_ok.mp topup).2
  obtain ⟨_, _, topupLimit, quotes⟩ := play_bind_ok.mp quotes
  obtain ⟨rfl⟩ := (play_orStop_eq_ok.mp topupLimit).2
  obtain ⟨fundingFee, fundingFeeAt, fundingFeeAsked, quotes⟩ := play_bind_ok.mp quotes
  obtain ⟨requiredDebit, _, required, quotes⟩ := play_bind_ok.mp quotes
  obtain ⟨rfl⟩ := (play_orInvalid_eq_ok.mp required).2
  obtain ⟨_, _, ceiling, quotes⟩ := play_bind_ok.mp quotes
  obtain ⟨rfl⟩ := (play_orStop_eq_ok.mp ceiling).2
  obtain ⟨sourceBalance, balanceAt, balance, quotes⟩ := play_bind_ok.mp quotes
  obtain ⟨_, _, funds, quotes⟩ := play_bind_ok.mp quotes
  obtain ⟨rfl⟩ := (play_orStop_eq_ok.mp funds).2
  obtain ⟨same, rfl⟩ := Prod.mk.inj quotes
  rw [← Except.ok.inj same]
  -- what was heard earlier is still heard at the end
  have stakeCovered := checkStakeFunding_covered stake
  obtain ⟨hashGrown, _⟩ := ask_heard ⟨cfg.rpcUrl⟩ hash
  obtain ⟨actionGrown, actionHeard⟩ := ask_heard ⟨cfg.rpcUrl⟩ actionFeeAsked
  obtain ⟨rentGrown, rentHeard⟩ := ask_heard ⟨cfg.rpcUrl⟩ rent
  obtain ⟨fundingGrown, fundingHeard⟩ := ask_heard ⟨cfg.rpcUrl⟩ fundingFeeAsked
  obtain ⟨balanceGrown, balanceHeard⟩ := ask_heard ⟨cfg.rpcUrl⟩ balance
  have afterRent := fundingGrown.trans balanceGrown
  have afterAction := rentGrown.trans afterRent
  have afterStake := (hashGrown.trans actionGrown).trans afterAction
  obtain ⟨value, first, second⟩ := Option.bind_eq_some_iff.mp (play_orInvalid_eq_ok.mp required).1
  obtain ⟨_, rfl⟩ := checkedU64_eq_some.mp first
  obtain ⟨bound, rfl⟩ := checkedU64_eq_some.mp second
  exact ⟨rentExemptMin, {
    validated := (play_orStop_eq_ok.mp validated).1
    source := (play_orStop_eq_ok.mp read).1
    plan := (play_orStop_eq_ok.mp planned).1
    stake := stakeCovered.grow afterStake
    rent := rentHeard.grow afterRent
    fees := ⟨quoteHash, actionHeard.grow afterAction, fundingHeard.grow balanceGrown⟩
    balance := balanceHeard
    topup := (checkedU64_eq_some.mp (play_orInvalid_eq_ok.mp topup).1).2.symm
    topupLimit := of_decide_eq_true (ensure_eq_ok.mp (play_orStop_eq_ok.mp topupLimit).1)
    required := rfl
    noWrap := bound
    ceiling := of_decide_eq_true (ensure_eq_ok.mp (play_orStop_eq_ok.mp ceiling).1)
    funds := of_decide_eq_true (ensure_eq_ok.mp (play_orStop_eq_ok.mp funds).1) }⟩

end Quoting

end AccountCooker.Live
