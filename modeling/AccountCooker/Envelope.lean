/-
This file settles what a live action submits, and when. Every transaction in its
history was allowed by what it had been told before: the quote it rests on was
answered and passed every limit, and an action is submitted only after the node
reported its funding transaction confirmed and a fee that leaves the fee payer
rent-exempt.

Each part of a call is silent, or submits one transaction that the replies
before it allow; and replies are not lost, so the whole history is guarded.
-/

import Mathlib
import AccountCooker.Ceiling

namespace AccountCooker.Live

open Interaction

/-! ### What may be submitted -/

section Submitting

variable {node : Node Answer} {sdk : Sdk} {cfg : LiveActionConfig}
  {history reached : List (Event Answer)} {quoted : Quoted} {rentExemptMin : Nat}

/-- The funding transaction of a quote, under a blockhash. -/
def fundingOf (sdk : Sdk) (quoted : Quoted) (fundingHash : Hash) : Transaction :=
  buildTransfer sdk quoted.source sdk.feePayer.pubkey quoted.feePayerTopup quoted.source fundingHash

/-- The action may follow a funding transaction: that was submitted and reported confirmed, and the
fee reported for this very message leaves the fee payer the rent-exempt minimum of its top-up. -/
structure MayAct (cfg : LiveActionConfig) (quoted : Quoted) (rentExemptMin : Nat)
    (history : List (Event Answer)) (fundingTx actionTx : Transaction) : Prop where
  submitted : fundingTx ∈ sent history
  confirmed : Confirmed cfg.rpcUrl history fundingTx
  solvent : ∃ fee : Nat, Heard cfg.rpcUrl history (.getFeeForMessage actionTx.message) fee ∧
    fee + rentExemptMin ≤ quoted.feePayerTopup

/-- The transaction is covered by what the node has said: there is a quote that passed every check,
and the transaction is its funding, or its action and that may follow. -/
def Covered (sdk : Sdk) (cfg : LiveActionConfig) (history : List (Event Answer))
    (tx : Transaction) : Prop :=
  cfg.execute = true ∧ ∃ quoted rentExemptMin fundingHash,
    Quoted.Backed sdk cfg quoted rentExemptMin history ∧
    (tx = fundingOf sdk quoted fundingHash ∨
      ∃ actionHash, tx = buildActionTx sdk quoted.plan sdk.feePayer actionHash) ∧
    ∀ actionHash, tx = buildActionTx sdk quoted.plan sdk.feePayer actionHash →
      MayAct cfg quoted rentExemptMin history (fundingOf sdk quoted fundingHash) tx

theorem MayAct.grow {fundingTx actionTx : Transaction}
    (may : MayAct cfg quoted rentExemptMin history fundingTx actionTx)
    (grown : history <+: reached) :
    MayAct cfg quoted rentExemptMin reached fundingTx actionTx := by
  obtain ⟨fee, heard, solvent⟩ := may.solvent
  exact ⟨sent_grows grown may.submitted, may.confirmed.grow grown, fee, heard.grow grown, solvent⟩

theorem Covered.grow {tx : Transaction} (covered : Covered sdk cfg history tx)
    (grown : history <+: reached) : Covered sdk cfg reached tx := by
  obtain ⟨executes, quoted, rentExemptMin, fundingHash, backed, one, may⟩ := covered
  exact ⟨executes, quoted, rentExemptMin, fundingHash, backed.grow grown, one,
    fun actionHash action => (may actionHash action).grow grown⟩

/-- What a live action may ask for after a history: no transaction that is not covered. -/
def Permitted (sdk : Sdk) (cfg : LiveActionConfig) (history : List (Event Answer))
    (request : Request) : Prop :=
  ∀ tx, request.call = .sendTransaction tx → Covered sdk cfg history tx

theorem permitted_stable (request : Request) (first second : List (Event Answer))
    (grown : first <+: second) (permitted : Permitted sdk cfg first request) :
    Permitted sdk cfg second request := fun tx call => (permitted tx call).grow grown

/-- A funding transaction is no action: it moves the top-up to the fee payer, and nothing else. -/
theorem fundingOf_ne_action (planned : planAction sdk cfg.action quoted.source
      (stakeKp sdk cfg.action) = .ok quoted.plan) (fundingHash actionHash : Hash) :
    fundingOf sdk quoted fundingHash ≠ buildActionTx sdk quoted.plan sdk.feePayer actionHash := by
  intro same
  have messages : (⟨quoted.source.pubkey,
        [.transfer quoted.source.pubkey sdk.feePayer.pubkey quoted.feePayerTopup],
        fundingHash⟩ : Message) =
      ⟨sdk.feePayer.pubkey, quoted.plan.instructions, actionHash⟩ := by
    rw [← @buildTransfer_message sdk]
    exact congrArg Transaction.message same
  obtain ⟨payer, instructions, _⟩ := Message.mk.inj messages
  cases action : cfg.action with
  | transfer destination lamports =>
    rw [action] at planned
    simp only [planAction] at planned
    split at planned
    · exact absurd planned (by simp)
    · rename_i different
      rw [← Except.ok.inj planned] at instructions
      obtain ⟨_, receiver, _⟩ := Instruction.transfer.inj (List.cons.inj instructions).1
      exact different (payer.trans receiver)
  | stake vote lamports =>
    rw [action] at planned
    rw [← Except.ok.inj planned] at instructions
    exact absurd (List.cons.inj instructions).1 (by simp)
  | memo text =>
    rw [action] at planned
    simp only [planAction] at planned
    split at planned
    · exact absurd planned (by simp)
    · split at planned
      · exact absurd planned (by simp)
      · rw [← Except.ok.inj planned] at instructions
        exact absurd (List.cons.inj instructions).1 (by simp)

/-! ### The parts of a call -/

/-- A silent part keeps the history guarded. -/
theorem guarded_silent {Result : Type} {program : Rpc Result}
    (guarded : Guarded (Permitted sdk cfg) history) (silent : program.run.Asks Silent) :
    Guarded (Permitted sdk cfg) (play node history program).2 :=
  guarded_run node permitted_stable guarded
    (Program.asks_mono (fun _ quiet tx call => absurd call (quiet tx)) silent)

/-- So does the submission of a covered transaction. -/
theorem guarded_submit {tx : Transaction} (guarded : Guarded (Permitted sdk cfg) history)
    (covered : Covered sdk cfg history tx) :
    Guarded (Permitted sdk cfg) (play node history (submit sdk cfg tx)).2 := by
  refine guarded_run node permitted_stable guarded
    (Program.asks_mono (fun request only other call => ?_)
      (only_pollStatus (max cfg.statusPolls 1) 0 none))
  rw [only other call]
  exact covered

/-- An action is built only at a fee that leaves the fee payer rent-exempt. -/
theorem buildAction_solvent {actionTx : Transaction}
    (builds : play node history (buildAction sdk cfg quoted) = (.ok actionTx, reached)) :
    ∃ fee : Nat, Heard cfg.rpcUrl reached (.getFeeForMessage actionTx.message) fee ∧
      fee ≤ quoted.actionFee := by
  obtain ⟨actionHash, hashAt, _, builds⟩ := play_bind_ok.mp builds
  obtain ⟨actualActionFee, feeAt, asked, builds⟩ := play_bind_ok.mp builds
  obtain ⟨_, _, within, built⟩ := play_bind_ok.mp builds
  obtain ⟨bound, rfl⟩ := play_orStop_eq_ok.mp within
  obtain ⟨same, rfl⟩ := Prod.mk.inj built
  obtain ⟨_, heard⟩ := ask_heard ⟨cfg.rpcUrl⟩ asked
  rw [← Except.ok.inj same]
  exact ⟨actualActionFee, heard, of_decide_eq_true (ensure_eq_ok.mp bound)⟩

theorem covered_funding (executes : cfg.execute = true)
    (backed : quoted.Backed sdk cfg rentExemptMin history) (fundingHash : Hash) :
    Covered sdk cfg history (fundingOf sdk quoted fundingHash) :=
  ⟨executes, quoted, rentExemptMin, fundingHash, backed, Or.inl rfl, fun actionHash action =>
    absurd action (fundingOf_ne_action backed.plan fundingHash actionHash)⟩

theorem covered_action (executes : cfg.execute = true) {fundingHash actionHash : Hash}
    (backed : quoted.Backed sdk cfg rentExemptMin history)
    (may : MayAct cfg quoted rentExemptMin history (fundingOf sdk quoted fundingHash)
      (buildActionTx sdk quoted.plan sdk.feePayer actionHash)) :
    Covered sdk cfg history (buildActionTx sdk quoted.plan sdk.feePayer actionHash) :=
  ⟨executes, quoted, rentExemptMin, fundingHash, backed, Or.inr ⟨actionHash, rfl⟩, fun _ _ => may⟩

/-- Every submission of a live action is covered by what the node said before it. -/
theorem guarded_runLiveAction :
    Guarded (Permitted sdk cfg) (play node [] (runLiveAction sdk cfg)).2 := by
  unfold runLiveAction
  refine guarded_bind (guarded_silent guarded_nil silent_quoteAction)
    fun quoted quotedAt quotes guarded => ?_
  obtain ⟨rentExemptMin, backed⟩ := quoteAction_backed quotes
  cases executes : cfg.execute with
  | false => exact guarded
  | true =>
    show Guarded _ (play node quotedAt (buildFunding sdk cfg quoted >>= _)).2
    refine guarded_bind (guarded_silent guarded silent_buildFunding)
      fun fundingTx fundedAt builds guarded => ?_
    obtain ⟨fundingHash, rfl⟩ := buildFunding_built builds
    have funding := backed.grow (play_grows builds)
    refine guarded_bind (guarded_submit guarded (covered_funding executes funding fundingHash))
      fun fundingSignature confirmedAt submits guarded => ?_
    have submitted := @sent_submit node sdk cfg fundedAt (fundingOf sdk quoted fundingHash)
    rw [show play node fundedAt (submit sdk cfg (fundingOf sdk quoted fundingHash)) =
      (.ok fundingSignature, confirmedAt) from submits] at submitted
    obtain ⟨_, confirmed⟩ := pollStatus_confirmed ⟨cfg.rpcUrl⟩ submits
    refine guarded_bind (guarded_silent guarded silent_buildAction)
      fun actionTx builtAt acts guarded => ?_
    have grown := play_grows acts
    obtain ⟨fee, heard, bound⟩ := buildAction_solvent acts
    obtain ⟨actionHash, rfl⟩ := buildAction_built acts
    have acting := funding.grow ((play_grows submits).trans grown)
    have solvent : fee + rentExemptMin ≤ quoted.feePayerTopup := by
      rw [backed.topup]
      exact Nat.add_le_add_right bound rentExemptMin
    have may : MayAct cfg quoted rentExemptMin builtAt (fundingOf sdk quoted fundingHash)
        (buildActionTx sdk quoted.plan sdk.feePayer actionHash) := {
      submitted := sent_grows grown (submitted ▸ Finset.mem_insert_self _ _)
      confirmed := confirmed.grow grown
      solvent := ⟨fee, heard, solvent⟩ }
    refine guarded_bind (guarded_submit guarded (covered_action executes acting may))
      fun actionSignature _ _ guarded => ?_
    exact guarded

end Submitting

/-! ### Transfers -/

/-- The action a transfer is run as. -/
def LiveTransferConfig.action (cfg : LiveTransferConfig) (destination : AccountId) :
    LiveActionConfig :=
  ⟨cfg.rpcUrl, cfg.payerPath, .transfer destination cfg.lamports, cfg.maxTotalDebit,
    cfg.maxFeePayerTopup, cfg.statusPolls, cfg.allowRemoteRpc, cfg.execute⟩

/-- A transfer makes no request, or exactly those of its action. -/
theorem runLiveTransfer_history (sdk : Sdk) (cfg : LiveTransferConfig) (node : Node Answer) :
    (play node [] (runLiveTransfer sdk cfg)).2 = [] ∨ ∃ destination,
      sdk.parsePubkey cfg.destination = .ok destination ∧ cfg.validate sdk = .ok () ∧
      (play node [] (runLiveTransfer sdk cfg)).2 =
        (play node [] (runLiveAction sdk (cfg.action destination))).2 := by
  unfold runLiveTransfer
  cases parsed : sdk.parsePubkey cfg.destination with
  | error message => exact Or.inl (congrArg Prod.snd (play_orStop_bind node [] _ _))
  | ok destination =>
    cases validated : cfg.validate sdk with
    | error message =>
      refine Or.inl ?_
      rw [play_bind]
      exact congrArg Prod.snd (play_orStop_bind node [] message _)
    | ok _ =>
      refine Or.inr ⟨destination, rfl, rfl, ?_⟩
      show (play node [] (runLiveAction sdk (cfg.action destination) >>= _)).2 = _
      rw [play_bind]
      rcases play node [] (runLiveAction sdk (cfg.action destination)) with
        ⟨stop | receipt, reached⟩
      · rfl
      · rfl

/-- A live action submits only what its node has covered, and a transfer nothing else. -/
theorem submissions_covered (sdk : Sdk) (node : Node Answer) :
    (∀ (cfg : LiveActionConfig) before event after tx,
      (play node [] (runLiveAction sdk cfg)).2 = before ++ event :: after →
      event.request.call = .sendTransaction tx → Covered sdk cfg before tx) ∧
    ∀ cfg : LiveTransferConfig,
      (play node [] (runLiveTransfer sdk cfg)).2 = [] ∨ ∃ destination,
        sdk.parsePubkey cfg.destination = .ok destination ∧ cfg.validate sdk = .ok () ∧
        (play node [] (runLiveTransfer sdk cfg)).2 =
          (play node [] (runLiveAction sdk (cfg.action destination))).2 :=
  ⟨fun _ before event after tx split call =>
      guarded_runLiveAction before event after split tx call,
    fun cfg => runLiveTransfer_history sdk cfg node⟩

/-- Against a node that grants everything, the small transfer submits two transactions, and both
are covered. -/
theorem submissions_covered_small :
    (sent (play (grantingNode fun _ => 5000) []
      (runLiveAction smallSdk smallTransfer)).2).card = 2 ∧
    ∀ tx ∈ sent (play (grantingNode fun _ => 5000) [] (runLiveAction smallSdk smallTransfer)).2,
      ∃ before, Covered smallSdk smallTransfer before tx := by
  refine ⟨by decide +kernel, fun tx member => ?_⟩
  obtain ⟨event, inside, call⟩ := mem_sent.mp member
  obtain ⟨before, after, split⟩ := List.append_of_mem inside
  exact ⟨before, (submissions_covered smallSdk (grantingNode fun _ => 5000)).1 smallTransfer before
    event after tx split call⟩

end AccountCooker.Live
