/-
This file settles which live commands keep away from a remote node they were not
allowed to use. Both configurations refuse it in their validation, and a live
action validates before it makes its first request. The one request made ahead
of any validation is the one that picks a vote account for a stake that names
none.
-/

import Mathlib
import AccountCooker.Live

namespace AccountCooker.Live

open Interaction

/-! ### The gate -/

section Gate

variable {sdk : Sdk} (node : Node Answer) (history : List (Event Answer))

theorem LiveActionConfig.validate_remote {cfg : LiveActionConfig}
    (refused : cfg.allowRemoteRpc = false) (remote : isLoopbackRpc sdk cfg.rpcUrl = false) :
    cfg.validate sdk = .error remoteRefused := by
  unfold LiveActionConfig.validate
  rw [refused, remote]
  rfl

theorem LiveTransferConfig.validate_remote {cfg : LiveTransferConfig}
    (refused : cfg.allowRemoteRpc = false) (remote : isLoopbackRpc sdk cfg.rpcUrl = false) :
    cfg.validate sdk = .error remoteRefused := by
  unfold LiveTransferConfig.validate
  rw [refused, remote]
  rfl

/-- A live action is refused before its first request. -/
theorem runLiveAction_remote {cfg : LiveActionConfig} (refused : cfg.allowRemoteRpc = false)
    (remote : isLoopbackRpc sdk cfg.rpcUrl = false) :
    play node history (runLiveAction sdk cfg) = (.error (.error remoteRefused), history) := by
  unfold runLiveAction quoteAction
  rw [play_bind, LiveActionConfig.validate_remote refused remote, play_orStop_bind]

/-- A transfer to a text that is no account is refused for that, any other for its endpoint. -/
theorem runLiveTransfer_remote {cfg : LiveTransferConfig} (refused : cfg.allowRemoteRpc = false)
    (remote : isLoopbackRpc sdk cfg.rpcUrl = false) :
    ∃ message, play node history (runLiveTransfer sdk cfg) =
      (.error (.error message), history) := by
  unfold runLiveTransfer
  rw [LiveTransferConfig.validate_remote refused remote]
  cases sdk.parsePubkey cfg.destination with
  | error message => exact ⟨_, play_orStop_bind node history _ _⟩
  | ok destination =>
    refine ⟨remoteRefused, ?_⟩
    rw [play_bind]
    exact play_orStop_bind node history remoteRefused _

/-- The commands that end in `run_live_action` are refused with it. -/
theorem liveAction_remote {args : LiveArgs} (action : LiveAction)
    (refused : args.allowRemoteRpc = false) (remote : isLoopbackRpc sdk args.rpcUrl = false) :
    play node history ((LiveCommand.liveAction action).run sdk args) =
      (.error (.error remoteRefused), history) := by
  have stopped : play node history (runLiveAction sdk ⟨args.rpcUrl, args.payer, action,
      args.maxTotalDebit, args.maxFeePayerTopup, args.statusPolls, args.allowRemoteRpc,
      args.execute⟩) = (.error (.error remoteRefused), history) :=
    runLiveAction_remote node history refused remote
  show play node history (Receipt.action <$> runLiveAction sdk _) = _
  rw [play_map, stopped]
  rfl

/-- A command that names what it needs is refused before its first request. -/
theorem LiveCommand.run_remote {args : LiveArgs} {command : LiveCommand}
    (refused : args.allowRemoteRpc = false) (remote : isLoopbackRpc sdk args.rpcUrl = false)
    (named : ∀ lamports, command ≠ .liveStake none lamports) :
    ∃ message, play node history (command.run sdk args) = (.error (.error message), history) := by
  cases command with
  | liveTransfer destination lamports =>
    obtain ⟨message, stopped⟩ : ∃ message, play node history (runLiveTransfer sdk ⟨args.rpcUrl,
        args.payer, destination, lamports, args.maxTotalDebit, args.maxFeePayerTopup,
        args.statusPolls, args.allowRemoteRpc, args.execute⟩) =
          (.error (.error message), history) :=
      runLiveTransfer_remote node history refused remote
    refine ⟨message, ?_⟩
    show play node history (Receipt.transfer <$> runLiveTransfer sdk _) = _
    rw [play_map, stopped]
    rfl
  | liveAction action => exact ⟨remoteRefused, liveAction_remote node history action refused remote⟩
  | liveStake vote lamports =>
    cases vote with
    | none => exact absurd rfl (named lamports)
    | some text =>
      simp only [LiveCommand.run, Live.liveStake, stakeAction, resolveVote, play_bind]
      cases sdk.parsePubkey text with
      | error message => exact ⟨_, rfl⟩
      | ok vote =>
        exact ⟨remoteRefused, liveAction_remote node history (.stake vote lamports) refused remote⟩

/-- Without a vote account the stake is built from what the node answers. -/
theorem liveStake_asks (args : LiveArgs) (lamports : Nat) :
    history ++ [⟨⟨args.rpcUrl, .getVoteAccounts⟩, node history ⟨args.rpcUrl, .getVoteAccounts⟩⟩] <+:
      (play node history ((LiveCommand.liveStake none lamports).run sdk args)).2 := by
  have picked : history ++
      [⟨⟨args.rpcUrl, .getVoteAccounts⟩, node history ⟨args.rpcUrl, .getVoteAccounts⟩⟩] <+:
      (play node history (RpcChain.pickVoteAccount ⟨args.rpcUrl⟩ sdk)).2 :=
    (play_bind_grows node history (RpcChain.attempt ⟨args.rpcUrl⟩ .getVoteAccounts) _).trans
      (play_bind_grows node history _ _)
  exact (picked.trans (play_bind_grows node history _ _)).trans
    (play_bind_grows node history _ _)

end Gate

/-- A command kept from a remote endpoint makes no request of it and ends in an error, unless it
is a stake without a vote account. -/
theorem remote_refused (sdk : Sdk) (node : Node Answer) (args : LiveArgs) (command : LiveCommand)
    (refused : args.allowRemoteRpc = false) (remote : isLoopbackRpc sdk args.rpcUrl = false) :
    ((play node [] (command.run sdk args)).2 = [] ∧
      ∃ message, (play node [] (command.run sdk args)).1 = .error (.error message)) ↔
    ∀ lamports, command ≠ .liveStake none lamports := by
  constructor
  · intro kept lamports stake
    have asked := @liveStake_asks sdk node [] args lamports
    rw [← stake, kept.1] at asked
    exact absurd (List.prefix_nil.mp asked) (List.cons_ne_nil _ _)
  · intro named
    obtain ⟨message, stopped⟩ := LiveCommand.run_remote node [] refused remote named
    rw [stopped]
    exact ⟨rfl, message, rfl⟩

/-- The arguments of a stake on a devnet endpoint, everything else by default. -/
def devnetArgs : LiveArgs :=
  ⟨"https://api.devnet.solana.com", "payer.json", 1300000000, 2000000, 30, false, false⟩

/-- A node no request reaches. -/
def downNode : Node Answer := fun _ _ => .error "error sending request"

theorem isLoopbackRpc_devnet : isLoopbackRpc smallSdk devnetArgs.rpcUrl = false := by
  decide +kernel

theorem remote_refused_devnet :
    (play downNode [] ((LiveCommand.liveAction (.memo "hi")).run smallSdk devnetArgs)).2 = [] ∧
      ∃ message,
        (play downNode [] ((LiveCommand.liveAction (.memo "hi")).run smallSdk devnetArgs)).1 =
          .error (.error message) :=
  (remote_refused smallSdk downNode devnetArgs (.liveAction (.memo "hi")) rfl
    isLoopbackRpc_devnet).mpr fun _ => LiveCommand.noConfusion

/-- The stake that picks its vote account asks the devnet endpoint for one, opt-in or not. -/
theorem remote_asked_devnet :
    devnetArgs.allowRemoteRpc = false ∧ isLoopbackRpc smallSdk devnetArgs.rpcUrl = false ∧
    ¬ ((play downNode []
          ((LiveCommand.liveStake none 1100000000).run smallSdk devnetArgs)).2 = [] ∧
        ∃ message, (play downNode []
          ((LiveCommand.liveStake none 1100000000).run smallSdk devnetArgs)).1 =
            .error (.error message)) := by
  refine ⟨rfl, isLoopbackRpc_devnet, fun kept => ?_⟩
  have asked := @liveStake_asks smallSdk downNode [] devnetArgs 1100000000
  rw [kept.1] at asked
  exact absurd (List.prefix_nil.mp asked) (List.cons_ne_nil _ _)

end AccountCooker.Live
