/-
This file models the live path: the transactions it assembles, the requests it
makes of an RPC node, and the commands that start it. Every request carries the
URL it goes to, and every answer may be an error of the client.

Keys, signatures, URLs and the text of a key come from other libraries. They are
the fields of an `Sdk`, which also holds the two keypairs a call generates.

A live action quotes first and moves money second. The quote ends with the
balance check; up to there no transaction has been sent.
-/

import Mathlib
import AccountCooker.Machine
import AccountCooker.Ledger
import AccountCooker.Interaction

namespace AccountCooker.Live

open Interaction

/-! ### Transactions -/

/-- A keypair, by its public half; the secret half is only signed with. -/
structure Keypair where
  pubkey : AccountId
deriving DecidableEq

/-- A blockhash, as the number its bytes spell. -/
structure Hash where
  bytes : Fin (2 ^ 256)
deriving DecidableEq

/-- A transaction signature. -/
structure Signature where
  bytes : List UInt8
deriving DecidableEq

/-- The instructions the live path issues. -/
inductive Instruction
  | transfer (sender receiver : AccountId) (lamports : Nat)
  | createAccount (sender created : AccountId) (lamports space : Nat)
  | initializeStake (stake staker withdrawer : AccountId)
  | delegateStake (stake authority vote : AccountId)
  | memo (programId : AccountId) (data : List UInt8) (signer : AccountId)
deriving DecidableEq

/-- A message: what is signed and what a fee is quoted for. -/
structure Message where
  feePayer : AccountId
  instructions : List Instruction
  recentBlockhash : Hash
deriving DecidableEq

/-- A signed transaction. Its first signature, the fee payer's, names it. -/
structure Transaction where
  message : Message
  signers : List AccountId
  signature : Signature
deriving DecidableEq

/-- SPL Memo program (v2). -/
def memoProgramId : String := "MemoSq4gqABAXKb96qnH8TysNcWxMyWCqXgDLGmfcHr"

/-- The space of a stake account. -/
def stakeAccountSpace : Nat := 200

/-- The cap on the bytes of a memo. -/
def memoMaxBytes : Nat := 500

/-! ### URLs and keys -/

inductive Host
  | domain (name : String)
  | ipv4 (first second third fourth : UInt8)
  | ipv6 (address : BitVec 128)

/-- What the code reads of a parsed URL. -/
structure Url where
  scheme : String
  host : Option Host

/-- What the live path has from other libraries, and the keypairs generated for one call. -/
structure Sdk where
  parseUrl : String → Option Url
  parsePubkey : String → Except String AccountId
  pubkeyText : AccountId → String
  readKeypairFile : String → Except String Keypair
  sign : AccountId → Message → Signature
  signatureText : Signature → String
  feePayer : Keypair
  stakeKeypair : Keypair

/-- The address is a loopback address. -/
def Host.isLoopback : Host → Bool
  | .domain name => name.toLower == "localhost"
  | .ipv4 first _ _ _ => first == 127
  | .ipv6 address => address == 1

def isLoopbackRpc (sdk : Sdk) (url : String) : Bool :=
  match sdk.parseUrl (trim url) with
  | none => false
  | some parsed =>
    if parsed.scheme == "http" || parsed.scheme == "https" then
      match parsed.host with
      | some host => host.isLoopback
      | none => false
    else false

/-! ### Requests -/

/-- A current vote account of the cluster. -/
structure VoteAccount where
  votePubkey : String
  activatedStake : Nat

/-- The status of a transaction: its error as text, and what `satisfies_commitment` says of it at
`confirmed`. -/
structure TransactionStatus where
  err : Option String
  satisfiesCommitment : Bool

inductive Call
  | getLatestBlockhash
  | getFeeForMessage (message : Message)
  | getMinimumBalanceForRentExemption (dataLen : Nat)
  | getStakeMinimumDelegation
  | getVoteAccounts
  | getBalance (pubkey : AccountId)
  | sendTransaction (tx : Transaction)
  | isBlockhashValid (blockhash : Hash)
  | getSignatureStatuses (signatures : List Signature)
deriving DecidableEq

/-- What a successful call returns. -/
abbrev Call.Reply : Call → Type
  | .getLatestBlockhash => Hash
  | .getFeeForMessage _ => Nat
  | .getMinimumBalanceForRentExemption _ => Nat
  | .getStakeMinimumDelegation => Nat
  | .getVoteAccounts => List VoteAccount
  | .getBalance _ => Nat
  | .sendTransaction _ => Signature
  | .isBlockhashValid _ => Bool
  | .getSignatureStatuses _ => List (Option TransactionStatus)

/-- A call and the URL it goes to. -/
structure Request where
  url : String
  call : Call
deriving DecidableEq

/-- The answer to a request: an error of the client, as text, or the reply. -/
abbrev Answer (request : Request) : Type := Except String request.call.Reply

/-- How the live path stops short: with an error, by its text, or with a panic. -/
inductive Stop
  | error (message : String)
  | panicked
deriving DecidableEq

/-- The computations of the live path. -/
abbrev Rpc := ExceptT Stop (Program Answer)

/-- `Err(invalid_input(message))`. -/
def invalidInput {Result : Type} (message : String) : Rpc Result := throw (.error message)

/-- The `?` operator on a result whose error is its text. -/
def orStop {Result : Type} : Except String Result → Rpc Result
  | .ok result => pure result
  | .error message => throw (.error message)

/-- `ok_or_else(|| invalid_input(message))?`. -/
def orInvalid {Result : Type} (message : String) : Option Result → Rpc Result
  | some result => pure result
  | none => invalidInput message

section Stopping

variable {Result : Type} (node : Node Answer) (history : List (Event Answer))

theorem play_orStop_error (message : String) :
    play node history (orStop (.error message) : Rpc Result) =
      (.error (.error message), history) := rfl

/-- What is checked before the rest leaves no request behind when it fails. -/
theorem play_orStop_bind {Next : Type} (message : String) (next : Result → Rpc Next) :
    play node history (orStop (.error message) >>= next) = (.error (.error message), history) := by
  rw [play_bind, play_orStop_error]

variable {node history} {result : Result} {reached : List (Event Answer)}

theorem play_orStop_eq_ok {checked : Except String Result} :
    play node history (orStop checked) = (.ok result, reached) ↔
      checked = .ok result ∧ history = reached := by
  cases checked with
  | error message =>
    rw [play_orStop_error]
    exact ⟨fun impossible => absurd (congrArg Prod.fst impossible) (by simp), nofun⟩
  | ok value =>
    show (Except.ok value, history) = _ ↔ _
    rw [Prod.mk.injEq, Except.ok.injEq, Except.ok.injEq]

theorem play_orInvalid_eq_ok {message : String} {checked : Option Result} :
    play node history (orInvalid message checked) = (.ok result, reached) ↔
      checked = some result ∧ history = reached := by
  cases checked with
  | none =>
    show (Except.error (Stop.error message), history) = _ ↔ _
    exact ⟨fun impossible => absurd (congrArg Prod.fst impossible) (by simp), nofun⟩
  | some value =>
    show (Except.ok value, history) = _ ↔ _
    rw [Prod.mk.injEq, Except.ok.injEq, Option.some_inj]

end Stopping

/-- An RPC-backed chain, by the URL of its client. -/
structure RpcChain where
  url : String

namespace RpcChain

variable (chain : RpcChain)

/-- The answer to a call, errors included. -/
def attempt (call : Call) : Rpc (Except String call.Reply) :=
  ExceptT.lift (Program.query (⟨chain.url, call⟩ : Request))

/-- The reply to a call. -/
def ask (call : Call) : Rpc call.Reply := chain.attempt call >>= orStop

def latestBlockhash : Rpc Hash := chain.ask .getLatestBlockhash

def feeFor (tx : Transaction) : Rpc Nat := chain.ask (.getFeeForMessage tx.message)

/-- The minimum balance of a rent-exempt account of so many bytes. -/
def minRentExempt (dataLen : Nat) : Rpc Nat :=
  chain.ask (.getMinimumBalanceForRentExemption dataLen)

/-- The least a delegation must carry. -/
def minStakeDelegation : Rpc Nat := chain.ask .getStakeMinimumDelegation

/-- The vote account with the most stake; of several, the last. -/
def best : List VoteAccount → Option VoteAccount
  | [] => none
  | first :: rest => some (rest.foldl
      (fun most account => if most.activatedStake ≤ account.activatedStake then account else most)
      first)

def pickVoteAccount (sdk : Sdk) : Rpc AccountId := do
  let accounts ← chain.ask .getVoteAccounts
  let best ← orInvalid "no current vote accounts on this cluster" (best accounts)
  orStop ((sdk.parsePubkey best.votePubkey).mapError fun error => s!"bad vote pubkey: {error}")

/-- The last error of a send, as the end of a message. -/
def lastSend (lastSendError : Option String) : String :=
  match lastSendError with
  | some error => s!"; last send error: {error}"
  | none => ""

/-- A transaction is sent again every eighth poll. -/
def resendEvery : Nat := 8

/-- Send the transaction once more, and give up when its blockhash can no longer land. -/
def resend (sdk : Sdk) (tx : Transaction) (lastSendError : Option String) :
    Rpc (Option String) := do
  let lastSendError ← (fun answer => match answer with
    | .ok _ => lastSendError
    | .error error => some error) <$> chain.attempt (.sendTransaction tx)
  if ← chain.ask (.isBlockhashValid tx.message.recentBlockhash) then
    pure lastSendError
  else
    let signature := sdk.signatureText tx.signature
    invalidInput (s!"transaction {signature} has no confirmed status and its blockhash " ++
      "expired; refusing to rebuild because the outcome is ambiguous" ++ lastSend lastSendError)

/-- The polls from `poll` on. -/
def pollStatus (sdk : Sdk) (tx : Transaction) : Nat → Nat → Option String → Rpc Signature
  | 0, _, lastSendError =>
    let signature := sdk.signatureText tx.signature
    invalidInput (s!"transaction {signature} was not confirmed after idempotent retries" ++
      lastSend lastSendError)
  | remaining + 1, poll, lastSendError => do
    let lastSendError ←
      (if poll % resendEvery = 0 then chain.resend sdk tx lastSendError else pure lastSendError)
    match ← chain.ask (.getSignatureStatuses [tx.signature]) with
    | [] => throw .panicked
    | some ⟨some error, _⟩ :: _ =>
      let signature := sdk.signatureText tx.signature
      invalidInput s!"transaction {signature} failed: {error}"
    | some ⟨none, true⟩ :: _ => pure tx.signature
    | _ :: _ => pollStatus sdk tx remaining (poll + 1) lastSendError

/-- Send one transaction until it confirms or its blockhash expires. -/
def sendIdempotent (sdk : Sdk) (tx : Transaction) (statusPolls : Nat) : Rpc Signature :=
  chain.pollStatus sdk tx (max statusPolls 1) 0 none

end RpcChain

/-! ### Actions -/

inductive LiveAction
  | transfer (destination : AccountId) (lamports : Nat)
  | stake (vote : AccountId) (lamports : Nat)
  | memo (text : String)

def LiveAction.kind : LiveAction → String
  | .transfer _ _ => "transfer"
  | .stake _ _ => "stake"
  | .memo _ => "memo"

/-- The instructions and signers of an action, and what the source parts with. -/
structure ActionPlan where
  instructions : List Instruction
  extraSigners : List Keypair
  sourceDebit : Nat
  target : Option String
  stakeAccount : Option AccountId

section Assembling

variable (sdk : Sdk)

/-- `Transaction::new_signed_with_payer`. -/
def newSignedWithPayer (instructions : List Instruction) (payer : AccountId)
    (signers : List Keypair) (recentBlockhash : Hash) : Transaction :=
  let message : Message := ⟨payer, instructions, recentBlockhash⟩
  ⟨message, signers.map Keypair.pubkey, sdk.sign payer message⟩

/-- A transfer, its fee paid by `feePayer`, which signs once when it is also the sender. -/
def buildTransfer (sender : Keypair) (receiver : AccountId) (lamports : Nat) (feePayer : Keypair)
    (recentBlockhash : Hash) : Transaction :=
  let ix := Instruction.transfer sender.pubkey receiver lamports
  if sender.pubkey = feePayer.pubkey then
    newSignedWithPayer sdk [ix] feePayer.pubkey [sender] recentBlockhash
  else
    newSignedWithPayer sdk [ix] feePayer.pubkey [feePayer, sender] recentBlockhash

def planAction (action : LiveAction) (source : Keypair) (stakeKp : Option Keypair) :
    Except String ActionPlan :=
  match action with
  | .transfer destination lamports =>
    if source.pubkey = destination then .error "source and destination must differ"
    else .ok ⟨[.transfer source.pubkey destination lamports], [source], lamports,
      some (sdk.pubkeyText destination), none⟩
  | .stake vote lamports =>
    match stakeKp with
    | none => .error "stake action needs a stake keypair"
    | some stake => .ok ⟨[.createAccount source.pubkey stake.pubkey lamports stakeAccountSpace,
        .initializeStake stake.pubkey source.pubkey source.pubkey,
        .delegateStake stake.pubkey source.pubkey vote],
      [source, stake], lamports, some (sdk.pubkeyText vote), some stake.pubkey⟩
  | .memo text =>
    if text.utf8ByteSize > memoMaxBytes then
      .error s!"memo is {text.utf8ByteSize} bytes, over the {memoMaxBytes}-byte cap"
    else
      match sdk.parsePubkey memoProgramId with
      | .error error => .error s!"bad memo program id: {error}"
      | .ok programId =>
        .ok ⟨[.memo programId text.toUTF8.toList source.pubkey], [source], 0, none, none⟩

/-- Sign the instructions of an action with the fee payer first, no key twice. -/
def buildActionTx (plan : ActionPlan) (feePayer : Keypair) (recentBlockhash : Hash) :
    Transaction :=
  newSignedWithPayer sdk plan.instructions feePayer.pubkey
    (feePayer :: plan.extraSigners.filter (·.pubkey ≠ feePayer.pubkey)) recentBlockhash

end Assembling

/-! ### Configurations -/

/-- The limits and the retry behaviour of a live transfer. -/
structure LiveTransferConfig where
  rpcUrl : String
  payerPath : String
  destination : String
  lamports : Nat
  maxTotalDebit : Nat
  maxFeePayerTopup : Nat
  statusPolls : Nat
  allowRemoteRpc : Bool
  execute : Bool

/-- The limits and the retry behaviour of any live action. -/
structure LiveActionConfig where
  rpcUrl : String
  payerPath : String
  action : LiveAction
  maxTotalDebit : Nat
  maxFeePayerTopup : Nat
  statusPolls : Nat
  allowRemoteRpc : Bool
  execute : Bool

def remoteRefused : String :=
  "remote RPC refused; use a loopback URL or explicitly allow remote RPC"

def LiveTransferConfig.validate (sdk : Sdk) (cfg : LiveTransferConfig) : Except String Unit := do
  ensure (cfg.allowRemoteRpc || isLoopbackRpc sdk cfg.rpcUrl) remoteRefused
  ensure (cfg.lamports != 0) "lamports must be greater than zero"
  ensure (decide (cfg.lamports ≤ cfg.maxTotalDebit))
    "max_total_debit must be at least the transfer amount"
  ensure (cfg.maxFeePayerTopup != 0) "max_fee_payer_topup must be greater than zero"
  ensure (cfg.statusPolls != 0) "status_polls must be greater than zero"

def LiveActionConfig.validate (sdk : Sdk) (cfg : LiveActionConfig) : Except String Unit := do
  ensure (cfg.allowRemoteRpc || isLoopbackRpc sdk cfg.rpcUrl) remoteRefused
  ensure (cfg.statusPolls != 0) "status_polls must be greater than zero"
  ensure (cfg.maxFeePayerTopup != 0) "max_fee_payer_topup must be greater than zero"

/-! ### A live action -/

structure LiveActionReceipt where
  executed : Bool
  rpcUrl : String
  source : String
  actionKind : String
  target : Option String
  stakeAccount : Option String
  ephemeralFeePayer : String
  sourceDebitLamports : Nat
  actionFeeLamports : Nat
  fundingFeeLamports : Nat
  feePayerTopupLamports : Nat
  requiredDebitLamports : Nat
  sourceBalanceBefore : Nat
  fundingSignature : Option String
  actionSignature : Option String

/-- What is known when the quote stands. -/
structure Quoted where
  source : Keypair
  plan : ActionPlan
  actionFee : Nat
  feePayerTopup : Nat
  fundingFee : Nat
  requiredDebit : Nat
  sourceBalance : Nat

section Acting

variable (sdk : Sdk)

/-- The stake account must be rent-exempt and delegate at least the minimum of the cluster. -/
def checkStakeFunding (chain : RpcChain) : LiveAction → Rpc Unit
  | .stake _ lamports => do
    let stakeRent ← chain.minRentExempt stakeAccountSpace
    let minDelegation ← chain.minStakeDelegation
    let required ← orInvalid "stake funding overflow" (checkedU64 (stakeRent + minDelegation))
    orStop (ensure (decide (required ≤ lamports))
      (s!"stake funding {lamports} is below rent-exempt minimum {stakeRent} + minimum " ++
        s!"delegation {minDelegation} = {required}"))
  | _ => pure ()

/-- The stake keypair of the call; only a stake mints one. -/
def stakeKp : LiveAction → Option Keypair
  | .stake _ _ => some sdk.stakeKeypair
  | _ => none

/-- `run_live_action` up to the balance check. -/
def quoteAction (cfg : LiveActionConfig) : Rpc Quoted := do
  orStop (cfg.validate sdk)
  let source ← orStop (sdk.readKeypairFile cfg.payerPath)
  let chain : RpcChain := ⟨cfg.rpcUrl⟩
  checkStakeFunding chain cfg.action
  let plan ← orStop (planAction sdk cfg.action source (stakeKp sdk cfg.action))
  let quoteHash ← chain.latestBlockhash
  let actionFee ← chain.feeFor (buildActionTx sdk plan sdk.feePayer quoteHash)
  let rentExemptMin ← chain.minRentExempt 0
  let feePayerTopup ←
    orInvalid "fee-payer top-up overflow" (checkedU64 (actionFee + rentExemptMin))
  orStop (ensure (decide (feePayerTopup ≤ cfg.maxFeePayerTopup))
    s!"required fee-payer top-up {feePayerTopup} exceeds limit {cfg.maxFeePayerTopup}")
  let fundingFee ← chain.feeFor
    (buildTransfer sdk source sdk.feePayer.pubkey feePayerTopup source quoteHash)
  let requiredDebit ← orInvalid "required debit overflow"
    ((checkedU64 (plan.sourceDebit + feePayerTopup)).bind (checkedU64 <| · + fundingFee))
  orStop (ensure (decide (requiredDebit ≤ cfg.maxTotalDebit))
    s!"required debit {requiredDebit} exceeds limit {cfg.maxTotalDebit}")
  let sourceBalance ← chain.ask (.getBalance source.pubkey)
  orStop (ensure (decide (requiredDebit ≤ sourceBalance))
    s!"source balance {sourceBalance} is below required debit {requiredDebit}")
  pure ⟨source, plan, actionFee, feePayerTopup, fundingFee, requiredDebit, sourceBalance⟩

variable (cfg : LiveActionConfig) (quoted : Quoted)

/-- The receipt of a quote. -/
def receiptOf : LiveActionReceipt where
  executed := cfg.execute
  rpcUrl := cfg.rpcUrl
  source := sdk.pubkeyText quoted.source.pubkey
  actionKind := cfg.action.kind
  target := quoted.plan.target
  stakeAccount := quoted.plan.stakeAccount.map sdk.pubkeyText
  ephemeralFeePayer := sdk.pubkeyText sdk.feePayer.pubkey
  sourceDebitLamports := quoted.plan.sourceDebit
  actionFeeLamports := quoted.actionFee
  fundingFeeLamports := quoted.fundingFee
  feePayerTopupLamports := quoted.feePayerTopup
  requiredDebitLamports := quoted.requiredDebit
  sourceBalanceBefore := quoted.sourceBalance
  fundingSignature := none
  actionSignature := none

/-- The funding transaction, built anew under a fresh blockhash. -/
def buildFunding : Rpc Transaction := do
  let fundingHash ← RpcChain.latestBlockhash ⟨cfg.rpcUrl⟩
  pure (buildTransfer sdk quoted.source sdk.feePayer.pubkey quoted.feePayerTopup quoted.source
    fundingHash)

/-- The action transaction, built anew under a fresh blockhash, its fee checked again. -/
def buildAction : Rpc Transaction := do
  let chain : RpcChain := ⟨cfg.rpcUrl⟩
  let actionHash ← chain.latestBlockhash
  let actionTx := buildActionTx sdk quoted.plan sdk.feePayer actionHash
  let actualActionFee ← chain.feeFor actionTx
  orStop (ensure (decide (actualActionFee ≤ quoted.actionFee))
    (s!"action fee increased from {quoted.actionFee} to {actualActionFee} after funding; " ++
      "refusing an underfunded submission"))
  pure actionTx

/-- Submit one transaction and wait for its confirmation. -/
def submit (tx : Transaction) : Rpc Signature :=
  RpcChain.sendIdempotent ⟨cfg.rpcUrl⟩ sdk tx cfg.statusPolls

/-- `run_live_action`. -/
def runLiveAction : Rpc LiveActionReceipt := do
  let quoted ← quoteAction sdk cfg
  let receipt := receiptOf sdk cfg quoted
  if !cfg.execute then
    pure receipt
  else
    let fundingTx ← buildFunding sdk cfg quoted
    let fundingSignature ← submit sdk cfg fundingTx
    let actionTx ← buildAction sdk cfg quoted
    let actionSignature ← submit sdk cfg actionTx
    pure { receipt with
      fundingSignature := some (sdk.signatureText fundingSignature)
      actionSignature := some (sdk.signatureText actionSignature) }

end Acting

/-! ### Commands -/

structure LiveTransferReceipt where
  executed : Bool
  rpcUrl : String
  source : String
  destination : String
  ephemeralFeePayer : String
  transferLamports : Nat
  actionFeeLamports : Nat
  fundingFeeLamports : Nat
  feePayerTopupLamports : Nat
  requiredDebitLamports : Nat
  sourceBalanceBefore : Nat
  fundingSignature : Option String
  actionSignature : Option String

section Commands

variable (sdk : Sdk)

/-- Parse the vote account when it is given, else pick one over the RPC. -/
def resolveVote (rpcUrl : String) : Option String → Rpc AccountId
  | some text =>
    orStop ((sdk.parsePubkey text).mapError fun error => s!"invalid vote pubkey: {error}")
  | none => RpcChain.pickVoteAccount ⟨rpcUrl⟩ sdk

def stakeAction (rpcUrl : String) (vote : Option String) (lamports : Nat) : Rpc LiveAction := do
  let vote ← resolveVote sdk rpcUrl vote
  pure (.stake vote lamports)

def runLiveTransfer (cfg : LiveTransferConfig) : Rpc LiveTransferReceipt := do
  let destination ← orStop ((sdk.parsePubkey cfg.destination).mapError fun error =>
    s!"invalid destination pubkey: {error}")
  orStop (cfg.validate sdk)
  let r ← runLiveAction sdk ⟨cfg.rpcUrl, cfg.payerPath, .transfer destination cfg.lamports,
    cfg.maxTotalDebit, cfg.maxFeePayerTopup, cfg.statusPolls, cfg.allowRemoteRpc, cfg.execute⟩
  pure ⟨r.executed, r.rpcUrl, r.source, r.target.getD "", r.ephemeralFeePayer,
    r.sourceDebitLamports, r.actionFeeLamports, r.fundingFeeLamports, r.feePayerTopupLamports,
    r.requiredDebitLamports, r.sourceBalanceBefore, r.fundingSignature, r.actionSignature⟩

/-- A receipt as a command prints it. -/
inductive Receipt
  | transfer (receipt : LiveTransferReceipt)
  | action (receipt : LiveActionReceipt)

variable (rpcUrl payer : String)

def liveTransfer (destination : String)
    (lamports maxTotalDebit maxFeePayerTopup statusPolls : Nat) (allowRemoteRpc execute : Bool) :
    Rpc Receipt :=
  .transfer <$> runLiveTransfer sdk ⟨rpcUrl, payer, destination, lamports, maxTotalDebit,
    maxFeePayerTopup, statusPolls, allowRemoteRpc, execute⟩

def liveAction (action : LiveAction) (maxTotalDebit maxFeePayerTopup statusPolls : Nat)
    (allowRemoteRpc execute : Bool) : Rpc Receipt :=
  .action <$> runLiveAction sdk ⟨rpcUrl, payer, action, maxTotalDebit, maxFeePayerTopup,
    statusPolls, allowRemoteRpc, execute⟩

def liveStake (vote : Option String)
    (lamports maxTotalDebit maxFeePayerTopup statusPolls : Nat) (allowRemoteRpc execute : Bool) :
    Rpc Receipt := do
  let action ← stakeAction sdk rpcUrl vote lamports
  liveAction sdk rpcUrl payer action maxTotalDebit maxFeePayerTopup statusPolls allowRemoteRpc
    execute

end Commands

/-- The arguments every live command takes. -/
structure LiveArgs where
  rpcUrl : String
  payer : String
  maxTotalDebit : Nat
  maxFeePayerTopup : Nat
  statusPolls : Nat
  allowRemoteRpc : Bool
  execute : Bool

/-- A live command with the arguments of its own. `live-memo` runs a memo as its action. -/
inductive LiveCommand
  | liveTransfer (destination : String) (lamports : Nat)
  | liveAction (action : LiveAction)
  | liveStake (vote : Option String) (lamports : Nat)

def LiveCommand.run (sdk : Sdk) (args : LiveArgs) : LiveCommand → Rpc Receipt
  | .liveTransfer destination lamports =>
    Live.liveTransfer sdk args.rpcUrl args.payer destination lamports args.maxTotalDebit
      args.maxFeePayerTopup args.statusPolls args.allowRemoteRpc args.execute
  | .liveAction action =>
    Live.liveAction sdk args.rpcUrl args.payer action args.maxTotalDebit args.maxFeePayerTopup
      args.statusPolls args.allowRemoteRpc args.execute
  | .liveStake vote lamports =>
    Live.liveStake sdk args.rpcUrl args.payer vote lamports args.maxTotalDebit
      args.maxFeePayerTopup args.statusPolls args.allowRemoteRpc args.execute

/-! ### A stand-in -/

/-- The account whose bytes spell a small number, in base 58: thirty-one leading zeros and one
digit. -/
def smallText (account : AccountId) : String :=
  let digits := "123456789ABCDEFGHJKLMNPQRSTUVWXYZabcdefghijkmnopqrstuvwxyz".toList
  String.ofList (List.replicate 31 '1' ++ digits[account.bytes.val]?.toList)

/-- Libraries that know one endpoint of each kind, accounts of one digit and a single key file. -/
def smallSdk : Sdk where
  parseUrl url :=
    if url = "http://127.0.0.1:8899" then some ⟨"http", some (.ipv4 127 0 0 1)⟩
    else if url = "https://api.devnet.solana.com" then
      some ⟨"https", some (.domain "api.devnet.solana.com")⟩
    else none
  parsePubkey text :=
    match [(⟨1⟩ : AccountId), ⟨2⟩, ⟨3⟩, ⟨4⟩].find? (smallText · = text) with
    | some account => .ok account
    | none => .error "Invalid Base58 string"
  pubkeyText := smallText
  readKeypairFile path :=
    if path = "payer.json" then .ok ⟨⟨1⟩⟩ else .error "No such file or directory (os error 2)"
  sign signer message :=
    ⟨[UInt8.ofNat signer.bytes.val, UInt8.ofNat message.recentBlockhash.bytes.val]⟩
  signatureText signature := toString signature.bytes
  feePayer := ⟨⟨2⟩⟩
  stakeKeypair := ⟨⟨3⟩⟩

end AccountCooker.Live
