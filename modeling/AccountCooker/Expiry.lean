/-
This file settles what a submission reports of a transaction that lands late.
The chain goes its own way while the submission asks: at some point the
transaction may land, at some point its blockhash expires, and nothing lands
after that. Both points lie somewhere between the requests.

A submission makes ten requests in eight polls: it sends, asks whether the
blockhash is still valid, and reads the status eight times. It gives up as soon
as the blockhash is found expired, and does not read the status again. So it
misreports a transaction exactly when the landing and the expiry both fall
between the last status read before a resend and the expiry check after it.
-/

import Mathlib
import AccountCooker.Envelope

namespace AccountCooker.Live

open Interaction

/-! ### The chain -/

/-- One order of events: whether the transaction has landed, and whether its blockhash has expired,
by the time a request is answered; requests are numbered from the first of the submission, which
sends the transaction. -/
structure Chain where
  landed : Nat → Bool
  expired : Nat → Bool
  landed_submitted : landed 0 = false
  landed_stays : ∀ first second, first ≤ second → landed first = true → landed second = true
  expired_stays : ∀ first second, first ≤ second → expired first = true → expired second = true
  /-- Nothing lands once its blockhash has expired. -/
  landed_valid : ∀ first second, first ≤ second → expired first = true → landed second = true →
    landed first = true

/-- The node tells the truth about the transaction and its blockhash. Until the transaction has
landed it has no status, or one below the commitment. What becomes of a send is left open. -/
structure Chain.Serves (chain : Chain) (tx : Transaction) (node : Node Answer) : Prop where
  validity : ∀ history url, node history ⟨url, .isBlockhashValid tx.message.recentBlockhash⟩ =
    .ok (!chain.expired history.length)
  landed : ∀ history url, chain.landed history.length = true →
    node history ⟨url, .getSignatureStatuses [tx.signature]⟩ = .ok [some ⟨none, true⟩]
  pending : ∀ history url, chain.landed history.length = false →
    node history ⟨url, .getSignatureStatuses [tx.signature]⟩ = .ok [none] ∨
    node history ⟨url, .getSignatureStatuses [tx.signature]⟩ = .ok [some ⟨none, false⟩]

/-- In a round that begins at one of so many polls from a poll on, the landing and the expiry both
fall between the last status read before it and its expiry check. Round `round` starts with request
`10 * round`. -/
def Chain.RacesFrom (chain : Chain) (poll remaining : Nat) : Prop :=
  ∃ round, poll ≤ 8 * round ∧ 8 * round < poll + remaining ∧
    (round ≠ 0 → chain.landed (10 * round - 1) = false) ∧
    chain.landed (10 * round + 1) = true ∧ chain.expired (10 * round + 1) = true

/-- The landing and the expiry race the expiry check of some resend. -/
def Chain.Races (chain : Chain) (statusPolls : Nat) : Prop :=
  chain.RacesFrom 0 (max statusPolls 1)

/-! ### What is reported -/

section Reporting

variable (sdk : Sdk) (tx : Transaction)

/-- The error of a submission that found its blockhash expired. -/
def expiredText (lastSendError : Option String) : String :=
  let signature := sdk.signatureText tx.signature
  s!"transaction {signature} has no confirmed status and its blockhash " ++
    "expired; refusing to rebuild because the outcome is ambiguous" ++
    RpcChain.lastSend lastSendError

/-- The error of a submission that ran out of polls. -/
def unconfirmedText (lastSendError : Option String) : String :=
  let signature := sdk.signatureText tx.signature
  s!"transaction {signature} was not confirmed after idempotent retries" ++
    RpcChain.lastSend lastSendError

theorem expiredText_ne_unconfirmedText (first second : Option String) :
    expiredText sdk tx first ≠ unconfirmedText sdk tx second := by
  intro same
  have letters := congrArg String.toList same
  -- the texts differ in the word after the signature
  simp only [expiredText, unconfirmedText, String.toList_append, List.append_assoc,
    List.append_cancel_left_eq] at letters
  exact absurd (List.cons.inj (List.cons.inj letters).2).1 (by decide)

end Reporting

/-! ### The requests of a submission -/

/-- The requests made before a poll: one for every poll, and two more for every round begun. -/
def requestsBefore (poll : Nat) : Nat := poll + 2 * ((poll + 7) / 8)

section Polling

variable {rpc : RpcChain} {sdk : Sdk} {tx : Transaction} {chain : Chain} {node : Node Answer}
  {history reached : List (Event Answer)}

theorem play_ask {call : Call} {reply : call.Reply}
    (answer : node history ⟨rpc.url, call⟩ = .ok reply) :
    play node history (rpc.ask call) = (.ok reply, history ++ [⟨⟨rpc.url, call⟩, .ok reply⟩]) := by
  unfold RpcChain.ask
  rw [play_bind, play_attempt, answer]
  rfl

/-- The expiry check of the round that begins after a history. -/
def checkEvent (rpc : RpcChain) (tx : Transaction) (valid : Bool) : Event Answer :=
  ⟨⟨rpc.url, .isBlockhashValid tx.message.recentBlockhash⟩, .ok valid⟩

/-- A resend makes two requests, the second of which decides. -/
theorem play_resend (serves : chain.Serves tx node) (lastSendError : Option String) :
    ∃ newSendError sending,
      play node history (rpc.resend sdk tx lastSendError) =
        (if chain.expired (history.length + 1) = true then
          .error (.error (expiredText sdk tx newSendError))
        else .ok newSendError,
        history ++ [sending, checkEvent rpc tx !chain.expired (history.length + 1)]) := by
  obtain ⟨newSendError, sending, first⟩ : ∃ newSendError sending,
      play node history (rpc.resend sdk tx lastSendError) = play node (history ++ [sending]) (do
        if ← rpc.ask (.isBlockhashValid tx.message.recentBlockhash) then pure newSendError
        else invalidInput (expiredText sdk tx newSendError)) := by
    unfold RpcChain.resend
    rw [play_bind, play_map, play_attempt]
    cases node history ⟨rpc.url, .sendTransaction tx⟩ with
    | error error => exact ⟨some error, _, rfl⟩
    | ok signature => exact ⟨lastSendError, _, rfl⟩
  have check := serves.validity (history ++ [sending]) rpc.url
  rw [List.length_append, List.length_singleton] at check
  refine ⟨newSendError, sending, ?_⟩
  rw [first, play_bind, play_ask check]
  cases chain.expired (history.length + 1) with
  | false => exact congrArg (Prod.mk _) (List.append_assoc _ _ _)
  | true => exact congrArg (Prod.mk _) (List.append_assoc _ _ _)

/-- The rest of a poll, which reads the status. -/
def RpcChain.readStatus (rpc : RpcChain) (sdk : Sdk) (tx : Transaction) (remaining poll : Nat)
    (lastSendError : Option String) : Rpc Signature := do
  match ← rpc.ask (.getSignatureStatuses [tx.signature]) with
  | [] => throw .panicked
  | some ⟨some error, _⟩ :: _ =>
    let signature := sdk.signatureText tx.signature
    invalidInput s!"transaction {signature} failed: {error}"
  | some ⟨none, true⟩ :: _ => pure tx.signature
  | _ :: _ => rpc.pollStatus sdk tx remaining (poll + 1) lastSendError

theorem pollStatus_succ (remaining poll : Nat) (lastSendError : Option String) :
    rpc.pollStatus sdk tx (remaining + 1) poll lastSendError =
      (if poll % RpcChain.resendEvery = 0 then rpc.resend sdk tx lastSendError
        else pure lastSendError) >>= rpc.readStatus sdk tx remaining poll := rfl

/-- The first read after the landing ends the submission. -/
theorem play_readStatus (serves : chain.Serves tx node) (remaining poll : Nat)
    (lastSendError : Option String) :
    ∃ reading, play node history (rpc.readStatus sdk tx remaining poll lastSendError) =
      if chain.landed history.length = true then (.ok tx.signature, history ++ [reading])
      else play node (history ++ [reading])
        (rpc.pollStatus sdk tx remaining (poll + 1) lastSendError) := by
  unfold RpcChain.readStatus
  rw [play_bind]
  cases seen : chain.landed history.length with
  | true =>
    rw [play_ask (serves.landed history rpc.url seen)]
    exact ⟨_, rfl⟩
  | false =>
    rcases serves.pending history rpc.url seen with unknown | below
    · rw [play_ask unknown]
      exact ⟨_, rfl⟩
    · rw [play_ask below]
      exact ⟨_, rfl⟩

/-! ### Races -/

/-- A poll that does not find the blockhash expired is not the one that is raced. -/
theorem racesFrom_succ {poll remaining : Nat}
    (valid : ∀ round, 8 * round = poll → chain.expired (10 * round + 1) = false) :
    chain.RacesFrom poll (remaining + 1) ↔ chain.RacesFrom (poll + 1) remaining := by
  refine exists_congr fun round => ?_
  constructor
  · rintro ⟨above, below, unread, landed, expired⟩
    have later : 8 * round ≠ poll := by
      intro same
      exact absurd (valid round same) (by simp [expired])
    exact ⟨by omega, by omega, unread, landed, expired⟩
  · rintro ⟨above, below, race⟩
    exact ⟨by omega, by omega, race⟩

/-- What was read as landed is not raced afterwards. -/
theorem not_racesFrom {poll remaining time : Nat} (landed : chain.landed time = true)
    (early : time < requestsBefore (poll + 1)) : ¬ chain.RacesFrom (poll + 1) remaining := by
  rintro ⟨round, above, _, unread, _⟩
  unfold requestsBefore at early
  have still := chain.landed_stays time (10 * round - 1) (by omega) landed
  exact absurd (unread (by omega)) (by simp [still])

variable (rpc sdk tx chain) in
/-- The submission ends with the report that its blockhash expired, when the transaction had landed
by the check that found it expired. -/
def Misreports (ended : Except Stop Signature × List (Event Answer)) : Prop :=
  ∃ lastSendError before,
    ended = (.error (.error (expiredText sdk tx lastSendError)),
      before ++ [checkEvent rpc tx false]) ∧
    chain.landed before.length = true

theorem not_misreports_ok {signature : Signature} :
    ¬ Misreports rpc sdk tx chain (.ok signature, reached) := by
  rintro ⟨_, _, ended, _⟩
  exact absurd (congrArg Prod.fst ended) (by simp)

/-- Reading the status moves on to the polls after it. -/
theorem misreports_readStatus (serves : chain.Serves tx node) {remaining poll : Nat}
    {lastSendError : Option String} (count : history.length + 1 = requestsBefore (poll + 1))
    (rest : ∀ next, next.length = requestsBefore (poll + 1) →
      chain.landed (next.length - 1) = false →
      (Misreports rpc sdk tx chain
          (play node next (rpc.pollStatus sdk tx remaining (poll + 1) lastSendError)) ↔
        chain.RacesFrom (poll + 1) remaining)) :
    Misreports rpc sdk tx chain
        (play node history (rpc.readStatus sdk tx remaining poll lastSendError)) ↔
      chain.RacesFrom (poll + 1) remaining := by
  obtain ⟨reading, read⟩ := play_readStatus serves remaining poll lastSendError
  rw [read]
  cases landed : chain.landed history.length with
  | true => exact iff_of_false not_misreports_ok (not_racesFrom landed (by omega))
  | false =>
    refine rest (history ++ [reading]) ?_ ?_
    · rw [List.length_append, List.length_singleton, count]
    · rw [List.length_append, List.length_singleton, Nat.add_sub_cancel, landed]

/-- A submission misreports exactly what is raced. -/
theorem misreports_iff (serves : chain.Serves tx node) (remaining poll : Nat)
    (lastSendError : Option String) (history : List (Event Answer))
    (count : history.length = requestsBefore poll)
    (unread : poll ≠ 0 → chain.landed (history.length - 1) = false) :
    Misreports rpc sdk tx chain
        (play node history (rpc.pollStatus sdk tx remaining poll lastSendError)) ↔
      chain.RacesFrom poll remaining := by
  induction remaining generalizing poll lastSendError history with
  | zero =>
    refine iff_of_false ?_ ?_
    · rintro ⟨other, _, ended, _⟩
      have texts := Stop.error.inj (Except.error.inj (congrArg Prod.fst ended))
      exact expiredText_ne_unconfirmedText sdk tx other lastSendError texts.symm
    · rintro ⟨round, above, below, _⟩
      omega
  | succ remaining inductionHypothesis =>
    have later : ∀ newSendError next, next.length = requestsBefore (poll + 1) →
        chain.landed (next.length - 1) = false →
        (Misreports rpc sdk tx chain
            (play node next (rpc.pollStatus sdk tx remaining (poll + 1) newSendError)) ↔
          chain.RacesFrom (poll + 1) remaining) :=
      fun newSendError next count read =>
        inductionHypothesis (poll + 1) newSendError next count fun _ => read
    rw [pollStatus_succ]
    by_cases resends : poll % RpcChain.resendEvery = 0
    · obtain ⟨round, rfl⟩ : ∃ round, poll = 8 * round := ⟨poll / 8, by
        unfold RpcChain.resendEvery at resends
        omega⟩
      obtain ⟨newSendError, sending, resent⟩ := @play_resend rpc sdk tx chain node history serves
        lastSendError
      rw [if_pos resends, play_bind, resent]
      have start : history.length = 10 * round := by
        rw [count, requestsBefore]
        omega
      rw [start]
      cases expired : chain.expired (10 * round + 1) with
      | true =>
        show Misreports rpc sdk tx chain (.error (.error (expiredText sdk tx newSendError)),
          history ++ [sending, checkEvent rpc tx false]) ↔ _
        constructor
        · rintro ⟨_, before, ended, landed⟩
          have reached : history ++ [sending] ++ [checkEvent rpc tx false] =
              before ++ [checkEvent rpc tx false] := by
            rw [List.append_assoc]
            exact congrArg Prod.snd ended
          rw [← (List.append_inj' reached rfl).1, List.length_append, start] at landed
          rw [start] at unread
          exact ⟨round, le_rfl, by omega, fun begun => unread (by omega), landed, expired⟩
        · rintro ⟨other, above, below, _, landed, _⟩
          refine ⟨newSendError, history ++ [sending], by rw [List.append_assoc]; rfl, ?_⟩
          rw [List.length_append, start, List.length_singleton]
          exact chain.landed_valid _ _ (by omega) expired landed
      | false =>
        rw [racesFrom_succ fun other same => by
          obtain rfl : other = round := by omega
          exact expired]
        refine misreports_readStatus serves ?_ (later newSendError)
        rw [List.length_append, start, requestsBefore]
        show 10 * round + 2 + 1 = _
        omega
    · rw [if_neg resends, play_bind, play_pure]
      rw [racesFrom_succ fun round same => by
        unfold RpcChain.resendEvery at resends
        omega]
      refine misreports_readStatus serves ?_ (later lastSendError)
      unfold RpcChain.resendEvery at resends
      rw [count, requestsBefore, requestsBefore]
      omega

/-- A submission that reports its blockhash expired has just asked for it. -/
theorem pollStatus_expired (serves : chain.Serves tx node) {remaining poll : Nat}
    {lastSendError other : Option String} {history : List (Event Answer)}
    (ended : (play node history (rpc.pollStatus sdk tx remaining poll lastSendError)).1 =
      .error (.error (expiredText sdk tx other))) :
    ∃ before, (play node history (rpc.pollStatus sdk tx remaining poll lastSendError)).2 =
      before ++ [checkEvent rpc tx false] := by
  induction remaining generalizing poll lastSendError history with
  | zero =>
    have texts := Stop.error.inj (Except.error.inj ended)
    exact absurd texts.symm (expiredText_ne_unconfirmedText sdk tx other lastSendError)
  | succ remaining inductionHypothesis =>
    have reading : ∀ newSendError next,
        (play node next (rpc.readStatus sdk tx remaining poll newSendError)).1 =
          .error (.error (expiredText sdk tx other)) →
        ∃ before, (play node next (rpc.readStatus sdk tx remaining poll newSendError)).2 =
          before ++ [checkEvent rpc tx false] := by
      intro newSendError next stopped
      obtain ⟨reading, read⟩ := @play_readStatus rpc sdk tx chain node next serves remaining poll
        newSendError
      rw [read] at stopped ⊢
      cases landed : chain.landed next.length with
      | true =>
        rw [landed] at stopped
        exact absurd stopped (by simp)
      | false =>
        rw [landed] at stopped
        exact inductionHypothesis stopped
    rw [pollStatus_succ] at ended ⊢
    by_cases resends : poll % RpcChain.resendEvery = 0
    · obtain ⟨newSendError, sending, resent⟩ := @play_resend rpc sdk tx chain node history serves
        lastSendError
      rw [if_pos resends, play_bind, resent] at ended ⊢
      cases expired : chain.expired (history.length + 1) with
      | true =>
        refine ⟨history ++ [sending], ?_⟩
        rw [List.append_assoc]
        rfl
      | false =>
        rw [expired] at ended
        exact reading newSendError _ ended
    · rw [if_neg resends, play_bind, play_pure] at ended ⊢
      exact reading lastSendError history ended

end Polling

/-! ### The report -/

/-- What a submission may do and report: it sends its own transaction and no other, returns its
signature once it has read it confirmed, and reports its blockhash expired only when the
transaction had not landed by the check that found it so. -/
structure ReportsRight (rpc : RpcChain) (sdk : Sdk) (tx : Transaction) (chain : Chain)
    (ended : Except Stop Signature × List (Event Answer)) : Prop where
  only : ∀ event ∈ ended.2, ∀ other, event.request.call = .sendTransaction other → other = tx
  confirmed : ∀ signature, ended.1 = .ok signature →
    signature = tx.signature ∧ Confirmed rpc.url ended.2 tx
  expired : ∀ lastSendError, ended.1 = .error (.error (expiredText sdk tx lastSendError)) →
    ∃ before, ended.2 = before ++ [checkEvent rpc tx false] ∧ chain.landed before.length = false

theorem misreports_sendIdempotent {rpc : RpcChain} {sdk : Sdk} {tx : Transaction}
    {chain : Chain} {node : Node Answer} (serves : chain.Serves tx node) (statusPolls : Nat) :
    Misreports rpc sdk tx chain (play node [] (rpc.sendIdempotent sdk tx statusPolls)) ↔
      chain.Races statusPolls :=
  misreports_iff serves _ 0 none [] rfl (absurd rfl)

theorem ReportsRight.not_misreports {rpc : RpcChain} {sdk : Sdk} {tx : Transaction}
    {chain : Chain} {ended : Except Stop Signature × List (Event Answer)}
    (right : ReportsRight rpc sdk tx chain ended) : ¬ Misreports rpc sdk tx chain ended := by
  rintro ⟨lastSendError, before, rfl, landed⟩
  obtain ⟨other, reached, unlanded⟩ := right.expired lastSendError rfl
  rw [(List.append_inj' reached rfl).1] at landed
  exact absurd unlanded (by simp [landed])

/-- A submission reports right exactly when the landing and the expiry do not race an expiry
check. -/
theorem reportsRight_iff (rpc : RpcChain) (sdk : Sdk) (tx : Transaction) (statusPolls : Nat)
    (chain : Chain) (node : Node Answer) (serves : chain.Serves tx node) :
    ReportsRight rpc sdk tx chain (play node [] (rpc.sendIdempotent sdk tx statusPolls)) ↔
      ¬ chain.Races statusPolls := by
  rw [← @misreports_sendIdempotent rpc sdk tx chain node serves statusPolls]
  constructor
  · exact ReportsRight.not_misreports
  · intro never
    refine ⟨?_, ?_, ?_⟩
    · obtain ⟨added, grown, only⟩ := Program.asks_run node
        (@only_pollStatus sdk rpc tx (max statusPolls 1) 0 none) []
      have trace : (play node [] (rpc.sendIdempotent sdk tx statusPolls)).2 = added := grown
      rw [trace]
      exact only
    · intro signature returned
      exact pollStatus_confirmed rpc (Prod.ext returned rfl)
    · intro lastSendError stopped
      obtain ⟨before, reached⟩ := pollStatus_expired serves stopped
      refine ⟨before, reached, ?_⟩
      cases landed : chain.landed before.length with
      | false => rfl
      | true => exact absurd ⟨lastSendError, before, Prod.ext stopped reached, landed⟩ never

/-! ### Late landings -/

/-- The chain on which the transaction lands before one request, and its blockhash expires before
another. -/
def lateChain (landing expiry : Nat) (submitted : 0 < landing) (valid : landing ≤ expiry) :
    Chain where
  landed time := landing ≤ time
  expired time := expiry ≤ time
  landed_submitted := decide_eq_false (by omega)
  landed_stays first second order landed := by
    rw [decide_eq_true_iff] at landed ⊢
    omega
  expired_stays first second order expired := by
    rw [decide_eq_true_iff] at expired ⊢
    omega
  landed_valid first second _ expired _ := by
    rw [decide_eq_true_iff] at expired ⊢
    omega

/-- A node without failures on that chain. -/
def lateNode (landing expiry : Nat) : Node Answer := fun history request =>
  match request with
  | ⟨_, .sendTransaction tx⟩ => .ok tx.signature
  | ⟨_, .isBlockhashValid _⟩ => .ok (!decide (expiry ≤ history.length))
  | ⟨_, .getSignatureStatuses _⟩ =>
    .ok [if landing ≤ history.length then some ⟨none, true⟩ else none]
  | _ => .error "error sending request"

theorem lateNode_serves {landing expiry : Nat} (submitted : 0 < landing)
    (valid : landing ≤ expiry) (tx : Transaction) :
    (lateChain landing expiry submitted valid).Serves tx (lateNode landing expiry) where
  validity _ _ := rfl
  landed history url landed := by
    have seen : landing ≤ history.length := of_decide_eq_true landed
    simp only [lateNode]
    rw [if_pos seen]
  pending history url unlanded := by
    have unseen : ¬ landing ≤ history.length := of_decide_eq_false unlanded
    left
    simp only [lateNode]
    rw [if_neg unseen]

/-- A transfer of a thousand lamports. -/
def lateTransfer : Transaction := buildTransfer smallSdk ⟨⟨1⟩⟩ ⟨4⟩ 1000 ⟨⟨2⟩⟩ ⟨0⟩

/-- A transaction that lands before the eighth status read is reported right, whenever its blockhash
expires. -/
theorem reportsRight_early : ReportsRight ⟨"http://127.0.0.1:8899"⟩ smallSdk lateTransfer
    (lateChain 9 11 (by decide) (by decide))
    (play (lateNode 9 11) [] (RpcChain.sendIdempotent ⟨"http://127.0.0.1:8899"⟩ smallSdk
      lateTransfer 20)) := by
  refine (reportsRight_iff _ smallSdk lateTransfer 20 _ (lateNode 9 11)
    (lateNode_serves (by decide) (by decide) lateTransfer)).mpr ?_
  rintro ⟨round, _, below, unread, landed, expired⟩
  have after : 11 ≤ 10 * round + 1 := of_decide_eq_true expired
  have before : ¬ 9 ≤ 10 * round - 1 := of_decide_eq_false (unread (by omega))
  omega

/-- The transaction lands after the eighth status read, and its blockhash expires during the second
send: the submission reports an expiry and no status. -/
theorem late_misreported : (lateChain 10 11 (by decide) (by decide)).Serves lateTransfer
      (lateNode 10 11) ∧
    ¬ ReportsRight ⟨"http://127.0.0.1:8899"⟩ smallSdk lateTransfer
      (lateChain 10 11 (by decide) (by decide))
      (play (lateNode 10 11) [] (RpcChain.sendIdempotent ⟨"http://127.0.0.1:8899"⟩ smallSdk
        lateTransfer 20)) := by
  have serves := lateNode_serves (show 0 < 10 by decide) (show 10 ≤ 11 by decide) lateTransfer
  refine ⟨serves, fun right => ?_⟩
  have raced : (lateChain 10 11 (by decide) (by decide)).Races 20 :=
    ⟨1, by decide, by decide, fun _ => by decide, by decide, by decide⟩
  exact right.not_misreports ((misreports_sendIdempotent serves 20).mpr raced)

end AccountCooker.Live
