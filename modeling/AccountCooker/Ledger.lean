/-
This file models the observable ledger: account identifiers, action kinds, the
transaction record with its ground-truth label, and the two views of a ledger
every analysis starts from, the set of its accounts and the ownership of those
that sign.

An account identifier is thirty-two bytes. Its derived order compares the bytes
one by one, which is the order of the number they spell in big-endian, so the
model keeps that number.
-/

import Mathlib
import AccountCooker.Collections

namespace AccountCooker

open Collections

/-! ### Identifiers and kinds -/

/-- A 32-byte account identifier, as the number its bytes spell in big-endian. -/
structure AccountId where
  bytes : Fin (2 ^ 256)
deriving DecidableEq

/-- There are identifiers, so that a numeral is one. -/
instance idSpace_neZero : NeZero (2 ^ 256 : Nat) := ⟨pow_ne_zero 256 two_ne_zero⟩

namespace AccountId

instance : LE AccountId := ⟨fun first second => first.bytes ≤ second.bytes⟩

instance : LT AccountId := ⟨fun first second => first.bytes < second.bytes⟩

instance (first second : AccountId) : Decidable (first ≤ second) :=
  inferInstanceAs (Decidable (first.bytes ≤ second.bytes))

instance (first second : AccountId) : Decidable (first < second) :=
  inferInstanceAs (Decidable (first.bytes < second.bytes))

instance : LinearOrder AccountId where
  le_refl account := le_refl account.bytes
  le_trans first second third := le_trans (a := first.bytes) (b := second.bytes) (c := third.bytes)
  lt_iff_le_not_ge first second := lt_iff_le_not_ge (a := first.bytes) (b := second.bytes)
  le_antisymm first second below above := by
    cases first
    cases second
    exact congrArg AccountId.mk (le_antisymm below above)
  le_total first second := le_total first.bytes second.bytes
  toDecidableLE := inferInstance
  toDecidableLT := inferInstance
  toDecidableEq := inferInstance

end AccountId

/-- The number of an operator. The source numbers operators by `u32`, cut from the index of the
agent; the index itself is kept here, so that fleets of more than `2 ^ 32` agents, whose numbers the
source would repeat, are not modelled faithfully. -/
abbrev AgentId := Nat

/-- The class of on-chain action an agent can perform. -/
inductive ActionKind
  | transfer
  | stake
  | swap
  | memo
  | dust
  | consolidate
deriving DecidableEq

namespace ActionKind

/-- The key of the kind in a persona's weight table. -/
def key : ActionKind → String
  | transfer => "transfer"
  | stake => "stake"
  | swap => "swap"
  | memo => "memo"
  | dust => "dust"
  | consolidate => "consolidate"

/-- Parse a key of a weight table. -/
def fromKey (text : String) : Option ActionKind :=
  if text = "transfer" then some transfer
  else if text = "stake" then some stake
  else if text = "swap" then some swap
  else if text = "memo" then some memo
  else if text = "dust" then some dust
  else if text = "consolidate" then some consolidate
  else none

theorem fromKey_key (kind : ActionKind) : fromKey kind.key = some kind := by
  cases kind <;> rfl

theorem key_of_fromKey {key : String} {kind : ActionKind} (parsed : fromKey key = some kind) :
    kind.key = key := by
  unfold fromKey at parsed
  split_ifs at parsed <;> obtain rfl := Option.some.inj parsed <;> exact Eq.symm ‹_›

end ActionKind

/-! ### Records -/

/-- One recorded transaction: what an observer of the chain sees, and the operator behind it,
which only the scoring may read. -/
structure TxRecord where
  sig : Nat
  slot : Nat
  ts : Int
  feePayer : AccountId
  source : AccountId
  dest : AccountId
  amount : Nat
  kind : ActionKind
  operator : Option AgentId
deriving DecidableEq

/-- The records in the order the chain took them. -/
structure Ledger where
  records : List TxRecord
deriving DecidableEq

namespace Ledger

/-- Every distinct account that appears anywhere in the ledger. -/
def accounts (ledger : Ledger) : BTreeSet AccountId :=
  ledger.records.foldl
    (fun found record =>
      ((found.insert record.feePayer ()).insert record.source ()).insert record.dest ())
    BTreeMap.empty

/-- Which operator controls each account: the operator of the last record it signs. -/
def ownership (ledger : Ledger) : HashMap AccountId AgentId :=
  ledger.records.foldl
    (fun owners record =>
      match record.operator with
      | some operator => owners.insert record.source operator
      | none => owners)
    ∅

/-- An account appears in a record. -/
def Mentions (record : TxRecord) (account : AccountId) : Prop :=
  account = record.feePayer ∨ account = record.source ∨ account = record.dest

theorem mem_accounts_foldl (records : List TxRecord) (found : BTreeSet AccountId)
    (account : AccountId) :
    account ∈ (records.foldl (fun found record =>
        ((found.insert record.feePayer ()).insert record.source ()).insert record.dest ())
          found).keys ↔
      account ∈ found.keys ∨ ∃ record ∈ records, Mentions record account := by
  induction records generalizing found with
  | nil => simp
  | cons record rest inductionHypothesis =>
    rw [List.foldl_cons, inductionHypothesis]
    simp only [BTreeMap.mem_keys_insert, List.mem_cons, exists_eq_or_imp]
    refine Iff.trans (or_congr_left ?_) or_assoc
    unfold Mentions
    tauto

/-- The accounts of a ledger are those its records mention. -/
theorem mem_accounts (ledger : Ledger) (account : AccountId) :
    account ∈ ledger.accounts.keys ↔ ∃ record ∈ ledger.records, Mentions record account := by
  unfold accounts
  rw [mem_accounts_foldl, BTreeMap.keys_empty]
  simp

end Ledger

end AccountCooker
