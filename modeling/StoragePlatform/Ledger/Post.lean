/-
Module: StoragePlatform.Ledger.Post
Purpose: The ledger tables, posting (internal/ledger/ledger.go, internal/store/ledger.go)
  and the balance part of CheckLedger (internal/invariants/invariants.go).
Trusted boundary: human-reviewed spec
Main exports: LedgerAccount, LedgerTxn, LedgerEntry, LedgerDB, LedgerDB.checkBalance
-/
import StoragePlatform.Store.Schema
import StoragePlatform.Lib.Word64

namespace StoragePlatform

open Lib

/-!
The reference column of an entry is only read by reports and is left out, as is the
audit row of an adjustment.  `SUM` of a `BIGINT` column is a `NUMERIC`: the sums of
the queries are unbounded, and scanning one into an `int64` fails when it does not
fit.
-/

inductive OwnerType where
  | customer | provider | platform
deriving DecidableEq, Repr, Inhabited

/-- `customer_balance`, `provider_earnings`, `platform_revenue`. -/
inductive AccountKind where
  | balance | earnings | revenue
deriving DecidableEq, Repr, Inhabited

inductive EntryType where
  | storageCharge | egressCharge | storageEarning | egressEarning | adjustment
deriving DecidableEq, Repr, Inhabited

/-- `(owner_type, owner_id, kind)`: what an account is looked up by. -/
structure AccountKey where
  ownerType : OwnerType
  ownerId : Option Uuid
  kind : AccountKind
deriving DecidableEq, Repr, Inhabited

/-- A row of `ledger_accounts`. -/
structure LedgerAccount where
  id : Uuid
  key : AccountKey
deriving DecidableEq, Repr, Inhabited

/-- A row of `ledger_txns`, the header of a transaction. -/
structure LedgerTxn where
  txnId : Uuid
  kind : EntryType
  windowStart : Option Time
deriving DecidableEq, Repr, Inhabited

/-- A row of `ledger_entries`, one leg of a transaction. -/
structure LedgerEntry where
  txnId : Uuid
  accountId : Uuid
  amount : Int64
  entryType : EntryType
deriving DecidableEq, Repr, Inhabited

structure LedgerDB where
  accounts : List LedgerAccount
  txns : List LedgerTxn
  entries : List LedgerEntry
deriving DecidableEq, Repr

def LedgerDB.empty : LedgerDB := ⟨[], [], []⟩

inductive LedgerErr where
  /-- `errUnbalanced`: the legs do not sum to zero. -/
  | unbalanced
  /-- `errAdjustmentReason`. -/
  | reasonRequired
  | amountNotPositive
  /-- A statement or the commit fails. -/
  | query (op : String)
deriving DecidableEq, Repr

/-! ### Accounts -/

/-- `LedgerAccountByKey`. -/
def LedgerDB.accountByKey (ledger : LedgerDB) (key : AccountKey) : Option LedgerAccount :=
  ledger.accounts.find? fun a => a.key = key

/-- `EnsureLedgerAccount`; `id` is what `gen_random_uuid()` gives for a new row. -/
def LedgerDB.ensureAccount (ledger : LedgerDB) (key : AccountKey) (id : Uuid) :
    Except LedgerErr (LedgerAccount × LedgerDB) :=
  match ledger.accountByKey key with
  | some a => .ok (a, ledger)
  | none =>
    if ledger.accounts.any fun a => a.id = id then .error (.query "store.ensureLedgerAccount")
    else
      let account : LedgerAccount := { id := id, key := key }
      .ok (account, { ledger with accounts := ledger.accounts ++ [account] })

/-! ### Posting -/

/-- `Entry`: a posting leg. -/
structure Entry where
  accountId : Uuid
  amount : Int64
  type : EntryType
deriving DecidableEq, Repr, Inhabited

/-- `SumZero`; the sum is an `int64`. -/
def sumZero (entries : List Entry) : Bool :=
  entries ≠ [] ∧ (entries.map Entry.amount).sum = 0

/-- The unbounded sum of the amounts. -/
def amountSum (entries : List LedgerEntry) : Int := (entries.map fun e => e.amount.toInt).sum

/-- The legs of a transaction. -/
def LedgerDB.legsOf (ledger : LedgerDB) (txnId : Uuid) : List LedgerEntry :=
  ledger.entries.filter fun e => e.txnId = txnId

/-- The rows of `ledger_entries` a posting writes. -/
def Entry.row (txnId : Uuid) (e : Entry) : LedgerEntry where
  txnId := txnId
  accountId := e.accountId
  amount := e.amount
  entryType := e.type

/-- `InsertLedgerTxn`, one transaction.  A known id is left alone.  A leg needs its
account (the foreign key), and the deferred trigger `ledger_txn_balanced` refuses the
commit if the legs of the transaction do not sum to zero. -/
def LedgerDB.insertLedgerTxn (ledger : LedgerDB) (txn : LedgerTxn) (rows : List LedgerEntry) :
    Except LedgerErr LedgerDB :=
  if rows = [] then .ok ledger
  else if ledger.txns.any fun t => t.txnId = txn.txnId then .ok ledger
  else if rows.any fun e => !ledger.accounts.any fun a => a.id = e.accountId then
    .error (.query "store.insertLedgerTxn")
  else
    let posted : LedgerDB :=
      { ledger with txns := ledger.txns ++ [txn], entries := ledger.entries ++ rows }
    if rows.any fun e => amountSum (posted.legsOf e.txnId) ≠ 0 then
      .error (.query "store.insertLedgerTxn")
    else .ok posted

/-- `PostTxn`. -/
def LedgerDB.postTxn (ledger : LedgerDB) (txnId : Uuid) (window : Option Time)
    (entries : List Entry) : Except LedgerErr LedgerDB :=
  if sumZero entries = false then .error .unbalanced
  else
    match entries with
    | [] => .ok ledger
    | first :: _ =>
      ledger.insertLedgerTxn { txnId := txnId, kind := first.type, windowStart := window }
        (entries.map (Entry.row txnId))

/-- `PostAdjustment`; `txnId` is the new random id. -/
def LedgerDB.postAdjustment (ledger : LedgerDB) (debit credit : Uuid) (amount : Int64)
    (reason : Text) (txnId : Uuid) : Except LedgerErr LedgerDB :=
  if reason = [] then .error .reasonRequired
  else if amount ≤ 0 then .error .amountNotPositive
  else
    ledger.postTxn txnId none
      [{ accountId := debit, amount := -amount, type := .adjustment },
        { accountId := credit, amount := amount, type := .adjustment }]

/-! ### The checker -/

/-- `LedgerUnbalancedTxns`. -/
def LedgerDB.unbalancedTxns (ledger : LedgerDB) : List Uuid :=
  ((ledger.entries.map LedgerEntry.txnId).dedup).filter fun id =>
    amountSum (ledger.legsOf id) ≠ 0

/-- The entries on the accounts of an owner type. -/
def LedgerDB.entriesOf (ledger : LedgerDB) (owner : OwnerType) : List LedgerEntry :=
  ((innerJoin (fun (e : LedgerEntry) (a : LedgerAccount) => a.id = e.accountId) ledger.entries
    ledger.accounts).filter fun ea => ea.2.key.ownerType = owner).map Prod.fst

/-- A row of `LedgerTotalsByOwner`; a missing row leaves the checker's variable at 0. -/
def LedgerDB.ownerTotal (ledger : LedgerDB) (owner : OwnerType) : Int :=
  amountSum (ledger.entriesOf owner)

inductive BalanceErr where
  | unbalancedTxns (n : Nat)
  /-- A total does not fit in an `int64`. -/
  | scan
  | notZero
  | customerPositive
  | marginMismatch
deriving DecidableEq, Repr

/-- The balance part of `CheckLedger`: everything before `CheckUsageReconcile`. -/
def LedgerDB.checkBalance (ledger : LedgerDB) : Except BalanceErr Unit :=
  if ledger.unbalancedTxns ≠ [] then .error (.unbalancedTxns ledger.unbalancedTxns.length)
  else if ¬ (InInt64 (ledger.ownerTotal .customer) ∧ InInt64 (ledger.ownerTotal .provider) ∧
      InInt64 (ledger.ownerTotal .platform)) then .error .scan
  else
    let customer := Int64.ofInt (ledger.ownerTotal .customer)
    let provider := Int64.ofInt (ledger.ownerTotal .provider)
    let platform := Int64.ofInt (ledger.ownerTotal .platform)
    if customer + provider + platform ≠ 0 then .error .notZero
    else if 0 < customer then .error .customerPositive
    else if -customer ≠ provider + platform then .error .marginMismatch
    else .ok ()

end StoragePlatform
