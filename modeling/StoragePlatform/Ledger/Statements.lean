/-
Module: StoragePlatform.Ledger.Statements
Purpose: The dated ledger, balances at a time and CloseCycle (internal/ledger/ledger.go,
  internal/store/ledger.go).
Trusted boundary: human-reviewed spec
Main exports: DatedEntry, Statement, Books, Books.record, Books.closeCycle
-/
import StoragePlatform.Ledger.Post

namespace StoragePlatform

open Lib

/-!
`created_at` has the default `now()`, the start of the transaction, so all rows of a
posting have one time and it may be earlier than that of rows committed before them.
Times are counted in the microseconds of a `TIMESTAMPTZ`.  `ListLedgerAccounts` has no
`ORDER BY`: the order in which a call sees the accounts is an argument.
-/

/-- A row of `ledger_entries` with its `created_at`. -/
structure DatedEntry where
  entry : LedgerEntry
  createdAt : Time
deriving DecidableEq, Repr

/-- A row of `statements`. -/
structure Statement where
  accountId : Uuid
  cycleStart : Time
  cycleEnd : Time
  opening : Int64
  closing : Int64
  charges : Int64
  earnings : Int64
deriving DecidableEq, Repr

/-- The ledger tables and the statements. -/
structure Books where
  accounts : List LedgerAccount
  txns : List LedgerTxn
  entries : List DatedEntry
  statements : List Statement
deriving DecidableEq, Repr

def Books.empty : Books := ⟨[], [], [], []⟩

/-- The tables without the dates. -/
def Books.ledger (books : Books) : LedgerDB :=
  ⟨books.accounts, books.txns, books.entries.map DatedEntry.entry⟩

/-- The tables once a transaction that began at `now` has committed `ledger`: the rows it
has appended are dated `now`. -/
def Books.record (books : Books) (ledger : LedgerDB) (now : Time) : Books :=
  { books with
    accounts := ledger.accounts
    txns := ledger.txns
    entries := books.entries ++
      (ledger.entries.drop books.entries.length).map fun e => ⟨e, now⟩ }

/-! ### Closing a cycle -/

/-- `SUM(amount)` over the entries of the account created before `at`. -/
def Books.balanceAt (books : Books) (accountId : Uuid) (at_ : Time) : Int :=
  amountSum ((books.entries.filter fun d =>
    d.entry.accountId = accountId ∧ d.createdAt < at_).map DatedEntry.entry)

/-- `AccountBalanceAt`; the sum is scanned into an `int64`. -/
def Books.accountBalanceAt (books : Books) (accountId : Uuid) (at_ : Time) :
    Except LedgerErr Int64 :=
  if InInt64 (books.balanceAt accountId at_) then
    .ok (Int64.ofInt (books.balanceAt accountId at_))
  else .error (.query "store.accountBalanceAt")

/-- `InsertStatement`; a statement for the same account and start is left alone. -/
def Books.insertStatement (books : Books) (st : Statement) : Books :=
  if books.statements.any fun old =>
      old.accountId = st.accountId ∧ old.cycleStart = st.cycleStart then books
  else { books with statements := books.statements ++ [st] }

/-- The charges and the earnings of a statement, from the two balances. -/
def chargesAndEarnings (kind : AccountKind) (opening closing : Int64) : Int64 × Int64 :=
  match kind with
  | .balance => (if closing < opening then opening - closing else 0, 0)
  | .earnings => (0, if opening < closing then closing - opening else 0)
  | .revenue => (0, 0)

def LedgerAccount.statement (a : LedgerAccount) (start finish : Time) (opening closing : Int64) :
    Statement where
  accountId := a.id
  cycleStart := start
  cycleEnd := finish
  opening := opening
  closing := closing
  charges := (chargesAndEarnings a.key.kind opening closing).1
  earnings := (chargesAndEarnings a.key.kind opening closing).2

/-- `CloseCycle`, with the accounts as listed.  The statements written before an error
stay. -/
def Books.closeCycle (books : Books) (start finish : Time) :
    List LedgerAccount → Books × Except LedgerErr Unit
  | [] => (books, .ok ())
  | a :: accts =>
    match books.accountBalanceAt a.id start with
    | .error e => (books, .error e)
    | .ok opening =>
      match books.accountBalanceAt a.id finish with
      | .error e => (books, .error e)
      | .ok closing =>
        (books.insertStatement (a.statement start finish opening closing)).closeCycle
          start finish accts

end StoragePlatform
