/-
Module: StoragePlatform.Proofs.Statements
Purpose: When the statements of two consecutive cycles add up, and that they chain.
Trusted boundary: none
Main exports: BooksEvent, Books.step, NoLaterEntry, statements_add_up_iff
-/
import StoragePlatform.Ledger.Statements
import StoragePlatform.Proofs.LedgerCheck

namespace StoragePlatform

open Lib List Sample

/-!
A statement does not add up its entries.  It has the two balances, and charges or earnings
are their difference if that has the sign the kind of account is expected to have.  So a
credit to a customer, or a debit of a provider, that outweighs the rest of the cycle is in
the closing balance and in neither figure.
-/

/-! ### Histories -/

/-- A write of the ledger in a transaction that began at `began`, or a call of
`CloseCycle`. -/
inductive BooksEvent where
  | write (op : LedgerOp) (began : Time)
  | close (start finish : Time) (accts : List LedgerAccount)

def Books.step (uuids : UuidPackage) (books : Books) : BooksEvent → Option Books
  | .write op began => (books.ledger.apply uuids op).map fun ledger => books.record ledger began
  | .close start finish accts =>
    if accts.Perm books.accounts then some (books.closeCycle start finish accts).1 else none

/-- Once one of the two statements is written, no entry is dated before the end of the
second cycle. -/
def NoLaterEntry (first second : Statement) (books : Books) (event : BooksEvent) (_ : Books) :
    Prop :=
  match event with
  | .write _ began =>
    first ∈ books.statements ∨ second ∈ books.statements → second.cycleEnd ≤ began
  | .close _ _ _ => True

instance (first second : Statement) (books : Books) (event : BooksEvent) (after : Books) :
    Decidable (NoLaterEntry first second books event after) :=
  match event with
  | .write _ _ => inferInstanceAs (Decidable (_ → _))
  | .close _ _ _ => isTrue trivial

/-! ### What a statement should say -/

def Statement.AddsUp (st : Statement) : Prop :=
  st.closing.toInt = st.opening.toInt - st.charges.toInt + st.earnings.toInt
deriving Decidable

/-- What the entries of the account in `[start, finish)` come to. -/
def Books.cycleNet (books : Books) (accountId : Uuid) (start finish : Time) : Int :=
  amountSum ((books.entries.filter fun d =>
    d.entry.accountId = accountId ∧ start ≤ d.createdAt ∧ d.createdAt < finish).map
      DatedEntry.entry)

/-- A customer has not gained over the cycle, a provider has not lost, and the difference
is an `int64`. -/
def OneWay : AccountKind → Int → Prop
  | .balance, net => net ≤ 0 ∧ InInt64 (-net)
  | .earnings, net => 0 ≤ net ∧ InInt64 net
  | .revenue, net => net = 0

instance (kind : AccountKind) (net : Int) : Decidable (OneWay kind net) :=
  match kind with
  | .balance => inferInstanceAs (Decidable (_ ∧ _))
  | .earnings => inferInstanceAs (Decidable (_ ∧ _))
  | .revenue => inferInstanceAs (Decidable (net = 0))

theorem toInt_sub_of_inInt64 {a b : Int64} (fits : InInt64 (a.toInt - b.toInt)) :
    (a - b).toInt = a.toInt - b.toInt := by
  rw [Int64.toInt_sub, bmod_eq_of_inInt64 fits]

/-- A difference that leaves the range is not the word it is reduced to. -/
theorem toInt_sub_eq_iff {a b : Int64} :
    (a - b).toInt = a.toInt - b.toInt ↔ InInt64 (a.toInt - b.toInt) := by
  refine ⟨fun exact_ => ?_, toInt_sub_of_inInt64⟩
  rw [← exact_]
  exact inInt64_toInt _

/-- The two figures account for the difference of the balances exactly if it has the sign
of the kind. -/
theorem addsUp_iff (a : LedgerAccount) (start finish : Time) (opening closing : Int64) :
    (a.statement start finish opening closing).AddsUp ↔
      OneWay a.key.kind (closing.toInt - opening.toInt) := by
  have zero : (0 : Int64).toInt = 0 := rfl
  have turned : -(closing.toInt - opening.toInt) = opening.toInt - closing.toInt := by omega
  simp only [Statement.AddsUp, LedgerAccount.statement]
  cases a.key.kind with
  | balance =>
    simp only [chargesAndEarnings, OneWay, turned, ← toInt_sub_eq_iff]
    split
    · rename_i less
      rw [Int64.lt_iff_toInt_lt] at less
      omega
    · rename_i more
      rw [Int64.lt_iff_toInt_lt] at more
      rw [zero, toInt_sub_eq_iff]
      constructor
      · intro same
        exact ⟨by omega, by rw [same]; simp [InInt64]⟩
      · omega
  | earnings =>
    simp only [chargesAndEarnings, OneWay, ← toInt_sub_eq_iff]
    split
    · rename_i more
      rw [Int64.lt_iff_toInt_lt] at more
      omega
    · rename_i less
      rw [Int64.lt_iff_toInt_lt] at less
      rw [zero, toInt_sub_eq_iff]
      constructor
      · intro same
        exact ⟨by omega, by rw [same]; simp [InInt64]⟩
      · omega
  | revenue =>
    simp only [chargesAndEarnings, OneWay, zero]
    omega

/-! ### Writes append -/

section Appends

variable {ledger ledger' : LedgerDB} {books : Books} {uuids : UuidPackage}

/-- The rows of `ledger'` begin with those of `ledger`. -/
structure LedgerDB.Extends (ledger ledger' : LedgerDB) : Prop where
  accounts : ledger.accounts <+: ledger'.accounts
  entries : ledger.entries <+: ledger'.entries

theorem LedgerDB.Extends.refl (ledger : LedgerDB) : ledger.Extends ledger :=
  ⟨prefix_refl _, prefix_refl _⟩

theorem LedgerDB.postTxn_extends {txnId : Uuid} {window : Option Time} {entries : List Entry}
    (posted : ledger.postTxn txnId window entries = .ok ledger') : ledger.Extends ledger' := by
  simp only [postTxn, insertLedgerTxn] at posted
  repeat' split at posted
  all_goals cases posted
  any_goals exact .refl ledger
  exact ⟨prefix_refl _, prefix_append _ _⟩

theorem LedgerDB.apply_extends {op : LedgerOp} (applied : ledger.apply uuids op = some ledger') :
    ledger.Extends ledger' := by
  cases op with
  | ensure key id =>
    simp only [LedgerDB.apply, ensureAccount] at applied
    split at applied
    · cases applied
      exact .refl ledger
    split at applied <;> cases applied
    exact ⟨prefix_append _ _, prefix_refl _⟩
  | accrual rates m i window =>
    obtain ⟨a, -, posted⟩ := Option.bind_eq_some_iff.mp applied
    rw [postAccrual] at posted
    split at posted
    · exact postTxn_extends (eq_ok_of_toOption posted)
    · cases posted
  | adjust debit credit amount reason txnId =>
    have ok := eq_ok_of_toOption applied
    simp only [postAdjustment, refuse_eq_ok] at ok
    exact postTxn_extends ok.2.2

/-- The dated tables without their dates are what the transaction has committed. -/
theorem Books.record_ledger (grown : books.ledger.Extends ledger') (now : Time) :
    (books.record ledger' now).ledger = ledger' := by
  obtain ⟨rows, appended⟩ := grown.entries
  have undated : ledger'.entries.drop books.entries.length = rows := by
    rw [← appended, ledger, drop_left' (length_map _)]
  simp only [ledger, record, map_append, map_map, undated]
  rw [show (DatedEntry.entry ∘ fun e => (⟨e, now⟩ : DatedEntry)) = id from rfl, map_id]
  congr 1

/-- A balance does not see entries dated later. -/
theorem Books.balanceAt_record (books : Books) (ledger' : LedgerDB) (accountId : Uuid)
    {at_ now : Time} (later : at_ ≤ now) :
    (books.record ledger' now).balanceAt accountId at_ = books.balanceAt accountId at_ := by
  have unseen : ((ledger'.entries.drop books.entries.length).map fun e =>
      (⟨e, now⟩ : DatedEntry)).filter (fun d =>
        d.entry.accountId = accountId ∧ d.createdAt < at_) = [] := by
    refine filter_eq_nil_iff.mpr fun d member => ?_
    obtain ⟨e, -, rfl⟩ := mem_map.mp member
    simpa using fun _ => later
  rw [balanceAt, record, filter_append, unseen, append_nil, balanceAt]

end Appends

/-! ### Statements are snapshots -/

/-- The statement is what `CloseCycle` would write for its account now. -/
def Statement.Snapshot (st : Statement) (books : Books) : Prop :=
  ∃ a ∈ books.accounts, InInt64 (books.balanceAt a.id st.cycleStart) ∧
    InInt64 (books.balanceAt a.id st.cycleEnd) ∧
    st = a.statement st.cycleStart st.cycleEnd
      (Int64.ofInt (books.balanceAt a.id st.cycleStart))
      (Int64.ofInt (books.balanceAt a.id st.cycleEnd))

section Close

variable {books : Books}

theorem Books.accountBalanceAt_ok {accountId : Uuid} {at_ : Time} {n : Int64}
    (read : books.accountBalanceAt accountId at_ = .ok n) :
    InInt64 (books.balanceAt accountId at_) ∧ n = Int64.ofInt (books.balanceAt accountId at_) := by
  rw [accountBalanceAt] at read
  split at read <;> cases read
  rename_i fits
  exact ⟨fits, rfl⟩

/-- A call writes statements only, each of them a snapshot. -/
theorem Books.closeCycle_writes {accts : List LedgerAccount}
    (listed : ∀ a ∈ accts, a ∈ books.accounts) (start finish : Time) :
    ∃ statements, (books.closeCycle start finish accts).1 = { books with statements } ∧
      ∀ st ∈ statements, st ∈ books.statements ∨ st.Snapshot books := by
  -- the loop reads the balances of the entries, which it never writes
  suffices loop : ∀ accts, (∀ a ∈ accts, a ∈ books.accounts) → ∀ before,
      (∀ st ∈ before, st ∈ books.statements ∨ st.Snapshot books) →
      ∃ statements, (closeCycle { books with statements := before } start finish accts).1 =
          { books with statements } ∧
        ∀ st ∈ statements, st ∈ books.statements ∨ st.Snapshot books from
    loop accts listed books.statements fun st member => .inl member
  intro accts
  induction accts with
  | nil => exact fun _ before known => ⟨before, rfl, known⟩
  | cons a accts ih =>
    intro listed before known
    rw [closeCycle]
    cases reads : accountBalanceAt { books with statements := before } a.id start with
    | error e => exact ⟨before, rfl, known⟩
    | ok opening =>
    cases reads' : accountBalanceAt { books with statements := before } a.id finish with
    | error e => exact ⟨before, rfl, known⟩
    | ok closing =>
    simp only [insertStatement]
    have rest : ∀ b ∈ accts, b ∈ books.accounts := fun b member =>
      listed b (mem_cons_of_mem _ member)
    split
    · exact ih rest before known
    · refine ih rest _ fun st member => ?_
      rcases mem_append.mp member with old | new
      · exact known st old
      · obtain ⟨fits, rfl⟩ := accountBalanceAt_ok reads
        obtain ⟨fits', rfl⟩ := accountBalanceAt_ok reads'
        rw [mem_singleton.mp new]
        exact .inr ⟨a, listed a mem_cons_self, fits, fits', rfl⟩

end Close

/-! ### Runs -/

section Runs

variable {uuids : UuidPackage} {books books' : Books} {st : Statement} {event : BooksEvent}

/-- The statement is a snapshot of the ledger as it stands, if it is written. -/
structure Books.Stands (books : Books) (st : Statement) : Prop where
  sound : books.ledger.Sound
  snapshot : st ∈ books.statements → st.Snapshot books

theorem Books.Stands.step (stands : books.Stands st)
    (stepped : books.step uuids event = some books')
    (settled : ∀ op began, event = .write op began → st ∈ books.statements →
      st.cycleStart ≤ began ∧ st.cycleEnd ≤ began) : books'.Stands st := by
  cases event with
  | write op began =>
    obtain ⟨ledger', applied, rfl⟩ := Option.map_eq_some_iff.mp stepped
    have grown := LedgerDB.apply_extends applied
    refine ⟨?_, fun member => ?_⟩
    · rw [Books.record_ledger grown]
      exact (stands.sound.apply applied).1
    · obtain ⟨startsBefore, endsBefore⟩ := settled op began rfl member
      obtain ⟨a, inAccounts, fits, fits', same⟩ := stands.snapshot member
      refine ⟨a, grown.accounts.subset inAccounts, ?_⟩
      rw [books.balanceAt_record ledger' a.id startsBefore,
        books.balanceAt_record ledger' a.id endsBefore]
      exact ⟨fits, fits', same⟩
  | close start finish accts =>
    simp only [Books.step] at stepped
    split at stepped <;> cases stepped
    rename_i listing
    obtain ⟨statements, written, known⟩ :=
      Books.closeCycle_writes (fun a member => listing.mem_iff.mp member) start finish
    rw [written]
    refine ⟨stands.sound, fun member => ?_⟩
    rcases known st member with old | new
    · exact stands.snapshot old
    · exact new

/-- At the end of a run in which nothing is dated into its cycle afterwards, a statement
still is a snapshot. -/
theorem Books.Stands.run {events : List BooksEvent}
    (run : exec (Books.step uuids) .empty events = some books)
    (settled : EveryStep (Books.step uuids) (fun books event _ => ∀ op began,
      event = .write op began → st ∈ books.statements →
        st.cycleStart ≤ began ∧ st.cycleEnd ≤ began) .empty events) : books.Stands st := by
  refine EveryState.last (P := fun books => books.Stands st) (EveryState.of_step ?_ ?_ settled) run
  · exact fun _ _ _ stands stepped dated => stands.step stepped dated
  · exact ⟨LedgerDB.Sound.empty, fun member => absurd member not_mem_nil⟩

/-- The entries of a cycle are the difference of the balances at its ends. -/
theorem Books.cycleNet_eq (books : Books) (accountId : Uuid) {start finish : Time}
    (ordered : start ≤ finish) : books.cycleNet accountId start finish =
      books.balanceAt accountId finish - books.balanceAt accountId start := by
  simp only [cycleNet, balanceAt, amountSum, map_map]
  induction books.entries with
  | nil => rfl
  | cons d entries ih =>
    simp only [filter_cons]
    by_cases own : d.entry.accountId = accountId
    · rcases lt_or_ge d.createdAt start with early | late
      · have before : d.createdAt < finish := lt_of_lt_of_le early ordered
        simp [own, early, before, not_le.mpr early] at ih ⊢
        omega
      · by_cases before : d.createdAt < finish
        · simp [own, late, before, not_lt.mpr late] at ih ⊢
          omega
        · simpa [own, before, not_lt.mpr late] using ih
    · simpa [own] using ih

/-- What a snapshot says about an account, in exact numbers. -/
theorem Statement.Snapshot.figures (sound : books.ledger.Sound) (snapshot : st.Snapshot books)
    {account : LedgerAccount} (inAccounts : account ∈ books.accounts)
    (ofAccount : st.accountId = account.id) :
    st.opening.toInt = books.balanceAt account.id st.cycleStart ∧
      st.closing.toInt = books.balanceAt account.id st.cycleEnd ∧
      (st.AddsUp ↔ OneWay account.key.kind (books.balanceAt account.id st.cycleEnd -
        books.balanceAt account.id st.cycleStart)) := by
  obtain ⟨a, member, fits, fits', same⟩ := snapshot
  have owner : a.id = st.accountId := (congrArg Statement.accountId same).symm
  obtain rfl : a = account :=
    sound.account_pk.eq_of_key member inAccounts (owner.trans ofAccount)
  have figures := addsUp_iff a st.cycleStart st.cycleEnd
    (Int64.ofInt (books.balanceAt a.id st.cycleStart))
    (Int64.ofInt (books.balanceAt a.id st.cycleEnd))
  rw [← same, toInt_ofInt_of_inInt64 fits, toInt_ofInt_of_inInt64 fits'] at figures
  refine ⟨?_, ?_, figures⟩
  · rw [congrArg Statement.opening same]
    exact toInt_ofInt_of_inInt64 fits
  · rw [congrArg Statement.closing same]
    exact toInt_ofInt_of_inInt64 fits'

end Runs

/-- The statements of two consecutive cycles, written when no entry can fall into them any
more, chain; and they add up exactly if over neither cycle the account has moved against
its kind. -/
theorem statements_add_up_iff {uuids : UuidPackage} {events : List BooksEvent} {books : Books}
    (run : exec (Books.step uuids) .empty events = some books) {first second : Statement}
    (inFirst : first ∈ books.statements) (inSecond : second ∈ books.statements)
    {account : LedgerAccount} (inAccounts : account ∈ books.accounts)
    (ofFirst : first.accountId = account.id) (ofSecond : second.accountId = account.id)
    (ordered : first.cycleStart ≤ first.cycleEnd)
    (consecutive : first.cycleEnd = second.cycleStart)
    (ordered' : second.cycleStart ≤ second.cycleEnd)
    (settled : EveryStep (Books.step uuids) (NoLaterEntry first second) .empty events) :
    (first.AddsUp ∧ second.AddsUp ∧ second.opening = first.closing) ↔
      OneWay account.key.kind
          (books.cycleNet account.id first.cycleStart first.cycleEnd) ∧
        OneWay account.key.kind
          (books.cycleNet account.id second.cycleStart second.cycleEnd) := by
  have stands : ∀ st, (st = first ∨ st = second) → books.Stands st := by
    intro st which
    refine Books.Stands.run run (EveryStep.mono ?_ settled)
    rintro before event after dated op began rfl member
    rcases which with rfl | rfl
    · have late : second.cycleStart ≤ began := ordered'.trans (dated (.inl member))
      rw [← consecutive] at late
      exact ⟨ordered.trans late, late⟩
    · have late : st.cycleEnd ≤ began := dated (.inr member)
      exact ⟨ordered'.trans late, late⟩
  have standsFirst := stands first (.inl rfl)
  obtain ⟨-, closing, adds⟩ :=
    (standsFirst.snapshot inFirst).figures standsFirst.sound inAccounts ofFirst
  obtain ⟨opening, -, adds'⟩ :=
    ((stands second (.inr rfl)).snapshot inSecond).figures standsFirst.sound inAccounts ofSecond
  have chained : second.opening = first.closing := by
    rw [← Int64.toInt_inj, opening, closing, consecutive]
  rw [books.cycleNet_eq account.id ordered, books.cycleNet_eq account.id ordered', adds, adds']
  exact ⟨fun all => ⟨all.1, all.2.1⟩, fun both => ⟨both.1, both.2, chained⟩⟩

namespace Sample

def customerAccount : LedgerAccount where
  id := 2
  key := { ownerType := .customer, ownerId := some 9, kind := .balance }

/-- The accounts of a customer and of the platform. -/
def opened : List BooksEvent :=
  [.write (.ensure platformKey 1) 5, .write (.ensure customerAccount.key 2) 5]

/-- `CloseCycle` for two cycles, called at the end of the second. -/
def twoCloses : List BooksEvent :=
  let accts : List LedgerAccount := [{ id := 1, key := platformKey }, customerAccount]
  [.close 0 10000 accts, .close 10000 20000 accts]

/-- A gigabyte is stored for an hour in each cycle. -/
def storedTwice : List BooksEvent :=
  let m := { fourTerabytes with stored := [{ ownerId := 9, sizeBytes := 1000000000 }] }
  opened ++ [.write (.accrual rates m 0 3600) 7200, .write (.adjust 2 1 1000 ['f', 'e', 'e'] 100)
    12000] ++ twoCloses

/-- The customer is credited one credit in the first cycle. -/
def creditedOnce : List BooksEvent :=
  opened ++ [.write (.adjust 1 2 1000000 ['t', 'o', 'p', '-', 'u', 'p'] 100) 7200] ++ twoCloses

def cycleStatement (start finish : Time) (opening closing charges : Int64) : Statement where
  accountId := 2
  cycleStart := start
  cycleEnd := finish
  opening := opening
  closing := closing
  charges := charges
  earnings := 0

end Sample

/-- A customer who is only charged has statements that add up. -/
theorem charged_statements_add_up :
    (cycleStatement 0 10000 0 (-4109) 4109).AddsUp ∧
      (cycleStatement 10000 20000 (-4109) (-5109) 1000).AddsUp := by
  obtain ⟨books, run, inFirst, inSecond, account, net, net'⟩ : ∃ books,
      exec (Books.step (Sample.uuids fun _ => 5)) .empty storedTwice = some books ∧
        cycleStatement 0 10000 0 (-4109) 4109 ∈ books.statements ∧
        cycleStatement 10000 20000 (-4109) (-5109) 1000 ∈ books.statements ∧
        customerAccount ∈ books.accounts ∧
        OneWay .balance (books.cycleNet 2 0 10000) ∧
        OneWay .balance (books.cycleNet 2 10000 20000) := by
    decide +kernel
  have both := (statements_add_up_iff run inFirst inSecond account rfl rfl (by decide) rfl
    (by decide) (by decide +kernel)).mpr ⟨net, net'⟩
  exact ⟨both.1, both.2.1⟩

/-- The credit is in the closing balance, and in neither the charges nor the earnings. -/
theorem credit_not_in_statement :
    ∃ books, exec (Books.step (Sample.uuids fun _ => 5)) .empty creditedOnce = some books ∧
      EveryStep (Books.step (Sample.uuids fun _ => 5))
        (NoLaterEntry (cycleStatement 0 10000 0 1000000 0)
          (cycleStatement 10000 20000 1000000 1000000 0)) .empty creditedOnce ∧
      customerAccount ∈ books.accounts ∧
      cycleStatement 0 10000 0 1000000 0 ∈ books.statements ∧
      cycleStatement 10000 20000 1000000 1000000 0 ∈ books.statements ∧
      ¬ (cycleStatement 0 10000 0 1000000 0).AddsUp := by
  decide +kernel

end StoragePlatform
