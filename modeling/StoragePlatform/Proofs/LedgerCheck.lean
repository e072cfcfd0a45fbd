/-
Module: StoragePlatform.Proofs.LedgerCheck
Purpose: Which ledgers built by accruals and adjustments the balance part of
  CheckLedger accepts, and when the check of PostTxn is the one of the database.
Trusted boundary: none
Main exports: LedgerOp, LedgerDB.apply, LedgerDB.Sound, StaysOwed, checksAgree_iff
-/
import StoragePlatform.Proofs.Accrual
import StoragePlatform.Proofs.Billing

namespace StoragePlatform

open Lib List Sample

/-!
Every posting is balanced, so the three totals always add up to zero.  What is left of
the check is the sign of the customers' total, which an adjustment can change, and that
the totals fit in an `int64`.
-/

/-! ### Operations -/

/-- The statements of `AccrueWindow` and `PostAdjustment` that write.  `accrual` is the
`i`-th posting of an `AccrueWindow` with these rates and readings; the `EnsureAccount`
calls before it are operations of their own. -/
inductive LedgerOp where
  | ensure (key : AccountKey) (id : Uuid)
  | accrual (rates : Rates) (m : Readings) (i : Nat) (window : Time)
  | adjust (debit credit : Uuid) (amount : Int64) (reason : Text) (txnId : Uuid)

/-- The `PostTxn` of an accrual, between the accounts it has ensured. -/
def LedgerDB.postAccrual (uuids : UuidPackage) (ledger : LedgerDB) (a : Accrual)
    (window : Time) : Option LedgerDB :=
  match ledger.accountByKey a.accountKey, ledger.accountByKey platformKey with
  | some account, some platform =>
    (ledger.postTxn (a.txnId uuids window) (some window)
      (a.entries account.id platform.id)).toOption
  | _, _ => none

def LedgerDB.apply (uuids : UuidPackage) (ledger : LedgerDB) : LedgerOp → Option LedgerDB
  | .ensure key id => (ledger.ensureAccount key id).toOption.map Prod.snd
  | .accrual rates m i window =>
    (windowAccruals rates m)[i]?.bind fun a => ledger.postAccrual uuids a window
  | .adjust debit credit amount reason txnId =>
    (ledger.postAdjustment debit credit amount reason txnId).toOption

/-! ### What an operation moves -/

/-- The owner type of an account. -/
def LedgerDB.ownerOf (ledger : LedgerDB) (accountId : Uuid) : Option OwnerType :=
  (ledger.accounts.find? fun a => a.id = accountId).map fun a => a.key.ownerType

def LedgerDB.knows (ledger : LedgerDB) (txnId : Uuid) : Bool :=
  ledger.txns.any fun t => t.txnId = txnId

/-- Who pays and who is paid. -/
def Accrual.parties (a : Accrual) : OwnerType × OwnerType :=
  match a.kind with
  | .storageEarning | .egressEarning => (.platform, .provider)
  | _ => (.customer, .platform)

/-- What moving `amount` adds to an owner type's total. -/
def moved (payer payee : OwnerType) (amount : Int) (owner : OwnerType) : Int :=
  (if payee = owner then amount else 0) - (if payer = owner then amount else 0)

/-- What an operation adds to the total of an owner type: nothing if its id is known. -/
def LedgerOp.net (uuids : UuidPackage) (ledger : LedgerDB) (op : LedgerOp) (owner : OwnerType) :
    Int :=
  match op with
  | .ensure _ _ => 0
  | .accrual rates m i window =>
    match (windowAccruals rates m)[i]? with
    | none => 0
    | some a =>
      if ledger.knows (a.txnId uuids window) then 0
      else moved a.parties.1 a.parties.2 a.amount.toInt owner
  | .adjust debit credit amount _ txnId =>
    match ledger.ownerOf debit, ledger.ownerOf credit with
    | some payer, some payee =>
      if ledger.knows txnId then 0 else moved payer payee amount.toInt owner
    | _, _ => 0

/-! ### Sound ledgers -/

/-- The keys of the ledger tables, and that every transaction is balanced. -/
structure LedgerDB.Sound (ledger : LedgerDB) : Prop where
  account_pk : UniqueOn LedgerAccount.id ledger.accounts
  entry_account : ∀ e ∈ ledger.entries, ∃ a ∈ ledger.accounts, a.id = e.accountId
  entry_txn : ∀ e ∈ ledger.entries, ledger.knows e.txnId = true
  balanced : ∀ txnId, amountSum (ledger.legsOf txnId) = 0
  total : amountSum ledger.entries = 0

theorem LedgerDB.Sound.empty : LedgerDB.empty.Sound := by
  constructor <;> simp [LedgerDB.empty, UniqueOn, LedgerDB.legsOf, amountSum]

theorem amountSum_append (es es' : List LedgerEntry) :
    amountSum (es ++ es') = amountSum es + amountSum es' := by
  simp [amountSum]

section Totals

variable {ledger ledger' : LedgerDB} {owner : OwnerType}

/-- What an entry counts for an owner type. -/
def LedgerDB.share (ledger : LedgerDB) (owner : OwnerType) (e : LedgerEntry) : Int :=
  if ledger.ownerOf e.accountId = some owner then e.amount.toInt else 0

theorem LedgerDB.ownerTotal_eq (unique : UniqueOn LedgerAccount.id ledger.accounts)
    (owner : OwnerType) :
    ledger.ownerTotal owner = (ledger.entries.map (ledger.share owner)).sum := by
  have one : ∀ e ∈ ledger.entries, ∀ a ∈ ledger.accounts, ∀ a' ∈ ledger.accounts,
      decide (a.id = e.accountId) = true → decide (a'.id = e.accountId) = true → a = a' := by
    intro e _ a member a' member' same same'
    simp only [decide_eq_true_eq] at same same'
    exact unique.eq_of_key member member' (same.trans same'.symm)
  rw [ownerTotal, entriesOf, innerJoin_eq_filterMap unique.nodup one]
  generalize ledger.entries = entries
  induction entries with
  | nil => rfl
  | cons e entries ih =>
    rw [map_cons, sum_cons, ← ih]
    cases found : ledger.accounts.find? fun a => a.id = e.accountId with
    | none => simp [found, share, ownerOf, amountSum]
    | some a =>
      by_cases here : a.key.ownerType = owner <;>
        simp [found, share, ownerOf, amountSum, here]

theorem LedgerDB.ownerOf_of_mem (unique : UniqueOn LedgerAccount.id ledger.accounts)
    {a : LedgerAccount} (member : a ∈ ledger.accounts) :
    ledger.ownerOf a.id = some a.key.ownerType := by
  rw [ownerOf, unique.find_key member rfl]
  rfl

/-- Every entry counts for exactly one owner type. -/
theorem LedgerDB.Sound.totals (sound : ledger.Sound) :
    ledger.ownerTotal .customer + ledger.ownerTotal .provider + ledger.ownerTotal .platform =
      0 := by
  have split : ∀ es : List LedgerEntry, (∀ e ∈ es, e ∈ ledger.entries) →
      (es.map (ledger.share .customer)).sum + (es.map (ledger.share .provider)).sum +
        (es.map (ledger.share .platform)).sum = amountSum es := by
    intro es within
    induction es with
    | nil => rfl
    | cons e es ih =>
      obtain ⟨a, member, same⟩ := sound.entry_account e (within e mem_cons_self)
      have owner := LedgerDB.ownerOf_of_mem sound.account_pk member
      rw [same] at owner
      have rest := ih fun e' later => within e' (mem_cons_of_mem _ later)
      simp only [amountSum, map_cons, sum_cons, share, owner] at rest ⊢
      cases kind : a.key.ownerType <;> simp at rest ⊢ <;> omega
  rw [ownerTotal_eq sound.account_pk, ownerTotal_eq sound.account_pk,
    ownerTotal_eq sound.account_pk, split _ fun _ member => member, sound.total]

/-- The totals are in range and the customers do not own anything on the whole. -/
def LedgerDB.Owed (ledger : LedgerDB) : Prop :=
  (∀ owner, InInt64 (ledger.ownerTotal owner)) ∧ ledger.ownerTotal .customer ≤ 0

/-- All that is left of the check in a sound ledger. -/
theorem LedgerDB.Sound.checkBalance_iff (sound : ledger.Sound) :
    ledger.checkBalance = .ok () ↔ ledger.Owed := by
  have balanced : ledger.unbalancedTxns = [] := by
    rw [unbalancedTxns, filter_eq_nil_iff]
    intro txnId _
    simp [sound.balanced txnId]
  have totals := sound.totals
  simp only [checkBalance, balanced, ne_eq, not_true, if_false, Owed]
  by_cases fits : InInt64 (ledger.ownerTotal .customer) ∧
      InInt64 (ledger.ownerTotal .provider) ∧ InInt64 (ledger.ownerTotal .platform)
  · have every : ∀ owner, InInt64 (ledger.ownerTotal owner) := by
      rintro (_ | _ | _)
      exacts [fits.1, fits.2.1, fits.2.2]
    have zero : Int64.ofInt (ledger.ownerTotal .customer) +
        Int64.ofInt (ledger.ownerTotal .provider) +
        Int64.ofInt (ledger.ownerTotal .platform) = 0 := by
      rw [← Int64.ofInt_add, ← Int64.ofInt_add, totals]
      rfl
    have margin : -Int64.ofInt (ledger.ownerTotal .customer) =
        Int64.ofInt (ledger.ownerTotal .provider) +
          Int64.ofInt (ledger.ownerTotal .platform) := by
      rw [← Int64.ofInt_add, ← Int64.ofInt_neg]
      congr 1
      omega
    have sign : 0 < Int64.ofInt (ledger.ownerTotal .customer) ↔
        0 < ledger.ownerTotal .customer := by
      rw [Int64.lt_iff_toInt_lt, toInt_ofInt_of_inInt64 fits.1, zero_toInt]
    simp only [fits, every, zero, margin, not_true, if_false, sign]
    by_cases positive : 0 < ledger.ownerTotal .customer <;> simp [positive]
    omega
  · simp only [fits, not_false_eq_true, if_true]
    constructor
    · intro ok
      cases ok
    · intro owed
      exact absurd ⟨owed.1 _, owed.1 _, owed.1 _⟩ fits

end Totals

/-! ### Postings -/

section Steps

variable {uuids : UuidPackage} {ledger ledger' : LedgerDB} {op : LedgerOp}
variable {txnId payer payee : Uuid} {amount : Int64} {type : EntryType} {window : Option Time}

/-- The ledger after a new transaction of two legs. -/
def LedgerDB.posted (ledger : LedgerDB) (txnId : Uuid) (window : Option Time)
    (payer payee : Uuid) (amount : Int64) (type : EntryType) : LedgerDB :=
  { ledger with
    txns := ledger.txns ++ [{ txnId := txnId, kind := type, windowStart := window }]
    entries := ledger.entries ++ [{ txnId := txnId, accountId := payer, amount := -amount,
                                    entryType := type },
                                  { txnId := txnId, accountId := payee, amount := amount,
                                    entryType := type }] }

/-- A posting of two legs is either known or appended; the accounts are there. -/
theorem LedgerDB.postTxn_pair
    (ok : ledger.postTxn txnId window
      [{ accountId := payer, amount := -amount, type := type },
        { accountId := payee, amount := amount, type := type }] = .ok ledger') :
    (ledger.knows txnId = true ∧ ledger' = ledger) ∨
      (ledger.knows txnId = false ∧ ledger' = ledger.posted txnId window payer payee amount type ∧
        (∃ a ∈ ledger.accounts, a.id = payer) ∧ ∃ a ∈ ledger.accounts, a.id = payee) := by
  simp only [postTxn] at ok
  split at ok
  · cases ok
  simp only [insertLedgerTxn, map_cons, map_nil] at ok
  split at ok
  · rename_i empty
    cases empty
  split at ok
  · rename_i known
    cases ok
    exact .inl ⟨known, rfl⟩
  rename_i fresh
  split at ok
  · cases ok
  rename_i accounts
  split at ok <;> cases ok
  have there : ∀ e ∈ [payer, payee], ∃ a ∈ ledger.accounts, a.id = e := by
    simpa [Entry.row] using accounts
  exact .inr ⟨Bool.eq_false_iff.mpr fresh, rfl, there payer (by simp), there payee (by simp)⟩

theorem toInt_neg_of_lt (inside : -2 ^ 63 < amount.toInt) :
    (-amount).toInt = -amount.toInt := by
  have := amount.toInt_lt
  rw [Int64.toInt_neg, bmod_eq_of_inInt64 ⟨by omega, by omega⟩]

theorem LedgerDB.Sound.posted (sound : ledger.Sound) (inside : -2 ^ 63 < amount.toInt)
    (paying : ∃ a ∈ ledger.accounts, a.id = payer)
    (paid : ∃ a ∈ ledger.accounts, a.id = payee) :
    (ledger.posted txnId window payer payee amount type).Sound where
  account_pk := sound.account_pk
  entry_account e member := by
    rcases mem_append.mp member with old | new
    · exact sound.entry_account e old
    · rcases mem_cons.mp new with rfl | new
      · exact paying
      · rw [mem_singleton.mp new]
        exact paid
  entry_txn e member := by
    simp only [knows, LedgerDB.posted, any_append, Bool.or_eq_true]
    rcases mem_append.mp member with old | new
    · exact .inl (sound.entry_txn e old)
    · right
      rcases mem_cons.mp new with rfl | new
      · simp
      · simp [mem_singleton.mp new]
  balanced other := by
    have old := sound.balanced other
    simp only [legsOf, LedgerDB.posted, filter_append, amountSum_append] at old ⊢
    rw [old]
    by_cases same : txnId = other
    · simp [same, amountSum, toInt_neg_of_lt inside]
    · simp [same, amountSum]
  total := by
    simp only [LedgerDB.posted, amountSum_append, sound.total]
    simp [amountSum, toInt_neg_of_lt inside]

theorem LedgerDB.ownerTotal_posted (sound : ledger.Sound) (inside : -2 ^ 63 < amount.toInt)
    {from_ to_ : OwnerType} (paying : ledger.ownerOf payer = some from_)
    (paid : ledger.ownerOf payee = some to_) (owner : OwnerType) :
    (ledger.posted txnId window payer payee amount type).ownerTotal owner =
      ledger.ownerTotal owner + moved from_ to_ amount.toInt owner := by
  have same : (ledger.posted txnId window payer payee amount type).share owner =
      ledger.share owner := rfl
  have after := @ownerTotal_eq (ledger.posted txnId window payer payee amount type)
    sound.account_pk owner
  rw [after, ownerTotal_eq sound.account_pk, same]
  simp only [LedgerDB.posted, map_append, sum_append, map_cons, map_nil,
    sum_cons, sum_nil, share, paying, paid, Option.some.injEq,
    toInt_neg_of_lt inside, moved]
  split <;> split <;> omega

/-! ### Steps -/

/-- No formula reaches the smallest `int64`, whose negation wraps. -/
theorem Formula.run_gt (rates : Rates) {r : Int64} (scale : 0 ≤ r) (small : r ≤ 12000)
    (f : Formula) (b : Int64) : -2 ^ 63 < (f.run rates r b).toInt := by
  by_cases empty : b ≤ 0
  · have nothing : f.run rates r b = 0 := by cases f <;> exact if_pos empty
    rw [nothing]
    decide
  · rw [Int64.le_iff_toInt_le, zero_toInt] at empty scale
    have small : r.toInt ≤ 12000 := Int64.le_iff_toInt_le.mp small
    obtain ⟨large, -⟩ := f.divisor_bounds
    have base := @tdiv_bounds _ _ (10 ^ 10)
      (inInt64_bmod (b.toInt * (f.rate rates).toInt)) (by omega : 0 < f.divisor) (by omega)
    rw [f.run_toInt (by omega) scale small]
    split
    · have bound := Int.natAbs_tdiv_le_natAbs
        (((b.toInt * (f.rate rates).toInt).bmod (2 ^ 64)).tdiv f.divisor * r.toInt) (10 ^ 4)
      have low : -(10 ^ 10 * 12000) ≤
          ((b.toInt * (f.rate rates).toInt).bmod (2 ^ 64)).tdiv f.divisor * r.toInt := by
        nlinarith [base.1, base.2]
      have high : ((b.toInt * (f.rate rates).toInt).bmod (2 ^ 64)).tdiv f.divisor * r.toInt ≤
          10 ^ 10 * 12000 := by
        nlinarith [base.1, base.2]
      omega
    · omega

theorem windowAccruals_gt {rates : Rates} {m : Readings} {a : Accrual}
    (posted : a ∈ windowAccruals rates m) : -2 ^ 63 < a.amount.toInt := by
  simp only [windowAccruals, mem_append, storageCharges, storageEarnings, egressCharges,
    egressEarnings, mem_filterMap, Option.ite_none_left_eq_some, Option.some.injEq] at posted
  rcases posted with ((⟨c, -, -, rfl⟩ | ⟨n, -, -, -, rfl⟩) | ⟨c, -, -, rfl⟩) | ⟨n, -, -, rfl⟩
  · exact Formula.run_gt rates (r := 0) (by decide) (by decide) .storageCharge c.sizeBytes
  · obtain ⟨scale, small⟩ := reliabilityBP_range (m.reliability n.nodeId).1
      (m.reliability n.nodeId).2 n.reputation
    exact Formula.run_gt rates scale small .storageEarning n.sizeBytes
  · exact Formula.run_gt rates (r := 0) (by decide) (by decide) .egressCharge c.bytes
  · obtain ⟨scale, small⟩ := reliabilityBP_range (m.reliability n.nodeId).1
      (m.reliability n.nodeId).2 (servedReputation m.held n.nodeId)
    exact Formula.run_gt rates scale small .egressEarning n.bytes

theorem LedgerDB.accountByKey_mem {key : AccountKey} {a : LedgerAccount}
    (found : ledger.accountByKey key = some a) : a ∈ ledger.accounts ∧ a.key = key := by
  refine ⟨mem_of_find?_eq_some found, ?_⟩
  have here := find?_some found
  simpa using here

variable (sound : ledger.Sound)
include sound

/-- A new account has no entries yet. -/
theorem LedgerDB.Sound.addAccount {account : LedgerAccount}
    (fresh : ∀ a ∈ ledger.accounts, a.id ≠ account.id) :
    ({ ledger with accounts := ledger.accounts ++ [account] } : LedgerDB).Sound ∧
      ∀ owner, ({ ledger with accounts := ledger.accounts ++ [account] } : LedgerDB).ownerTotal
        owner = ledger.ownerTotal owner := by
  have unique : UniqueOn LedgerAccount.id (ledger.accounts ++ [account]) :=
    sound.account_pk.append_singleton fresh
  refine ⟨⟨unique, fun e member => ?_, sound.entry_txn, sound.balanced, sound.total⟩,
    fun owner => ?_⟩
  · obtain ⟨a, old, same⟩ := sound.entry_account e member
    exact ⟨a, mem_append_left _ old, same⟩
  · have after := @ownerTotal_eq { ledger with accounts := ledger.accounts ++ [account] } unique
      owner
    rw [after, ownerTotal_eq sound.account_pk]
    congr 1
    refine map_congr_left fun e member => ?_
    obtain ⟨a, old, same⟩ := sound.entry_account e member
    have before := ownerOf_of_mem sound.account_pk old
    have now := @ownerOf_of_mem { ledger with accounts := ledger.accounts ++ [account] } unique a
      (mem_append_left _ old)
    rw [share, share, ← same, before, now]

/-- A posting of two legs between known accounts. -/
theorem LedgerDB.Sound.postPair {from_ to_ : OwnerType}
    (inside : -2 ^ 63 < amount.toInt) (paying : ledger.ownerOf payer = some from_)
    (paid : ledger.ownerOf payee = some to_)
    (ok : ledger.postTxn txnId window
      [{ accountId := payer, amount := -amount, type := type },
        { accountId := payee, amount := amount, type := type }] = .ok ledger') :
    ledger'.Sound ∧ ∀ owner, ledger'.ownerTotal owner = ledger.ownerTotal owner +
      if ledger.knows txnId then 0 else moved from_ to_ amount.toInt owner := by
  rcases LedgerDB.postTxn_pair ok with ⟨known, rfl⟩ | ⟨fresh, rfl, payerKnown, payeeKnown⟩
  · exact ⟨sound, fun owner => by simp [known]⟩
  · refine ⟨sound.posted inside payerKnown payeeKnown, fun owner => ?_⟩
    rw [fresh]
    exact ownerTotal_posted sound inside paying paid owner

/-- The owner type of the account a key is looked up by. -/
theorem LedgerDB.Sound.ownerOf_key {key : AccountKey} {a : LedgerAccount}
    (found : ledger.accountByKey key = some a) : ledger.ownerOf a.id = some key.ownerType := by
  obtain ⟨member, rfl⟩ := accountByKey_mem found
  exact ownerOf_of_mem sound.account_pk member

theorem LedgerDB.Sound.postAccrual {a : Accrual} {window : Time}
    (inside : -2 ^ 63 < a.amount.toInt)
    (applied : ledger.postAccrual uuids a window = some ledger') :
    ledger'.Sound ∧ ∀ owner, ledger'.ownerTotal owner = ledger.ownerTotal owner +
      if ledger.knows (a.txnId uuids window) then 0
      else moved a.parties.1 a.parties.2 a.amount.toInt owner := by
  simp only [LedgerDB.postAccrual] at applied
  split at applied
  · rename_i account platform ensured ensuredPlatform
    have ok := eq_ok_of_toOption applied
    have own := sound.ownerOf_key ensured
    have house := sound.ownerOf_key ensuredPlatform
    rw [Accrual.accountKey] at own
    rw [Accrual.entries] at ok
    rw [Accrual.parties]
    cases kind : a.kind with
    | storageEarning | egressEarning =>
      simp only [kind] at own ok ⊢
      exact sound.postPair inside house own ok
    | storageCharge | egressCharge | adjustment =>
      simp only [kind] at own ok ⊢
      exact sound.postPair inside own house ok
  · cases applied

/-- Every operation keeps the ledger sound and adds to each total what it moves. -/
theorem LedgerDB.Sound.apply (applied : ledger.apply uuids op = some ledger') :
    ledger'.Sound ∧
      ∀ owner, ledger'.ownerTotal owner = ledger.ownerTotal owner + op.net uuids ledger owner := by
  cases op with
  | ensure key id =>
    simp only [LedgerDB.apply, ensureAccount] at applied
    simp only [LedgerOp.net, add_zero]
    split at applied
    · cases applied
      exact ⟨sound, fun _ => rfl⟩
    · split at applied <;> cases applied
      rename_i fresh
      refine sound.addAccount fun a member same => fresh ?_
      exact any_eq_true.mpr ⟨a, member, decide_eq_true same⟩
  | accrual rates m i window =>
    obtain ⟨a, chosen, posted⟩ := Option.bind_eq_some_iff.mp applied
    simp only [LedgerOp.net, chosen]
    exact sound.postAccrual (windowAccruals_gt (mem_of_getElem? chosen)) posted
  | adjust debit credit amount reason txnId =>
    have ok := eq_ok_of_toOption applied
    simp only [postAdjustment, refuse_eq_ok] at ok
    obtain ⟨-, positive, ok⟩ := ok
    have inside : -2 ^ 63 < amount.toInt := by
      rw [Int64.le_iff_toInt_le, zero_toInt] at positive
      omega
    simp only [LedgerOp.net]
    rcases postTxn_pair ok with ⟨known, rfl⟩ | ⟨-, -, ⟨a, member, rfl⟩, ⟨b, member', rfl⟩⟩
    · refine ⟨sound, fun owner => ?_⟩
      split
      · simp [known]
      · simp
    · have paying := ownerOf_of_mem sound.account_pk member
      have paid := ownerOf_of_mem sound.account_pk member'
      rw [paying, paid]
      exact sound.postPair inside paying paid ok

end Steps

/-! ### Runs -/

/-- An operation leaves the totals in the range of an `int64` and the customers' total at
zero or below: what it moves is at most what they owe. -/
def StaysOwed (uuids : UuidPackage) (ledger : LedgerDB) (op : LedgerOp) (_ : LedgerDB) : Prop :=
  (∀ owner, InInt64 (ledger.ownerTotal owner + op.net uuids ledger owner)) ∧
    op.net uuids ledger .customer ≤ -ledger.ownerTotal .customer

/-- From the empty ledger, the balance part of `CheckLedger` accepts every state of a
sequence of postings exactly if no operation pays the customers, on the whole, more than
they owe, and no total leaves the range. -/
theorem checkBalance_run_iff (uuids : UuidPackage) (ops : List LedgerOp) :
    EveryState (LedgerDB.apply uuids) (fun ledger => ledger.checkBalance = .ok ()) .empty ops ↔
      EveryStep (LedgerDB.apply uuids) (StaysOwed uuids) .empty ops := by
  refine EveryState.iff_everyStep (I := fun ledger => ledger.Sound ∧ ledger.Owed) ?_ ?_ ?_ ?_
  · exact fun ledger inside => inside.1.checkBalance_iff.mpr inside.2
  · intro ledger op ledger' inside applied accepted
    obtain ⟨sound', totals⟩ := inside.1.apply applied
    obtain ⟨inRange, owed⟩ := sound'.checkBalance_iff.mp accepted
    refine ⟨fun owner => totals owner ▸ inRange owner, ?_⟩
    rw [totals] at owed
    omega
  · intro ledger op ledger' inside applied stays
    obtain ⟨sound', totals⟩ := inside.1.apply applied
    refine ⟨sound', fun owner => totals owner ▸ stays.1 owner, ?_⟩
    have most := stays.2
    rw [totals]
    omega
  · refine ⟨.empty, fun owner => ?_, ?_⟩
    · exact (by decide : InInt64 0)
    · exact (by decide : (0 : Int) ≤ 0)

namespace Sample

/-- A customer stores a gigabyte for an hour, then the operator credits them one credit,
as before a first upload. -/
def topUp : List LedgerOp :=
  [.ensure platformKey 1,
    .ensure { ownerType := .customer, ownerId := some 9, kind := .balance } 2,
    .accrual rates { fourTerabytes with stored := [{ ownerId := 9, sizeBytes := 1000000000 }] } 0
      3600,
    .adjust 1 2 1000000 ['t', 'o', 'p', '-', 'u', 'p'] 100]

end Sample

/-- The adjustment is balanced, and the checker refuses the ledger. -/
theorem topUp_refused :
    (exec (LedgerDB.apply (Sample.uuids fun _ => 5)) .empty topUp).map (fun ledger =>
      (ledger.ownerTotal .customer, ledger.unbalancedTxns, ledger.checkBalance)) =
        some (995891, [], .error .customerPositive) ∧
    ¬ EveryState (LedgerDB.apply (Sample.uuids fun _ => 5))
      (fun ledger => ledger.checkBalance = .ok ()) .empty topUp := by
  have ran : (exec (LedgerDB.apply (Sample.uuids fun _ => 5)) .empty topUp).map (fun ledger =>
      (ledger.ownerTotal .customer, ledger.unbalancedTxns, ledger.checkBalance)) =
        some (995891, [], .error .customerPositive) := by
    decide +kernel
  refine ⟨ran, fun accepted => ?_⟩
  obtain ⟨ledger, reached, facts⟩ := Option.map_eq_some_iff.mp ran
  simp only [Prod.mk.injEq] at facts
  have ok := accepted.last reached
  rw [facts.2.2] at ok
  cases ok

/-! ### SumZero and the trigger

`SumZero` adds in an `int64`, `SUM(amount)` over a `BIGINT` column in a `NUMERIC`.
-/

/-- The unbounded sum of the amounts of a posting. -/
def exactSum (entries : List Entry) : Int := (entries.map fun e => e.amount.toInt).sum

/-- The two checks decide alike about a posting, and `PostTxn` answers with
`errUnbalanced` exactly if it does not balance. -/
structure ChecksAgree (ledger : LedgerDB) (txnId : Uuid) (entries : List Entry) : Prop where
  exact_sum : sumZero entries = true ↔ exactSum entries = 0
  trigger : (∀ e ∈ entries, ∃ a ∈ ledger.accounts, a.id = e.accountId) → ∀ kind window,
    (sumZero entries = true ↔
      ∃ ledger', ledger.insertLedgerTxn { txnId := txnId, kind := kind, windowStart := window }
        (entries.map (Entry.row txnId)) = .ok ledger')
  postTxn : ∀ window, ledger.postTxn txnId window entries = .error .unbalanced ↔
    exactSum entries ≠ 0

section Checks

variable {ledger : LedgerDB} {txnId : Uuid} {entries : List Entry}

theorem sumZero_iff_dvd (some_entry : entries ≠ []) :
    sumZero entries = true ↔ (2 ^ 64 : Int) ∣ exactSum entries := by
  have sums := sum_eq_zero_iff_dvd (entries.map Entry.amount)
  rw [map_map] at sums
  simp only [sumZero, decide_eq_true_eq, some_entry, ne_eq, not_false_eq_true, true_and]
  exact sums

theorem amountSum_rows (entries : List Entry) :
    amountSum (entries.map (Entry.row txnId)) = exactSum entries := by
  rw [amountSum, exactSum, map_map]
  rfl

/-- The legs of a fresh transaction are the ones just inserted. -/
theorem LedgerDB.legsOf_inserted (legs : ∀ e ∈ ledger.entries, e.txnId ≠ txnId)
    (txns : List LedgerTxn) :
    LedgerDB.legsOf { ledger with txns := txns,
                                  entries := ledger.entries ++ entries.map (Entry.row txnId) }
      txnId = entries.map (Entry.row txnId) := by
  have old : ledger.entries.filter (fun e => decide (e.txnId = txnId)) = [] :=
    filter_eq_nil_iff.mpr fun e member => by simp [legs e member]
  have new : (entries.map (Entry.row txnId)).filter (fun e => decide (e.txnId = txnId)) =
      entries.map (Entry.row txnId) := by
    apply filter_eq_self.mpr
    intro e member
    obtain ⟨leg, _, rfl⟩ := mem_map.mp member
    exact decide_eq_true rfl
  rw [legsOf, filter_append, old, new, nil_append]

/-- The trigger lets the legs of a fresh transaction commit if they sum to zero. -/
theorem LedgerDB.insertLedgerTxn_ok_iff (some_entry : entries ≠ [])
    (header : ∀ t ∈ ledger.txns, t.txnId ≠ txnId) (legs : ∀ e ∈ ledger.entries, e.txnId ≠ txnId)
    (accounts : ∀ e ∈ entries, ∃ a ∈ ledger.accounts, a.id = e.accountId) (kind : EntryType)
    (window : Option Time) :
    (∃ ledger', ledger.insertLedgerTxn { txnId := txnId, kind := kind, windowStart := window }
      (entries.map (Entry.row txnId)) = .ok ledger') ↔ exactSum entries = 0 := by
  have rows : entries.map (Entry.row txnId) ≠ [] := by
    simpa using some_entry
  have unknown : (ledger.txns.any fun t => decide (t.txnId = txnId)) = false := by
    simpa using header
  have known : ((entries.map (Entry.row txnId)).any fun e =>
      !ledger.accounts.any fun a => decide (a.id = e.accountId)) = false := by
    simp only [any_map, any_eq_false]
    intro e member
    obtain ⟨a, isAccount, same⟩ := accounts e member
    simp only [Function.comp_apply, Entry.row, Bool.not_eq_true', Bool.not_eq_false, any_eq_true]
    exact ⟨a, isAccount, decide_eq_true same⟩
  simp only [insertLedgerTxn, if_neg rows, unknown, known, Bool.false_eq_true, if_false]
  have balance : ((entries.map (Entry.row txnId)).any fun e => decide (amountSum (LedgerDB.legsOf
      { ledger with
        txns := ledger.txns ++ [{ txnId := txnId, kind := kind, windowStart := window }]
        entries := ledger.entries ++ entries.map (Entry.row txnId) } e.txnId) ≠ 0)) =
      decide (exactSum entries ≠ 0) := by
    obtain ⟨first, rest, rfl⟩ := exists_cons_of_ne_nil some_entry
    rw [Bool.eq_iff_iff, any_eq_true, decide_eq_true_eq]
    constructor
    · rintro ⟨e, member, unbalanced⟩
      obtain ⟨leg, _, rfl⟩ := mem_map.mp member
      have sum := of_decide_eq_true unbalanced
      rwa [show (Entry.row txnId leg).txnId = txnId from rfl, legsOf_inserted legs,
        amountSum_rows] at sum
    · intro unbalanced
      refine ⟨Entry.row txnId first, by simp, decide_eq_true ?_⟩
      rwa [show (Entry.row txnId first).txnId = txnId from rfl, legsOf_inserted legs,
        amountSum_rows]
  rw [balance]
  by_cases zero : exactSum entries = 0 <;> simp [zero]

/-- `InsertLedgerTxn` has no such error of its own. -/
theorem LedgerDB.postTxn_unbalanced_iff (window : Option Time) :
    ledger.postTxn txnId window entries = .error .unbalanced ↔ sumZero entries = false := by
  rw [postTxn.eq_def]
  constructor
  · intro refused
    by_contra balanced
    rw [if_neg balanced] at refused
    split at refused
    · cases refused
    · simp only [insertLedgerTxn] at refused
      split_ifs at refused <;> cases refused
  · intro unbalanced
    rw [if_pos unbalanced]

end Checks

/-- For every fresh id and every posting with a leg the two checks agree exactly if the sum
of the amounts is not a multiple of `2 ^ 64` other than zero. -/
theorem checksAgree_iff {ledger : LedgerDB} {txnId : Uuid} {entries : List Entry}
    (some_entry : entries ≠ []) (header : ∀ t ∈ ledger.txns, t.txnId ≠ txnId)
    (legs : ∀ e ∈ ledger.entries, e.txnId ≠ txnId) :
    ChecksAgree ledger txnId entries ↔
      ((2 ^ 64 : Int) ∣ exactSum entries → exactSum entries = 0) := by
  constructor
  · intro agree multiple
    exact agree.exact_sum.mp ((sumZero_iff_dvd some_entry).mpr multiple)
  · intro small
    have same : sumZero entries = true ↔ exactSum entries = 0 := by
      rw [sumZero_iff_dvd some_entry]
      exact ⟨small, fun zero => by rw [zero]; exact dvd_zero _⟩
    refine ⟨same, fun accounts kind window => ?_, fun window => ?_⟩
    · rw [LedgerDB.insertLedgerTxn_ok_iff some_entry header legs accounts kind window]
      exact same
    · rw [LedgerDB.postTxn_unbalanced_iff, ← Bool.not_eq_true]
      exact not_congr same

namespace Sample

/-- Two accounts, nothing posted. -/
def twoAccounts : LedgerDB where
  accounts :=
    [{ id := 1, key := platformKey },
      { id := 2, key := { ownerType := .customer, ownerId := some 9, kind := .balance } }]
  txns := []
  entries := []

def legs (amounts : List Int64) : List Entry :=
  amounts.map fun amount => { accountId := 1, amount := amount, type := .adjustment }

end Sample

/-- The checks agree on legs that balance far outside of the range of an `int64`. -/
theorem large_legs_agree :
    ChecksAgree twoAccounts 7
      (legs [Int64.maxValue, Int64.maxValue, Int64.minValue, Int64.minValue, 2]) :=
  (checksAgree_iff (by decide) (by decide) (by decide)).mpr (by decide)

/-- Four legs of `2 ^ 62`: `SumZero` accepts them, the trigger does not, and `PostTxn`
fails with another error than `errUnbalanced`. -/
theorem wrapped_legs_disagree :
    exactSum (legs [2 ^ 62, 2 ^ 62, 2 ^ 62, 2 ^ 62]) = 2 ^ 64 ∧
    sumZero (legs [2 ^ 62, 2 ^ 62, 2 ^ 62, 2 ^ 62]) = true ∧
    twoAccounts.postTxn 7 none (legs [2 ^ 62, 2 ^ 62, 2 ^ 62, 2 ^ 62]) =
      .error (.query "store.insertLedgerTxn") ∧
    ¬ ChecksAgree twoAccounts 7 (legs [2 ^ 62, 2 ^ 62, 2 ^ 62, 2 ^ 62]) := by
  have sum : exactSum (legs [2 ^ 62, 2 ^ 62, 2 ^ 62, 2 ^ 62]) = 2 ^ 64 := by decide +kernel
  have accepted : sumZero (legs [2 ^ 62, 2 ^ 62, 2 ^ 62, 2 ^ 62]) = true := by
    decide +kernel
  refine ⟨sum, accepted, by decide +kernel, fun agree => ?_⟩
  have zero := agree.exact_sum.mp accepted
  rw [sum] at zero
  norm_num at zero

end StoragePlatform
