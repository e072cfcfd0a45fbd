/-
Module: StoragePlatform.Ledger.Accrue
Purpose: AccrueWindow and CatchUp (internal/ledger/accrue.go), as the charges of a
  window and as the steps of concurrent Accruer instances.
Trusted boundary: human-reviewed spec; the meters and the SHA-1 UUID are parameters
Main exports: Accrual, Readings, windowAccruals, txnName, AccrualCall, LedgerSystem.step
-/
import StoragePlatform.Ledger.Rates
import StoragePlatform.Ledger.Post
import StoragePlatform.Lib.Runs
import StoragePlatform.Lib.Bytes

namespace StoragePlatform

open Lib

/-! ### What a window is charged -/

/-- A row of `ListCustomerStoredBytes`. -/
structure CustomerStored where
  ownerId : Uuid
  sizeBytes : Int64
deriving DecidableEq, Repr

/-- A row of `ListNodeHeldBytes`. -/
structure NodeHeld where
  nodeId : Uuid
  ownerId : Uuid
  sizeBytes : Int64
  reputation : ℚ
deriving DecidableEq, Repr

/-- A row of `ListCustomerEgressBytes`. -/
structure CustomerEgress where
  ownerId : Uuid
  bytes : Int64
deriving DecidableEq, Repr

/-- A row of `ListNodeWindowServed`. -/
structure NodeWindowServed where
  nodeId : Uuid
  ownerId : Uuid
  bytes : Int64
deriving DecidableEq, Repr

/-- `Reliability`: the uptime and the audit pass rate of a node. -/
abbrev ReliabilityMeter := Uuid → ℚ × ℚ

/-- One posting of `AccrueWindow`: `amount` goes from the customer to the platform or,
for an earning, from the platform to the provider. -/
structure Accrual where
  kind : EntryType
  subject : Uuid
  ownerId : Uuid
  amount : Int64
deriving DecidableEq, Repr

/-- The four loops of `AccrueWindow`, in order. -/
inductive AccrualStage where
  | stored | held | egress | served
deriving DecidableEq, Repr

def storageCharges (rates : Rates) (cust : List CustomerStored) : List Accrual :=
  cust.filterMap fun c =>
    let charge := storageCharge c.sizeBytes rates
    if charge = 0 then none
    else some { kind := .storageCharge, subject := c.ownerId, ownerId := c.ownerId,
                amount := charge }

def storageEarnings (rates : Rates) (held : List NodeHeld) (reliability : ReliabilityMeter) :
    List Accrual :=
  held.filterMap fun n =>
    if n.sizeBytes ≤ 0 then none
    else
      let bp := reliabilityBP (reliability n.nodeId).1 (reliability n.nodeId).2 n.reputation
      let earn := storageEarning n.sizeBytes rates bp
      if earn = 0 then none
      else some { kind := .storageEarning, subject := n.nodeId, ownerId := n.ownerId,
                  amount := earn }

def egressCharges (rates : Rates) (eg : List CustomerEgress) : List Accrual :=
  eg.filterMap fun c =>
    let charge := egressCharge c.bytes rates
    if charge = 0 then none
    else some { kind := .egressCharge, subject := c.ownerId, ownerId := c.ownerId,
                amount := charge }

/-- The reputation of a serving node is looked up among the held rows, 1 if it has none. -/
def servedReputation (held : List NodeHeld) (nodeId : Uuid) : ℚ :=
  match held.find? fun h => h.nodeId = nodeId with
  | none => 1
  | some h => h.reputation

def egressEarnings (rates : Rates) (held : List NodeHeld) (served : List NodeWindowServed)
    (reliability : ReliabilityMeter) : List Accrual :=
  served.filterMap fun n =>
    let bp := reliabilityBP (reliability n.nodeId).1 (reliability n.nodeId).2
      (servedReputation held n.nodeId)
    let earn := egressEarning n.bytes rates bp
    if earn = 0 then none
    else some { kind := .egressEarning, subject := n.nodeId, ownerId := n.ownerId,
                amount := earn }

/-- Everything the five meters say to one `AccrueWindow`. -/
structure Readings where
  stored : List CustomerStored
  held : List NodeHeld
  egress : List CustomerEgress
  served : List NodeWindowServed
  reliability : ReliabilityMeter

/-- The postings of `AccrueWindow`, when nothing fails. -/
def windowAccruals (rates : Rates) (m : Readings) : List Accrual :=
  storageCharges rates m.stored ++ storageEarnings rates m.held m.reliability ++
    egressCharges rates m.egress ++ egressEarnings rates m.held m.served m.reliability

/-! ### Posting one of them -/

def platformKey : AccountKey := { ownerType := .platform, ownerId := none, kind := .revenue }

/-- The customer's or provider's account. -/
def Accrual.accountKey (a : Accrual) : AccountKey :=
  match a.kind with
  | .storageEarning | .egressEarning =>
    { ownerType := .provider, ownerId := some a.ownerId, kind := .earnings }
  | _ => { ownerType := .customer, ownerId := some a.ownerId, kind := .balance }

/-- The two legs: first who pays, then who is paid. -/
def Accrual.entries (a : Accrual) (account platform : Uuid) : List Entry :=
  match a.kind with
  | .storageEarning | .egressEarning =>
    [{ accountId := platform, amount := -a.amount, type := a.kind },
      { accountId := account, amount := a.amount, type := a.kind }]
  | _ =>
    [{ accountId := account, amount := -a.amount, type := a.kind },
      { accountId := platform, amount := a.amount, type := a.kind }]

def EntryType.text : EntryType → Text
  | .storageCharge => "storage_charge".toList
  | .egressCharge => "egress_charge".toList
  | .storageEarning => "storage_earning".toList
  | .egressEarning => "egress_earning".toList
  | .adjustment => "adjustment".toList

/-- What is used of the uuid package: `NewSHA1` in the ledger's name space, and `String`,
whose texts have one length. -/
structure UuidPackage where
  newSHA1 : Text → Uuid
  string : Uuid → Text
  string_inj : ∀ {id id' : Uuid}, string id = string id' → id = id'
  string_length : ∀ id id' : Uuid, (string id).length = (string id').length

/-- The text `DeterministicTxnID` hashes: `fmt.Sprintf("%s:%s:%d", kind, subject, window)`. -/
def txnName (uuids : UuidPackage) (kind : EntryType) (subject : Uuid) (window : Time) : Text :=
  kind.text ++ ':' :: (uuids.string subject ++ ':' :: window.repr.toList)

/-- `time.Truncate(time.Hour)`. -/
def truncHour (t : Time) : Time := t / 3600 * 3600

/-! ### Accruer instances -/

/-- Where an `AccrueWindow` stands.  Inside the transaction of `InsertLedgerTxn` the
header and the legs `written` so far are not visible to others. -/
inductive WindowState where
  | start
  | reading (stage : AccrualStage) (platform : Uuid) (held : List NodeHeld)
  | posting (stage : AccrualStage) (platform : Uuid) (held : List NodeHeld)
      (todo : List Accrual)
  | ensured (stage : AccrualStage) (platform : Uuid) (held : List NodeHeld) (a : Accrual)
      (account : Uuid) (todo : List Accrual)
  | inTxn (stage : AccrualStage) (platform : Uuid) (held : List NodeHeld) (header : LedgerTxn)
      (written left : List LedgerEntry) (todo : List Accrual)

/-- A `CatchUp` call.  `n` counts the hours it has accrued. -/
inductive AccrualCall where
  | started (rates : Rates) (target : Time)
  | accruing (rates : Rates) (target window : Time) (n : Nat) (now : WindowState)
  | storing (rates : Rates) (target window : Time) (n : Nat)
  | done

/-- What a call does next.  `fail` is an error or a crash; it rolls an open transaction
back. -/
inductive AccrualMove where
  | fail
  | readWatermark
  | ensure (id : Uuid)
  | readStored (rows : List CustomerStored)
  | readHeld (rows : List NodeHeld) (reliability : ReliabilityMeter)
  | readEgress (rows : List CustomerEgress)
  | readServed (rows : List NodeWindowServed) (reliability : ReliabilityMeter)
  | insertHeader
  | insertLeg
  | commit
  | next
  | store

inductive AccrualEvent where
  | catchUp (rates : Rates) (now : Time)
  | move (call : Nat) (m : AccrualMove)

/-- The ledger, the watermark the instances share and their calls.  The other two fields
are history: the hours for which an `AccrueWindow` has returned nil, and the texts
`DeterministicTxnID` has hashed. -/
structure LedgerSystem where
  ledger : LedgerDB
  watermark : Option Time
  calls : List AccrualCall
  completed : List Time
  hashed : List Text

def LedgerSystem.init : LedgerSystem := ⟨.empty, none, [], [], []⟩

def maxCatchUpHours : Nat := 48

def AccrualStage.after : AccrualStage → Option AccrualStage
  | .stored => some .held
  | .held => some .egress
  | .egress => some .served
  | .served => none

/-- The id of the header a call has inserted and not committed. -/
def AccrualCall.locks : AccrualCall → Option Uuid
  | .accruing _ _ _ _ (.inTxn _ _ _ header _ _ _) => some header.txnId
  | _ => none

def Accrual.txnId (uuids : UuidPackage) (a : Accrual) (window : Time) : Uuid :=
  uuids.newSHA1 (txnName uuids a.kind a.subject window)

/-- The first window a call accrues: the target when there is no watermark, the hour
after it otherwise. -/
def catchUpStart (target : Time) : Option Time → Time
  | none => target
  | some last => truncHour last + 3600

/-- What a step of `AccrueWindow` leaves; `now` is `none` when the window is done. -/
structure WindowOutcome where
  now : Option WindowState
  ledger : LedgerDB
  hashed : List Text

/-- One step inside `AccrueWindow(window)`; `locked` are the ids other open transactions
have inserted, on which an INSERT of the same id waits. -/
def WindowState.advance (uuids : UuidPackage) (rates : Rates) (window : Time) (ledger : LedgerDB)
    (locked : Uuid → Bool) (now : WindowState) (m : AccrualMove) : Option WindowOutcome :=
  match now, m with
  | .start, .ensure id =>
    match ledger.ensureAccount platformKey id with
    | .error _ => none
    | .ok (platform, ledger') => some ⟨some (.reading .stored platform.id []), ledger', []⟩
  | .reading .stored platform held, .readStored rows =>
    some ⟨some (.posting .stored platform held (storageCharges rates rows)), ledger, []⟩
  | .reading .held platform _, .readHeld rows reliability =>
    some ⟨some (.posting .held platform rows (storageEarnings rates rows reliability)), ledger,
      []⟩
  | .reading .egress platform held, .readEgress rows =>
    some ⟨some (.posting .egress platform held (egressCharges rates rows)), ledger, []⟩
  | .reading .served platform held, .readServed rows reliability =>
    some ⟨some (.posting .served platform held (egressEarnings rates held rows reliability)),
      ledger, []⟩
  | .posting stage platform held (a :: todo), .ensure id =>
    match ledger.ensureAccount a.accountKey id with
    | .error _ => none
    | .ok (account, ledger') =>
      some ⟨some (.ensured stage platform held a account.id todo), ledger', []⟩
  | .posting stage platform held [], .next =>
    some ⟨stage.after.map fun s => .reading s platform held, ledger, []⟩
  | .ensured stage platform held a account todo, .insertHeader =>
    let name := txnName uuids a.kind a.subject window
    let txnId := uuids.newSHA1 name
    -- SumZero comes first; a locked id waits, a known one makes the rest a no-op
    if sumZero (a.entries account platform) = false ∨ locked txnId then none
    else if ledger.txns.any fun t => t.txnId = txnId then
      some ⟨some (.posting stage platform held todo), ledger, [name]⟩
    else
      some ⟨some (.inTxn stage platform held
        { txnId := txnId, kind := a.kind, windowStart := some window } []
        ((a.entries account platform).map (Entry.row txnId)) todo), ledger, [name]⟩
  | .inTxn stage platform held header written (row :: left) todo, .insertLeg =>
    if ledger.accounts.any fun acc => acc.id = row.accountId then
      some ⟨some (.inTxn stage platform held header (written ++ [row]) left todo), ledger, []⟩
    else none
  | .inTxn stage platform held header written [] todo, .commit =>
    -- the deferred trigger
    if amountSum (ledger.legsOf header.txnId ++ written) ≠ 0 then none
    else
      some ⟨some (.posting stage platform held todo),
        { ledger with txns := ledger.txns ++ [header], entries := ledger.entries ++ written },
        []⟩
  | _, _ => none

/-- One step of call `i`. -/
def LedgerSystem.advance (uuids : UuidPackage) (s : LedgerSystem) (i : Nat)
    (call : AccrualCall) (m : AccrualMove) : Option LedgerSystem :=
  match call, m with
  | .done, _ => none
  | _, .fail => some { s with calls := s.calls.set i .done }
  | .started rates target, .readWatermark =>
    let start := catchUpStart target s.watermark
    if target < start then some { s with calls := s.calls.set i .done }
    else some { s with calls := s.calls.set i (.accruing rates target start 0 .start) }
  | .accruing rates target window n now, m =>
    let locked := fun id => (s.calls.eraseIdx i).any fun other => other.locks = some id
    match now.advance uuids rates window s.ledger locked m with
    | none => none
    | some ⟨some now', ledger', hashed⟩ =>
      some { s with
             ledger := ledger'
             calls := s.calls.set i (.accruing rates target window n now')
             hashed := s.hashed ++ hashed }
    | some ⟨none, ledger', hashed⟩ =>
      some { s with
             ledger := ledger'
             calls := s.calls.set i (.storing rates target window n)
             completed := s.completed ++ [window]
             hashed := s.hashed ++ hashed }
  | .storing rates target window n, .store =>
    let next : AccrualCall :=
      if maxCatchUpHours ≤ n + 1 ∨ target < window + 3600 then .done
      else .accruing rates target (window + 3600) (n + 1) .start
    some { s with calls := s.calls.set i next, watermark := some (truncHour window) }
  | _, _ => none

def LedgerSystem.step (uuids : UuidPackage) (s : LedgerSystem) :
    AccrualEvent → Option LedgerSystem
  | .catchUp rates now =>
    some { s with calls := s.calls ++ [.started rates (truncHour now - 3600)] }
  | .move i m => s.calls[i]?.bind fun call => s.advance uuids i call m

end StoragePlatform
