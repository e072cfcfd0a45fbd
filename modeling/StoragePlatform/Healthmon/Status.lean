/-
Module: StoragePlatform.Healthmon.Status
Purpose: Heartbeats and monitor scans on one node's row and the transitions they
  publish: TouchNodeStatus and TransitionStaleNodes (internal/store/nodes.go),
  handleHeartbeat, NextStatus and Monitor.scan (internal/healthmon).
Trusted boundary: human-reviewed spec
Main exports: HealthRow, touchRow, scanMatches, scanRow, StatusSystem.step
-/
import StoragePlatform.Lib.Float64
import StoragePlatform.Lib.Runs
import StoragePlatform.Tickets

namespace StoragePlatform

open Lib

/-!
Both statements name the row twice.  The CTE reads it in the snapshot the
statement began with; the UPDATE waits for the row's lock and then works on the
row as it is committed by then.  `now()` is the start of the statement.  So a
statement is two steps here: it starts, with its snapshot and its clock, and it
writes.  What it publishes is the status of the snapshot and the status written.
-/

/-- The columns of a node's row that liveness uses. -/
structure HealthRow where
  status : NodeStatus
  lastSeenAt : Option Instant
  usedBytes : Int
  capacityBytes : Int
deriving DecidableEq, Repr

/-- `SuspectAfter` and `OfflineAfter` of the monitor, in nanoseconds. -/
structure HealthParams where
  suspectAfter : Int
  offlineAfter : Int
deriving DecidableEq, Repr

/-- `int(d.Seconds())`.  `Seconds` adds the fraction to the seconds as float64. -/
def wholeSeconds (duration : Int) : Int :=
  let sec := duration.tdiv 1000000000
  let nsec := duration.tmod 1000000000
  truncate (float64 (sec + float64 (nsec / 1000000000)))

/-- Whole seconds are converted as they are. -/
theorem wholeSeconds_mul (seconds : Int) : wholeSeconds (seconds * 1000000000) = seconds := by
  have none : float64 (0 : Int) = (0 : Int) := float64_intCast 0
  rw [Int.cast_zero] at none
  rw [wholeSeconds, Int.mul_tdiv_cancel _ (by decide), Int.mul_tmod_left, Int.cast_zero,
    zero_div, none, add_zero, float64_intCast, truncate_intCast]

/-- `last_seen_at < now() - (secs * interval '1 second')`. -/
def silentFor (seconds : Int) (lastSeen now : Instant) : Bool :=
  lastSeen < now - seconds * 1000000000

/-! ### The statements -/

/-- The status CASE of `TouchNodeStatus`. -/
def touchedStatus : NodeStatus → NodeStatus
  | .pending => .online
  | .suspect => .online
  | .offline => .online
  | status => status

/-- The row `TouchNodeStatus` writes. -/
def touchRow (usedBytes capacityBytes : Int) (now : Instant) (row : HealthRow) : HealthRow where
  status := touchedStatus row.status
  lastSeenAt := some now
  usedBytes := usedBytes
  capacityBytes := if 0 < capacityBytes then capacityBytes else row.capacityBytes

/-- The `prev` rows and the WHERE of `TransitionStaleNodes`, both on the
snapshot. -/
def scanMatches (params : HealthParams) (now : Instant) (snapshot : HealthRow) : Bool :=
  match snapshot.lastSeenAt with
  | none => false
  | some lastSeen =>
    decide (snapshot.status = .online ∨ snapshot.status = .suspect) &&
      (silentFor (wholeSeconds params.offlineAfter) lastSeen now ||
        (decide (snapshot.status = .online) &&
          silentFor (wholeSeconds params.suspectAfter) lastSeen now))

/-- The status CASE of `TransitionStaleNodes`. -/
def scannedStatus (params : HealthParams) (now : Instant) (snapshot row : HealthRow) :
    NodeStatus :=
  match snapshot.lastSeenAt with
  | none => row.status
  | some lastSeen =>
    if silentFor (wholeSeconds params.offlineAfter) lastSeen now then .offline
    else if snapshot.status = .online ∧
        silentFor (wholeSeconds params.suspectAfter) lastSeen now then .suspect
    else row.status

/-- The row `TransitionStaleNodes` writes. -/
def scanRow (params : HealthParams) (now : Instant) (snapshot row : HealthRow) : HealthRow :=
  { row with status := scannedStatus params now snapshot row }

/-- The two numbers of seconds are sent as `int4`. -/
def HealthParams.sendable (params : HealthParams) : Bool :=
  (-2 ^ 31 ≤ wholeSeconds params.suspectAfter ∧ wholeSeconds params.suspectAfter < 2 ^ 31) ∧
    (-2 ^ 31 ≤ wholeSeconds params.offlineAfter ∧ wholeSeconds params.offlineAfter < 2 ^ 31)

/-- `TransitionStaleNodes` on a row that nobody else writes. -/
def transitionStaleNode (params : HealthParams) (now : Instant) (row : HealthRow) :
    Except StoreErr HealthRow :=
  if params.sendable = false then .error (.query "store.transitionStaleNodes")
  else if scanMatches params now row then .ok (scanRow params now row row)
  else .ok row

/-! ### The machine of the documentation -/

/-- `now.Sub(lastSeen)`: a difference that is no `Duration` becomes the nearest one. -/
def timeSub (now lastSeen : Instant) : Int :=
  max (-2 ^ 63) (min (now - lastSeen) (2 ^ 63 - 1))

/-- `NextStatus`. -/
def nextStatus (current : NodeStatus) (lastSeen now : Instant) (suspectAfter offlineAfter : Int) :
    NodeStatus :=
  if lastSeen = .zero then current
  else
    let silent := timeSub now lastSeen
    match current with
    | .online =>
      if offlineAfter ≤ silent then .offline
      else if suspectAfter ≤ silent then .suspect
      else current
    | .suspect => if offlineAfter ≤ silent then .offline else current
    | _ => current

inductive StatusStmt where
  | touch (usedBytes capacityBytes : Int)
  | scan
deriving DecidableEq, Repr

/-- Whether the statement updates the row. -/
def StatusStmt.applies (params : HealthParams) (now : Instant) (snapshot : HealthRow) :
    StatusStmt → Bool
  | .touch _ _ => true
  | .scan => scanMatches params now snapshot

/-- The row after the UPDATE. -/
def StatusStmt.write (params : HealthParams) (now : Instant) (snapshot row : HealthRow) :
    StatusStmt → HealthRow
  | .touch usedBytes capacityBytes => touchRow usedBytes capacityBytes now row
  | .scan => scanRow params now snapshot row

/-! ### The system -/

/-- A published transition. -/
structure StatusChange where
  old : NodeStatus
  new : NodeStatus
deriving DecidableEq, Repr

inductive StmtPhase where
  | running (stmt : StatusStmt) (snapshot : HealthRow) (now : Instant)
  | done
deriving DecidableEq, Repr

structure StatusSystem where
  row : HealthRow
  clock : Instant
  stmts : List StmtPhase
  published : List StatusChange
deriving DecidableEq, Repr

def StatusSystem.init (row : HealthRow) (clock : Instant) : StatusSystem where
  row := row
  clock := clock
  stmts := []
  published := []

inductive StatusEvent where
  | tick (now : Instant)
  | start (stmt : StatusStmt) (now : Instant)
  | write (i : Nat)
deriving DecidableEq, Repr

/-- Both callers publish when the two returned statuses differ. -/
def publishChange (change : StatusChange) : List StatusChange :=
  if change.old ≠ change.new then [change] else []

def StatusSystem.step (params : HealthParams) (s : StatusSystem) :
    StatusEvent → Option StatusSystem
  | .tick now => if s.clock ≤ now then some { s with clock := now } else none
  | .start stmt now =>
    -- the statement's transaction begins before its snapshot is taken
    if now ≤ s.clock then some { s with stmts := s.stmts ++ [.running stmt s.row now] }
    else none
  | .write i =>
    match s.stmts[i]? with
    | some (.running stmt snapshot now) =>
      if stmt.applies params now snapshot then
        let row := stmt.write params now snapshot s.row
        some { s with
          row := row
          stmts := s.stmts.set i .done
          published := s.published ++ publishChange ⟨snapshot.status, row.status⟩ }
      else some { s with stmts := s.stmts.set i .done }
    | _ => none

end StoragePlatform
