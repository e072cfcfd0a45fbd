/-
Module: StoragePlatform.Ledger.Metered
Purpose: The tables the accrual meters read, as a transition system: the control
  plane, receipts, node statistics, reputations and the clock.
Trusted boundary: human-reviewed spec; an AccrueWindow reads its meters in one state
Main exports: Metered, MeterEvent, meterStep, Metered.readings, Metered.accruals
-/
import StoragePlatform.Store.Meters
import StoragePlatform.System

namespace StoragePlatform

open Lib

/-!
`AccrueWindow` takes the hour it accrues as an argument and the hour it runs in from
nowhere: the egress meters are given the hour, the others answer for the moment they
are asked.  The state here holds what they answer from.  Everything that writes it is
an event, so that a late run and a run on time are two states of one history.
-/

/-- The database with the reputation column of its nodes and the clock of `now()`. -/
structure Metered where
  usage : UsageDB
  calls : List Call
  reputation : Uuid → ℚ
  now : Time

def Metered.init : Metered where
  usage := { db := DB.empty, receipts := [], stats := [], published := [] }
  calls := []
  reputation _ := 1 / 2
  now := 0

inductive MeterEvent where
  | tick (seconds : Nat)
  /-- Uploads, deletions, repairs, losses: a step of the control plane. -/
  | system (e : Event)
  /-- `ApplyReputationEvent`, with the value it writes. -/
  | reputation (nodeId : Uuid) (value : ℚ)
  /-- The INSERT of `ConsumeDownloadReceipt`. -/
  | receipt (nonce : Bytes) (fileId fragmentId nodeId : Uuid) (bytes : Int)
  /-- `BumpNodeBytes`. -/
  | bytes (nodeId : Uuid) (ingested served : Int)
  /-- `RollupWindow` at one node. -/
  | rollup (nodeId : Uuid) (window : Time) (uptime : ℚ)
  /-- `BumpNodeAudit`. -/
  | audit (nodeId : Uuid) (passed : Bool)

def Metered.system (s : Metered) : System := { db := s.usage.db, calls := s.calls }

/-- The node row exists, as the foreign key of node_stats asks. -/
def Metered.hasNode (s : Metered) (nodeId : Uuid) : Bool :=
  s.usage.db.nodes.any fun n => n.id = nodeId

def meterStep (sigOk : SigCheck) (s : Metered) : MeterEvent → Option Metered
  | .tick seconds => some { s with now := s.now + seconds }
  | .system e =>
    match step sigOk s.system e with
    | none => none
    | some t => some { s with usage := { s.usage with db := t.db }, calls := t.calls }
  | .reputation nodeId value =>
    if s.hasNode nodeId then
      some { s with reputation := fun n => if n = nodeId then value else s.reputation n }
    else none
  | .receipt nonce fileId fragmentId nodeId bytes =>
    match s.usage.consumeDownloadReceipt
        { nonce := nonce, fileId := fileId, fragmentId := fragmentId, nodeId := nodeId,
          bytes := bytes, createdAt := s.now } with
    | none => none
    | some usage => some { s with usage := usage }
  | .bytes nodeId ingested served =>
    if s.hasNode nodeId then
      some { s with usage := s.usage.bumpNodeBytes nodeId ingested served s.now }
    else none
  | .rollup nodeId window uptime =>
    if s.hasNode nodeId then
      some { s with usage := s.usage.upsertNodeStats nodeId (truncHour window) uptime }
    else none
  | .audit nodeId passed =>
    if s.hasNode nodeId then some { s with usage := s.usage.bumpNodeAudit nodeId passed s.now }
    else none

/-- What the five meters say about an hour, asked in this state, unless a scan fails. -/
def Metered.readings (real : UsageDB.PgReal) (s : Metered) (window : Time) : Option Readings :=
  s.usage.db.listCustomerStoredBytes.bind fun stored =>
    (s.usage.db.listNodeHeldBytes s.reputation).bind fun held =>
      (s.usage.listCustomerEgressBytes window).map fun egress =>
        { stored := stored
          held := held
          egress := egress
          served := s.usage.listNodeWindowServed window
          reliability := fun nodeId => s.usage.nodeReliability real nodeId s.now }

/-- The postings of an `AccrueWindow` for an hour that runs in this state and reads all its
meters. -/
def Metered.accruals (real : UsageDB.PgReal) (s : Metered) (rates : Rates) (window : Time) :
    Option (List Accrual) :=
  (s.readings real window).map (windowAccruals rates)

end StoragePlatform
