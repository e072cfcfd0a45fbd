/-
Module: StoragePlatform.Store.Usage
Purpose: Egress receipts and the hourly node statistics: download_receipts,
  node_stats and their statements (internal/store/lifecycle.go,
  internal/store/stats.go).
Trusted boundary: human-reviewed spec; a REAL is its exact value, a BIGINT counter
  does not overflow
Main exports: DownloadReceipt, NodeStat, UsageEvent, UsageDB, UsageDB.bumpNodeAudit
-/
import StoragePlatform.Ledger.Accrue
import StoragePlatform.Metadata.Download
import StoragePlatform.Receipts

namespace StoragePlatform

open Lib

/-- A row of `download_receipts`. -/
structure DownloadReceipt where
  nonce : Bytes
  fileId : Uuid
  fragmentId : Uuid
  nodeId : Uuid
  bytes : Int
  createdAt : Time
deriving DecidableEq, Repr

/-- A row of `node_stats`, without the gauges nothing here reads. -/
structure NodeStat where
  nodeId : Uuid
  windowStart : Time
  uptimeRatio : ℚ
  auditsPassed : Int
  auditsFailed : Int
  bytesServed : Int
  bytesIngested : Int
deriving DecidableEq, Repr

/-- A published egress event. -/
structure UsageEvent where
  subjectId : Uuid
  window : Time
  nonce : Bytes
  fileId : Uuid
  bytes : Int
deriving DecidableEq, Repr

/-- The placement map with the usage tables and the egress events published. -/
structure UsageDB where
  db : DB
  receipts : List DownloadReceipt
  stats : List NodeStat
  published : List UsageEvent
deriving DecidableEq, Repr

/-- The keys of the usage tables and of the issued tickets. -/
structure UsageDB.Schema (s : UsageDB) : Prop where
  ticket_pk : UniqueOn DownloadTicket.nonce s.db.downloadTickets
  receipt_pk : UniqueOn DownloadReceipt.nonce s.receipts
  stat_pk : UniqueOn (fun row : NodeStat => (row.nodeId, row.windowStart)) s.stats

/-! ### Tickets and receipts -/

/-- The joins of `DownloadTicketByNonce`. -/
def DB.ticketRows (db : DB) : List (((DownloadTicket × File) × Bucket) × Node) :=
  innerJoin (fun row n => n.id = row.1.1.nodeId)
    (innerJoin (fun row b => b.id = row.2.bucketId)
      (innerJoin (fun t f => f.id = t.fileId) db.downloadTickets db.files) db.buckets) db.nodes

/-- `DownloadTicketByNonce`: the ticket and the public key of its node. -/
def DB.downloadTicketByNonce (db : DB) (ownerId fileId : Uuid) (nonce : Bytes) :
    Option (DownloadTicket × Bytes) :=
  (db.ticketRows.find? fun row => row.1.1.1.nonce = nonce ∧ row.1.1.1.fileId = fileId ∧
    row.1.2.ownerId = ownerId).map fun row => (row.1.1.1, row.2.publicKey)

/-- `ConsumeDownloadReceipt`; `none` is a key or foreign-key violation. -/
def UsageDB.consumeDownloadReceipt (s : UsageDB) (r : DownloadReceipt) : Option UsageDB :=
  if (s.receipts.any fun old => old.nonce = r.nonce) ∨
      ¬ (s.db.files.any fun f => f.id = r.fileId) ∨
      ¬ (s.db.fragments.any fun fr => fr.id = r.fragmentId) ∨
      ¬ (s.db.nodes.any fun n => n.id = r.nodeId) then none
  else some { s with receipts := s.receipts ++ [r] }

theorem UsageDB.consumeDownloadReceipt_ok {s s' : UsageDB} {r : DownloadReceipt}
    (ok : s.consumeDownloadReceipt r = some s') : (∀ old ∈ s.receipts, old.nonce ≠ r.nonce) ∧
      (∃ f ∈ s.db.files, f.id = r.fileId) ∧ s' = { s with receipts := s.receipts ++ [r] } := by
  simp only [consumeDownloadReceipt] at ok
  split at ok <;> cases ok
  rename_i fine
  simp only [not_or, not_not, List.any_eq_true, decide_eq_true_eq] at fine
  exact ⟨fun old member same => fine.1 ⟨old, member, same⟩, fine.2.1, rfl⟩

/-! ### Statistics -/

/-- INSERT … ON CONFLICT (node_id, window_start) DO UPDATE: the row of the key is
updated, or one is inserted. -/
def upsertStat (row : NodeStat) (set : NodeStat → NodeStat) (stats : List NodeStat) :
    List NodeStat :=
  if stats.any fun old => old.nodeId = row.nodeId ∧ old.windowStart = row.windowStart then
    updateWhere (fun old => old.nodeId = row.nodeId ∧ old.windowStart = row.windowStart) set stats
  else stats ++ [row]

/-- The key of node_stats. -/
def statKey (row : NodeStat) : Uuid × Time := (row.nodeId, row.windowStart)

theorem stat_selected (row : NodeStat) (nodeId : Uuid) (hour : Time) :
    decide (row.nodeId = nodeId ∧ row.windowStart = hour) =
      decide (statKey row = (nodeId, hour)) := by
  simp [statKey, Prod.ext_iff]

theorem mem_upsertStat {row row' : NodeStat} {set : NodeStat → NodeStat} {stats : List NodeStat}
    (member : row' ∈ upsertStat row set stats) :
    row' = row ∨ row' ∈ stats ∨ ∃ old ∈ stats, row' = set old := by
  rw [upsertStat] at member
  split at member
  · rcases mem_updateWhere.mp member with ⟨old, inStats, _, rfl⟩ | ⟨inStats, _⟩
    · exact .inr (.inr ⟨old, inStats, rfl⟩)
    · exact .inr (.inl inStats)
  · rcases List.mem_append.mp member with inStats | new
    · exact .inr (.inl inStats)
    · exact .inl (List.mem_singleton.mp new)

theorem statKey_upsertStat {row : NodeStat} {set : NodeStat → NodeStat} {stats : List NodeStat}
    (keyed : UniqueOn statKey stats) (keeps : ∀ old, statKey (set old) = statKey old) :
    UniqueOn statKey (upsertStat row set stats) := by
  rw [upsertStat]
  split
  · rw [UniqueOn, map_updateWhere keeps]
    exact keyed
  · rename_i fresh
    refine keyed.append_singleton fun old member same => fresh ?_
    exact List.any_eq_true.mpr ⟨old, member, by rw [stat_selected]; exact decide_eq_true same⟩

/-- `BumpNodeBytes` with the clock of its `now()`. -/
def UsageDB.bumpNodeBytes (s : UsageDB) (nodeId : Uuid) (ingested served : Int) (now : Time) :
    UsageDB :=
  if ingested = 0 ∧ served = 0 then s
  else
    { s with
      stats := upsertStat
        { nodeId := nodeId, windowStart := truncHour now, uptimeRatio := 0, auditsPassed := 0,
          auditsFailed := 0, bytesServed := served, bytesIngested := ingested }
        (fun old =>
          { old with
            bytesServed := old.bytesServed + served
            bytesIngested := old.bytesIngested + ingested }) s.stats }

/-- `UpsertNodeStats` for an hour; the counters of an existing row stay. -/
def UsageDB.upsertNodeStats (s : UsageDB) (nodeId : Uuid) (window : Time) (uptime : ℚ) :
    UsageDB :=
  { s with
    stats := upsertStat
      { nodeId := nodeId, windowStart := window, uptimeRatio := uptime, auditsPassed := 0,
        auditsFailed := 0, bytesServed := 0, bytesIngested := 0 }
      (fun old => { old with uptimeRatio := uptime }) s.stats }

/-- `BumpNodeAudit` with the clock of its `now()`. -/
def UsageDB.bumpNodeAudit (s : UsageDB) (nodeId : Uuid) (passed : Bool) (now : Time) : UsageDB :=
  let p : Int := if passed then 1 else 0
  let f : Int := if passed then 0 else 1
  { s with
    stats := upsertStat
      { nodeId := nodeId, windowStart := truncHour now, uptimeRatio := 1, auditsPassed := p,
        auditsFailed := f, bytesServed := 0, bytesIngested := 0 }
      (fun old =>
        { old with auditsPassed := old.auditsPassed + p, auditsFailed := old.auditsFailed + f })
      s.stats }

end StoragePlatform
