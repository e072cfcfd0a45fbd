/-
Module: StoragePlatform.Store.Meters
Purpose: The billing meters: the queries of internal/store/meters.go and
  NodeReliability of internal/store/stats.go.
Trusted boundary: human-reviewed spec; the arithmetic of REAL is a parameter
Main exports: DB.storedVersions, DB.listCustomerStoredBytes, UsageDB.nodeReliability
-/
import StoragePlatform.Lib.Totals
import StoragePlatform.Store.Files
import StoragePlatform.Store.Usage

namespace StoragePlatform

open Lib

/-- Scanning the rows of a query whose last column is a sum.  The sum is a NUMERIC, and one
that leaves 64 bits fails the scan. -/
def scanSums {α β : Type} (row : α → Int64 → β) (sums : List (α × Int)) : Option (List β) :=
  if ∀ g ∈ sums, InInt64 g.2 then some (sums.map fun g => row g.1 (Int64.ofInt g.2)) else none

/-! ### Stored bytes -/

/-- The joins of `ListCustomerStoredBytes`: committed versions of live files. -/
def DB.storedVersions (db : DB) : List ((FileVersion × File) × Bucket) :=
  innerJoin (fun row b => b.id = row.2.bucketId)
    (innerJoin (fun v f => f.id = v.fileId ∧ f.deletedAt = none)
      (db.versions.filter fun v => v.status = .committed) db.files) db.buckets

/-- `ListCustomerStoredBytes`. -/
def DB.listCustomerStoredBytes (db : DB) : Option (List CustomerStored) :=
  scanSums CustomerStored.mk
    (sumBy (fun row => row.2.ownerId) (fun row => row.1.1.sizeBytes) db.storedVersions)

/-- `ListNodeHeldBytes`: every node, with the sizes of its stored fragments and its
reputation. -/
def DB.listNodeHeldBytes (db : DB) (reputation : Uuid → ℚ) : Option (List NodeHeld) :=
  scanSums (fun node size => NodeHeld.mk node.1 node.2 size (reputation node.1))
    (db.nodes.map fun n => ((n.id, n.ownerId), db.nodeHeldBytes n.id))

namespace UsageDB

/-! ### Egress -/

/-- The joins of `ListCustomerEgressBytes`. -/
def receiptRows (s : UsageDB) : List ((DownloadReceipt × File) × Bucket) :=
  innerJoin (fun row b => b.id = row.2.bucketId)
    (innerJoin (fun r f => f.id = r.fileId) s.receipts s.db.files) s.db.buckets

/-- `ListCustomerEgressBytes`: the receipts created from the start of the hour to the
start of the next. -/
def listCustomerEgressBytes (s : UsageDB) (window : Time) : Option (List CustomerEgress) :=
  let start := truncHour window
  scanSums CustomerEgress.mk
    (sumBy (fun row => row.2.ownerId) (fun row => row.1.1.bytes)
      (s.receiptRows.filter fun row =>
        start ≤ row.1.1.createdAt ∧ row.1.1.createdAt < start + 3600))

/-- `ListNodeWindowServed`. -/
def listNodeWindowServed (s : UsageDB) (window : Time) : List NodeWindowServed :=
  (innerJoin (fun (row : NodeStat) (n : Node) => n.id = row.nodeId)
    (s.stats.filter fun row => row.windowStart = truncHour window ∧ 0 < row.bytesServed)
    s.db.nodes).map fun pair =>
    { nodeId := pair.1.nodeId, ownerId := pair.2.ownerId,
      bytes := Int64.ofInt pair.1.bytesServed }

/-! ### Reliability -/

def thirtyDays : Time := 30 * 24 * 3600

/-- The rows `NodeReliability` reads at the time `now`. -/
def recentStats (s : UsageDB) (nodeId : Uuid) (now : Time) : List NodeStat :=
  s.stats.filter fun row => row.nodeId = nodeId ∧ now - thirtyDays < row.windowStart

/-- Arithmetic of Postgres on REAL, in which every result is rounded. -/
structure PgReal where
  avg : List ℚ → ℚ
  div : Int → Int → ℚ

/-- `NodeReliability`: the mean uptime, 0 without rows, and the share of audits passed,
1 without audits. -/
def nodeReliability (real : PgReal) (s : UsageDB) (nodeId : Uuid) (now : Time) : ℚ × ℚ :=
  let uptimes := (s.recentStats nodeId now).map NodeStat.uptimeRatio
  let passed := ((s.recentStats nodeId now).map NodeStat.auditsPassed).sum
  let audits := ((s.recentStats nodeId now).map fun row => row.auditsPassed + row.auditsFailed).sum
  (if uptimes = [] then 0 else real.avg uptimes, if audits = 0 then 1 else real.div passed audits)

end UsageDB

end StoragePlatform
