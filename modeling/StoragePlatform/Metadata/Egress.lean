/-
Module: StoragePlatform.Metadata.Egress
Purpose: PlanDownload and ReportDownload as concurrent calls beside those of the
  control plane, at the granularity of their statements.
Trusted boundary: human-reviewed spec
Main exports: EgressCall, EgressMove, UsageDB.advanceDownload, Egress, Egress.init
-/
import StoragePlatform.Metadata.Report
import StoragePlatform.System

namespace StoragePlatform

open Lib

/-!
`PlanDownload` reads the file, its current version and the rows of the version in
three statements, and then records one ticket after the other.  `ReportDownload`
looks the ticket of a wire up in one statement and inserts the receipt in another,
wire by wire.  Between any two of them other calls may run, of the same user or of
others, and so may every step of the control plane.

A wire is arbitrary text, and so is what a caller names as its file.  A call that
is refused before its first statement has returned a row is no event.
-/

/-- A download call between two of its statements, with what it has read. -/
inductive EgressCall where
  | done
  /-- `LoadDownload` has the file row. -/
  | fileFound (ownerId : Uuid) (f : File)
  | versionFound (ownerId : Uuid) (f : File) (v : FileVersion)
  /-- `PlanDownload` is in its loops: `current` are the copies of the chunk at hand
  still without a ticket, `rest` the chunks after it. -/
  | planning (ownerId fileId : Uuid) (need total : Nat) (current : List DownloadPlacement)
      (rest : List DownloadChunk)
  /-- `ReportDownload` is at the head of its loop. -/
  | reporting (userId fileId : Uuid) (recs : List EgressRec) (wires : List Text)
  /-- A wire has passed every check and is not yet consumed. -/
  | verified (userId fileId : Uuid) (recs : List EgressRec) (nonce : Bytes)
      (t : DownloadTicket) (got : Receipt) (wires : List Text)
deriving DecidableEq, Repr

inductive EgressMove where
  | loadVersion
  | loadRows
  | nextChunk
  | issue (env : DownloadEnv)
  | lookup
  | consume (now : Time)
  | meter (env : ReportEnv)
  /-- The call runs into an error of a service it uses, or its process dies. -/
  | fail

/-- The next statement of a download call: the call after it, the tables, and the
tickets issued. -/
def UsageDB.advanceDownload (s : UsageDB) (sigOk : SigCheck) :
    EgressCall → EgressMove → Option (EgressCall × UsageDB × List (Uuid × DownloadTicket))
  | .done, _ => none
  | _, .fail => some (.done, s, [])
  | .fileFound ownerId f, .loadVersion =>
    match f.currentVersion with
    | none => some (.done, s, [])
    | some versionId =>
      match s.db.versions.find? fun v => v.id = versionId ∧ v.status = .committed with
      | none => some (.done, s, [])
      | some v => some (.versionFound ownerId f v, s, [])
  | .versionFound ownerId f v, .loadRows =>
    some (.planning ownerId f.id v.need 0 [] ((s.db.downloadRows v.id).foldl addDownloadRow []),
      s, [])
  | .planning ownerId fileId need total [] (ch :: rest), .nextChunk =>
    let picked := pickDownloadPlacements ch.placements need
    if picked.length < need then some (.done, s, [])
    else some (.planning ownerId fileId need total picked rest, s, [])
  | .planning ownerId fileId need total (p :: current) rest, .issue env =>
    if maxPlanFragments ≤ total then some (.done, s, [])
    else
      match s.db.issueTicket env fileId p with
      | .error _ => some (.done, s, [])
      | .ok (_, db') =>
        some (.planning ownerId fileId need (total + 1) current rest, { s with db := db' },
          ((issuedTicket env fileId p).map fun t => (ownerId, t)).toList)
  | .reporting userId fileId recs (wire :: wires), .lookup =>
    match receiptNonce wire with
    | none => some (.done, s, [])
    | some nonce =>
      if nonce ∈ recs.map EgressRec.nonce then some (.done, s, [])
      else
        match s.db.verifyEgress sigOk userId fileId nonce wire with
        | none => some (.done, s, [])
        | some (t, got) => some (.verified userId fileId recs nonce t got wires, s, [])
  | .verified userId fileId recs nonce t got wires, .consume now =>
    match s.consumeDownloadReceipt
        { nonce := nonce, fileId := fileId, fragmentId := t.fragmentId, nodeId := t.nodeId,
          bytes := toInt64 got.size, createdAt := now } with
    | none => some (.done, s, [])
    | some s' =>
      some (.reporting userId fileId (recs ++ [⟨nonce, t.nodeId, toInt64 got.size⟩]) wires,
        s', [])
  | .reporting userId fileId recs [], .meter env =>
    some (.done, s.meterEgress env userId fileId recs, [])
  | _, _ => none

/-- The control plane with the usage tables and the download calls.  The last two
fields are history: the tickets issued, each with the user it was issued to, and the
wires reported, each with its user and file. -/
structure Egress where
  usage : UsageDB
  calls : List Call
  downloads : List EgressCall
  issued : List (Uuid × DownloadTicket)
  reported : List (Uuid × Uuid × Text)
deriving DecidableEq, Repr

def Egress.init : Egress where
  usage := { db := DB.empty, receipts := [], stats := [], published := [] }
  calls := []
  downloads := []
  issued := []
  reported := []

inductive EgressEvent where
  | system (e : Event)
  | planDownload (ownerId fileId : Uuid)
  | reportDownload (userId fileId : Uuid) (wires : List Text)
  | move (i : Nat) (m : EgressMove)

def egressStep (sigOk : SigCheck) (s : Egress) : EgressEvent → Option Egress
  | .system e =>
    match step sigOk { db := s.usage.db, calls := s.calls } e with
    | none => none
    | some t => some { s with usage := { s.usage with db := t.db }, calls := t.calls }
  | .planDownload ownerId fileId =>
    match s.usage.db.fileById ownerId fileId with
    | .error _ => none
    | .ok f => some { s with downloads := s.downloads ++ [.fileFound ownerId f] }
  | .reportDownload userId fileId wires =>
    match s.usage.db.fileById userId fileId with
    | .error _ => none
    | .ok _ =>
      some
        { s with
          downloads := s.downloads ++ [.reporting userId fileId [] wires]
          reported := s.reported ++ wires.map fun wire => (userId, fileId, wire) }
  | .move i m =>
    match s.downloads[i]? with
    | none => none
    | some call =>
      match s.usage.advanceDownload sigOk call m with
      | none => none
      | some (call', usage, issued) =>
        some
          { s with
            usage := usage
            downloads := s.downloads.set i call'
            issued := s.issued ++ issued }

end StoragePlatform
