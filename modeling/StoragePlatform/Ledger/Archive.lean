/-
Module: StoragePlatform.Ledger.Archive
Purpose: Usage events from the calls that publish them to the table `usage_events`
  (internal/events/events.go, internal/metadata/upload.go, cmd/ledger/main.go,
  RecordUsageEvent of internal/store/ledger.go).
Trusted boundary: human-reviewed spec; a publish does not fail, the stream drops an id it
  has seen and delivers the rest at least once
Main exports: UsageMessage, usageMsgIdWithDedup, Archive, ArchiveEvent, archiveStep
-/
import StoragePlatform.Lib.Delivery
import StoragePlatform.Metadata.Report
import StoragePlatform.System

namespace StoragePlatform

open Lib

/-- The payload of a usage event; its kind goes with it. -/
inductive UsagePayload where
  | storage (sizeBytes : Int) (fileId : Uuid)
  | egress (bytes : Int) (fileId : Uuid) (nonce : Bytes)
deriving DecidableEq, Repr

def UsagePayload.kind : UsagePayload → Text
  | storage _ _ => "storage".toList
  | egress _ _ _ => "egress".toList

/-- A usage event as it is published and stored: the columns of a row of `usage_events`
but its id, which is computed from them. -/
structure UsageMessage where
  subjectId : Uuid
  window : Time
  dedup : Text
  payload : UsagePayload
deriving DecidableEq, Repr

/-- `UsageMsgIDWithDedup`. -/
def usageMsgIdWithDedup (uuids : UuidPackage) (kind : Text) (subject : Uuid) (window : Time)
    (dedup : Text) : Text :=
  let id := "usage:".toList ++ (kind ++ ':' ::
    (uuids.string subject ++ ':' :: (truncHour window).repr.toList))
  if dedup = [] then id else id ++ ':' :: dedup

def UsageMessage.msgId (uuids : UuidPackage) (m : UsageMessage) : Text :=
  usageMsgIdWithDedup uuids m.payload.kind m.subjectId m.window m.dedup

/-- What `CommitUpload` publishes; `PublishUsage` truncates the window. -/
def storageUsage (ownerId : Uuid) (now : Time) (sizeBytes : Int) (fileId : Uuid) :
    UsageMessage where
  subjectId := ownerId
  window := truncHour now
  dedup := []
  payload := .storage sizeBytes fileId

/-- What `ReportDownload` publishes for one receipt. -/
def egressUsage (e : UsageEvent) : UsageMessage where
  subjectId := e.subjectId
  window := truncHour e.window
  dedup := encodeHex e.nonce
  payload := .egress e.bytes e.fileId e.nonce

/-- A `CommitUpload` that has returned, and when it published. -/
structure UploadCommit where
  ownerId : Uuid
  versionId : Uuid
  fileId : Uuid
  sizeBytes : Int
  publishedAt : Time
deriving DecidableEq, Repr

def UploadCommit.usage (c : UploadCommit) : UsageMessage :=
  storageUsage c.ownerId c.publishedAt c.sizeBytes c.fileId

/-- The control plane with the usage tables, the stream and its consumer.  `commits` is
history. -/
structure Archive where
  usage : UsageDB
  calls : List Call
  commits : List UploadCommit
  bus : Delivery UsageMessage

/-- What a step makes `CommitUpload` return: the owner, the file and the version. -/
def System.returned (s : System) : Event → Option (Uuid × File × FileVersion)
  | .move i .commit =>
    match s.calls[i]? with
    | some (.committing (.upload ownerId versionId) _ _ stored) =>
      match s.db.commitUpload ownerId versionId stored with
      | .ok ((f, v), _) => some (ownerId, f, v)
      | .error _ => none
    | _ => none
  | _ => none

/-- The tables and the calls after a step of the control plane. -/
def Archive.withSystem (s : Archive) (t : System) : Archive :=
  { s with usage := { s.usage with db := t.db }, calls := t.calls }

def Archive.system (s : Archive) : System := ⟨s.usage.db, s.calls⟩

inductive ArchiveEvent where
  /-- A step of the control plane; `now` is the clock of the event a commit publishes. -/
  | system (e : Event) (now : Time)
  | planDownload (env : DownloadEnv) (ownerId fileId : Uuid)
  /-- A report that is accepted. -/
  | reportDownload (env : ReportEnv) (userId fileId : Uuid) (wires : List Text)
  /-- The consumer of the ledger handles a message. -/
  | deliver (i : Nat)

def archiveStep (uuids : UuidPackage) (sigOk : SigCheck) (s : Archive) :
    ArchiveEvent → Option Archive
  | .system e now =>
    match step sigOk s.system e with
    | none => none
    | some t =>
      match s.system.returned e with
      | none => some (s.withSystem t)
      | some (ownerId, f, v) =>
        let commit : UploadCommit := ⟨ownerId, v.id, f.id, v.sizeBytes, now⟩
        some
          { s.withSystem t with
            commits := s.commits ++ [commit]
            bus := s.bus.publish (UsageMessage.msgId uuids) commit.usage }
  | .planDownload env ownerId fileId =>
    some { s with
      usage := { s.usage with db := (s.usage.db.planDownload env ownerId fileId).2 } }
  | .reportDownload env userId fileId wires =>
    match s.usage.reportDownload env userId fileId wires with
    | (.error _, _) => none
    | (.ok (), usage) =>
      let events := usage.published.drop s.usage.published.length
      some
        { s with
          usage := usage
          bus := (events.map egressUsage).foldl
            (Delivery.publish (UsageMessage.msgId uuids)) s.bus }
  | .deliver i =>
    match s.bus.deliver (UsageMessage.msgId uuids) i with
    | none => none
    | some bus => some { s with bus := bus }

/-- A commit that returns has committed the version now. -/
def Archive.firstCommit (s : Archive) : ArchiveEvent → Bool
  | .system e _ =>
    (s.system.returned e).all fun r =>
      s.usage.db.versions.all fun v => v.id = r.2.2.id → v.status = .pending
  | _ => true

end StoragePlatform
