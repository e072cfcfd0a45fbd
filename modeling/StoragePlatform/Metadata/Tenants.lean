/-
Module: StoragePlatform.Metadata.Tenants
Purpose: The file operations a user can call, one after another, and the rows that
  belong to a user.
Trusted boundary: human-reviewed spec
Main exports: TenantRows, UsageDB.tenantRows, TenantOp, tenantStep
-/
import StoragePlatform.Metadata.Commit
import StoragePlatform.Metadata.Report
import StoragePlatform.Store.Buckets

namespace StoragePlatform

open Lib

/-!
A row belongs to the owner of the bucket it leads to through the foreign keys.
`AbortUpload` and `InsertPlacements` take no owner: the metadata service calls them
for the version that its own `BeginUpload` has returned, so they are operations of a
user only for a version of the user.  All other operations take what the caller
names.

An operation that fails leaves what it has written before it failed.  The counters of
the nodes and the usage events that `CommitUpload` adds after its transaction are no
rows of a user.
-/

/-! ### Whose rows -/

namespace DB

def tenantBuckets (db : DB) (userId : Uuid) : List Bucket :=
  db.buckets.filter fun b => b.ownerId = userId

def tenantFiles (db : DB) (userId : Uuid) : List File :=
  db.files.filter fun f => f.bucketId ∈ (db.tenantBuckets userId).map Bucket.id

def tenantVersions (db : DB) (userId : Uuid) : List FileVersion :=
  db.versions.filter fun v => v.fileId ∈ (db.tenantFiles userId).map File.id

def tenantChunks (db : DB) (userId : Uuid) : List Chunk :=
  db.chunks.filter fun c => c.versionId ∈ (db.tenantVersions userId).map FileVersion.id

def tenantFragments (db : DB) (userId : Uuid) : List Fragment :=
  db.fragments.filter fun fr => fr.chunkId ∈ (db.tenantChunks userId).map Chunk.id

def tenantPlacements (db : DB) (userId : Uuid) : List Placement :=
  db.placements.filter fun p => p.fragmentId ∈ (db.tenantFragments userId).map Fragment.id

end DB

def UsageDB.tenantReceipts (s : UsageDB) (userId : Uuid) : List DownloadReceipt :=
  s.receipts.filter fun r => r.fileId ∈ (s.db.tenantFiles userId).map File.id

/-- The rows that belong to a user. -/
structure TenantRows where
  buckets : List Bucket
  files : List File
  versions : List FileVersion
  chunks : List Chunk
  fragments : List Fragment
  placements : List Placement
  receipts : List DownloadReceipt
deriving DecidableEq, Repr

def UsageDB.tenantRows (s : UsageDB) (userId : Uuid) : TenantRows where
  buckets := s.db.tenantBuckets userId
  files := s.db.tenantFiles userId
  versions := s.db.tenantVersions userId
  chunks := s.db.tenantChunks userId
  fragments := s.db.tenantFragments userId
  placements := s.db.tenantPlacements userId
  receipts := s.tenantReceipts userId

/-! ### What a user can call -/

/-- An operation with the arguments its caller gives, and what it gets from outside the
tables: generated ids, the clock, the order in which a query returns its rows. -/
inductive TenantOp where
  | createFolder (bucketId : Uuid) (path : Text) (id : Uuid)
  | renameFile (fileId : Uuid) (newPath : Text) (order : List Uuid)
  | softDeleteFile (fileId : Uuid) (now : Time)
  | beginUpload (m : UploadManifest) (gen : Nat → Uuid)
  | abortUpload (versionId : Uuid)
  | insertPlacements (versionId : Uuid) (pairs : List (Uuid × Uuid))
  | commitUpload (versionId : Uuid) (targets : List PlacementTarget) (wires : List Text)
  | listFiles (before : Text → Text → Bool) (bucketId : Uuid) (folder cursor : Text) (limit : Int)
  | planDownload (env : DownloadEnv) (fileId : Uuid)
  | reportDownload (env : ReportEnv) (fileId : Uuid) (wires : List Text)
  | deleteBucket (bucketId : Uuid)

/-- The tables after a call that is one transaction. -/
def UsageDB.after {α : Type} (s : UsageDB) : Except StoreErr (α × DB) → UsageDB
  | .error _ => s
  | .ok (_, db) => { s with db := db }

/-- The version is one of the user's. -/
def DB.ownsVersion (db : DB) (userId versionId : Uuid) : Bool :=
  versionId ∈ (db.tenantVersions userId).map FileVersion.id

/-- The tables after an operation of the user. -/
def tenantStep (sigOk : SigCheck) (userId : Uuid) (s : UsageDB) : TenantOp → Option UsageDB
  | .createFolder bucketId path id => some (s.after (s.db.createFolder userId bucketId path id))
  | .renameFile fileId newPath order =>
    some (s.after (s.db.renameFile userId fileId newPath order))
  | .softDeleteFile fileId now =>
    match s.db.softDeleteFile userId fileId now with
    | .error _ => some s
    | .ok db => some { s with db := db }
  | .beginUpload m gen => some (s.after (s.db.beginUpload userId m gen))
  | .abortUpload versionId =>
    if s.db.ownsVersion userId versionId then
      some { s with db := s.db.abortUpload versionId }
    else none
  | .insertPlacements versionId pairs =>
    if s.db.ownsVersion userId versionId ∧
        ∀ pair ∈ pairs, s.db.fragmentOfVersion versionId pair.1 = true then
      some { s with db := (s.db.insertPlacements pairs).2 }
    else none
  | .commitUpload versionId targets wires =>
    if targets.Perm (s.db.pendingTargetsForVersion versionId) then
      some (s.after (s.db.commitUploadReceipts sigOk userId versionId targets wires))
    else none
  | .listFiles _ _ _ _ _ => some s
  | .planDownload env fileId => some { s with db := (s.db.planDownload env userId fileId).2 }
  | .reportDownload env fileId wires => some (s.reportDownload env userId fileId wires).2
  | .deleteBucket bucketId =>
    match s.deleteBucket userId bucketId with
    | .error _ => some s
    | .ok s' => some s'

end StoragePlatform
