/-
Module: StoragePlatform.Store.Transactions
Purpose: BeginUpload, AbortUpload, CommitUpload (internal/store/uploads.go) and
  SoftDeleteFile (internal/store/files.go) as transactions, statement by statement.
Trusted boundary: human-reviewed spec
Main exports: VersionTx, versionRules
-/
import StoragePlatform.Lib.Transactions
import StoragePlatform.Store.Files

namespace StoragePlatform

open Lib

/-!
The other store modules run each of these functions as one step.  Here the
statements of several of them interleave, as far as they concern the tables
`files` and `file_versions`.

A statement reads the rows committed when it begins.  An UPDATE that finds a row
locked by another transaction waits for it and then looks at the row again, so it
changes the rows that matched at the beginning and still match when it has the
locks: these statements are two steps here.  So is the INSERT of a version, which
computes its number from the rows it sees and then has to get past the unique keys,
and `SELECT ... FOR UPDATE OF v`, which reads the file row at its beginning and the
version row when it has the lock.  A row stays locked until the transaction ends,
hence a write may be applied to the committed row at commit.

The statements on chunks, fragments and placements do not change these tables.
What the two `count(*)` on placements find is an input.
-/

/-- Where a transaction stands between two steps. -/
inductive VersionTx where
  /-- BeginUpload has read a file that is uploading. -/
  | fileRead (m : UploadManifest) (file : File)
  /-- BeginUpload has read no file at the path. -/
  | pathFree (m : UploadManifest) (path : Text)
  /-- BeginUpload is about to insert a version; `own` if it has inserted the file. -/
  | fileReady (m : UploadManifest) (file : File) (own : Bool)
  /-- The INSERT of the version has its row. -/
  | numbered (file : File) (own : Bool) (version : FileVersion)
  | begun (file : File) (own : Bool) (version : FileVersion)
  /-- AbortUpload has dropped the pending placements. -/
  | placementsDropped (versionId : Uuid)
  | nothingStored (versionId : Uuid)
  /-- The UPDATE to `aborted` has begun; `found` if the row matched. -/
  | aborting (versionId : Uuid) (found : Bool)
  | aborted (versionId : Uuid) (hit : Bool)
  /-- The SELECT of CommitUpload has read the file and waits for the version. -/
  | scanning (file : File) (versionId : Uuid)
  | scanned (file : File) (version : FileVersion)
  | versionSet (file : File) (version : FileVersion)
  | fileSet (file : File) (version : FileVersion)
  /-- SoftDeleteFile has read the file. -/
  | deleteRead (file : File) (now : Time)
  | deletingFiles (file : File) (now : Time) (fileIds : List Uuid)
  | filesDeleted (file : File) (now : Time) (fileIds : List Uuid)
  | expiring (now : Time) (fileIds versionIds : List Uuid)
  | expired (now : Time) (fileIds versionIds : List Uuid)
deriving DecidableEq, Repr

inductive VersionRequest where
  | beginUpload (ownerId : Uuid) (m : UploadManifest)
  | abortUpload (versionId : Uuid)
  | commitUpload (ownerId versionId : Uuid)
  | softDelete (ownerId fileId : Uuid) (now : Time)
deriving DecidableEq, Repr

/-- What a statement gets from outside the two tables. -/
inductive StatementInput where
  | nothing
  /-- The id `gen_random_uuid()` returns. -/
  | newId (id : Uuid)
  /-- Whether a `count(*)` on placements is positive. -/
  | counted (positive : Bool)
deriving DecidableEq, Repr

namespace VersionTx

/-! ### What a transaction holds -/

/-- The file row it has inserted. -/
def newFile? : VersionTx → Option File
  | fileReady _ file true | numbered file true _ | begun file true _ => some file
  | _ => none

/-- The version row it has inserted. -/
def newVersion? : VersionTx → Option FileVersion
  | begun _ _ version => some version
  | _ => none

/-- The file rows it has locked. -/
def fileLocks : VersionTx → List Uuid
  | fileSet file _ => [file.id]
  | filesDeleted _ _ fileIds | expiring _ fileIds _ | expired _ fileIds _ => fileIds
  | _ => []

/-- The version rows it has locked. -/
def versionLocks : VersionTx → List Uuid
  | aborted versionId true => [versionId]
  | scanned _ version | versionSet _ version | fileSet _ version => [version.id]
  | expired _ _ versionIds => versionIds
  | _ => []

/-! ### Its statements -/

/-- The checks before the transaction and its first statement. -/
def start (db : DB) : VersionRequest → Option VersionTx
  | .beginUpload ownerId m =>
    match normalizePath m.path, db.bucketById ownerId m.bucketId with
    | .ok path, .ok _ =>
      if m.chunkSize ≤ 0 ∨ m.chunks.isEmpty ∨ m.contentSha256.length ≠ 32 then none
      else
        match db.liveFileAt m.bucketId path with
        | none => some (pathFree m path)
        | some file =>
          if file.status = .active ∨ file.isFolder then none
          else if file.status = .uploading then some (fileRead m file)
          else some (fileReady m file false)
    | _, _ => none
  | .abortUpload versionId => some (placementsDropped versionId)
  | .commitUpload ownerId versionId =>
    match db.scanVersion ownerId versionId with
    | .error _ => none
    | .ok (file, _) => some (scanning file versionId)
  | .softDelete ownerId fileId now =>
    match db.fileById ownerId fileId with
    | .error _ => none
    | .ok file => some (deleteRead file now)

/-- The primary key and UNIQUE (bucket_id, path) WHERE deleted_at IS NULL. -/
def sameFileKey (f g : File) : Bool :=
  g.id = f.id ∨ (g.deletedAt = none ∧ g.bucketId = f.bucketId ∧ g.path = f.path)

/-- The primary key and UNIQUE (file_id, version_no). -/
def sameVersionKey (v w : FileVersion) : Bool :=
  w.id = v.id ∨ (w.fileId = v.fileId ∧ w.versionNo = v.versionNo)

/-- One step of a transaction.  `none` stands for a wait, for an error, and for a
return without a write. -/
def next (db : DB) (others : List VersionTx) : VersionTx → StatementInput → Option VersionTx
  -- SELECT the pending version; the call resumes it or fails if there is one
  | fileRead m file, .nothing =>
    match db.pendingVersion file.id with
    | some _ => none
    | none => some (fileReady m file false)
  | pathFree m path, .newId id =>
    let file := newFile m path fun _ => id
    if (db.files ++ others.filterMap newFile?).any (sameFileKey file) then none
    else some (fileReady m file true)
  | fileReady m file own, .newId id =>
    some (numbered file own (db.newVersion file.id m fun _ => id))
  | numbered file own version, .nothing =>
    if (db.versions ++ others.filterMap newVersion?).any (sameVersionKey version) then none
    else some (begun file own version)
  | placementsDropped versionId, .counted stored =>
    if stored then none else some (nothingStored versionId)
  | nothingStored versionId, .nothing =>
    some (aborting versionId (db.versions.any fun v => v.id = versionId ∧ v.status = .pending))
  | aborting versionId found, .nothing =>
    if found ∧ others.any fun u => versionId ∈ u.versionLocks then none
    else some (aborted versionId
      (found ∧ db.versions.any fun v => v.id = versionId ∧ v.status = .pending))
  | scanning file versionId, .nothing =>
    if others.any fun u => versionId ∈ u.versionLocks then none
    else
      match db.versions.find? fun v => v.id = versionId with
      | none => none
      | some version => if version.status = .pending then some (scanned file version) else none
  -- the UPDATEs of placements and the threshold, then the version row it has locked
  | scanned file version, .counted short =>
    if short then none else some (versionSet file version)
  | versionSet file version, .nothing =>
    if others.any fun u => file.id ∈ u.fileLocks then none else some (fileSet file version)
  | deleteRead file now, .nothing =>
    some (deletingFiles file now ((db.files.filter file.toDelete).map File.id))
  | deletingFiles file now fileIds, .nothing =>
    if fileIds.any fun id => others.any fun u => id ∈ u.fileLocks then none
    else some (filesDeleted file now
      ((db.files.filter fun f => f.id ∈ fileIds ∧ file.toDelete f).map File.id))
  | filesDeleted file now fileIds, .nothing =>
    some (expiring now fileIds
      ((db.versions.filter fun v => v.current ∧ db.versionOf file.inDelete v).map FileVersion.id))
  | expiring now fileIds versionIds, .nothing =>
    if versionIds.any fun id => others.any fun u => id ∈ u.versionLocks then none
    else some (expired now fileIds
      ((db.versions.filter fun v => v.id ∈ versionIds ∧ v.current).map FileVersion.id))
  | _, _ => none

/-- The writes of a transaction that has run its statements. -/
def commit (db : DB) : VersionTx → Option DB
  | begun file own version =>
    some { db with
      files := if own then db.files ++ [file] else db.files
      versions := db.versions ++ [version] }
  | aborted versionId true =>
    some { db with
      versions := updateWhere (fun v => v.id = versionId)
        (fun v => { v with status := .aborted }) db.versions }
  | aborted _ false => some db
  | fileSet file version =>
    some { db with
      files := updateWhere (fun f => f.id = file.id)
        (fun f => { f with status := .active, currentVersion := some version.id }) db.files
      versions := updateWhere (fun v => v.id = version.id)
        (fun v => { v with status := .committed }) db.versions }
  | expired now fileIds versionIds =>
    some { db with
      files := updateWhere (fun f => f.id ∈ fileIds) (File.softDelete now) db.files
      versions := updateWhere (fun v => v.id ∈ versionIds) FileVersion.expire db.versions }
  | _ => none

/-! ### What a step does -/

inductive Ran (db : DB) (others : List VersionTx) : VersionTx → VersionTx → Prop
  | pendingRead {m : UploadManifest} {file : File}
      (none_pending : db.pendingVersion file.id = none) :
      Ran db others (fileRead m file) (fileReady m file false)
  | fileInserted {m : UploadManifest} {path : Text} {id : Uuid}
      (free : ∀ g ∈ db.files ++ others.filterMap newFile?,
        sameFileKey (newFile m path fun _ => id) g = false) :
      Ran db others (pathFree m path) (fileReady m (newFile m path fun _ => id) true)
  | versionNumbered {m : UploadManifest} {file : File} {own : Bool} {id : Uuid} :
      Ran db others (fileReady m file own)
        (numbered file own (db.newVersion file.id m fun _ => id))
  | versionInserted {file : File} {own : Bool} {version : FileVersion}
      (free : ∀ w ∈ db.versions ++ others.filterMap newVersion?,
        sameVersionKey version w = false) :
      Ran db others (numbered file own version) (begun file own version)
  | nothingCounted {versionId : Uuid} :
      Ran db others (placementsDropped versionId) (nothingStored versionId)
  | abortBegun {versionId : Uuid} {found : Bool} :
      Ran db others (nothingStored versionId) (aborting versionId found)
  | abortLocked {versionId : Uuid} {found hit : Bool}
      (unlocked : hit = true → ∀ u ∈ others, versionId ∉ u.versionLocks) :
      Ran db others (aborting versionId found) (aborted versionId hit)
  | versionLocked {file : File} {versionId : Uuid} {version : FileVersion}
      (unlocked : ∀ u ∈ others, versionId ∉ u.versionLocks) (member : version ∈ db.versions)
      (same : version.id = versionId) (pending : version.status = .pending) :
      Ran db others (scanning file versionId) (scanned file version)
  | versionMarked {file : File} {version : FileVersion} :
      Ran db others (scanned file version) (versionSet file version)
  | fileLocked {file : File} {version : FileVersion} :
      Ran db others (versionSet file version) (fileSet file version)
  | deleteBegun {file : File} {now : Time} {fileIds : List Uuid} :
      Ran db others (deleteRead file now) (deletingFiles file now fileIds)
  | filesLocked {file : File} {now : Time} {fileIds locked : List Uuid} :
      Ran db others (deletingFiles file now fileIds) (filesDeleted file now locked)
  | expireBegun {file : File} {now : Time} {fileIds versionIds : List Uuid} :
      Ran db others (filesDeleted file now fileIds) (expiring now fileIds versionIds)
  | versionsLocked {now : Time} {fileIds versionIds locked : List Uuid}
      (unlocked : ∀ id ∈ locked, ∀ u ∈ others, id ∉ u.versionLocks) :
      Ran db others (expiring now fileIds versionIds) (expired now fileIds locked)

theorem next_inv {db : DB} {others : List VersionTx} {t t' : VersionTx} {input : StatementInput}
    (ran : next db others t input = some t') : Ran db others t t' := by
  have none_any : ∀ {α : Type} {rows : List α} {p : α → Bool}, ¬ rows.any p = true →
      ∀ row ∈ rows, p row = false := fun absent row member => by
    simpa using fun holds => absent (List.any_eq_true.mpr ⟨row, member, holds⟩)
  have not_locked : ∀ {id : Uuid}, (¬ (others.any fun u => id ∈ u.versionLocks) = true) →
      ∀ u ∈ others, id ∉ u.versionLocks := fun absent u member =>
    of_decide_eq_false (none_any absent u member)
  unfold next at ran
  repeat' first | split at ran | dsimp only at ran
  all_goals cases ran
  · exact .pendingRead ‹_›
  · exact .fileInserted (none_any ‹_›)
  · exact .versionNumbered
  · exact .versionInserted (none_any ‹_›)
  · exact .nothingCounted
  · exact .abortBegun
  · rename_i free
    refine .abortLocked fun hit u member locked => free ?_
    exact ⟨(of_decide_eq_true hit).1, List.any_eq_true.mpr ⟨u, member, decide_eq_true locked⟩⟩
  · rename_i free _ version found pending
    have same := List.find?_some found
    exact .versionLocked (not_locked free) (List.mem_of_find?_eq_some found)
      (of_decide_eq_true same) pending
  · exact .versionMarked
  · exact .fileLocked
  · exact .deleteBegun
  · exact .filesLocked
  · exact .expireBegun
  · rename_i free
    refine .versionsLocked fun id member => ?_
    obtain ⟨v, chosen, rfl⟩ := List.mem_map.mp member
    have listed := (of_decide_eq_true (List.mem_filter.mp chosen).2).1
    exact not_locked (Bool.eq_false_iff.mp (none_any free _ listed))

end VersionTx

/-- The transactions on files and their versions. -/
def versionRules : TxRules DB VersionRequest VersionTx StatementInput where
  start := VersionTx.start
  next := VersionTx.next
  commit := VersionTx.commit

end StoragePlatform
