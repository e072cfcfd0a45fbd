/-
Module: StoragePlatform.Store.Uploads
Purpose: The upload and download statements of internal/store/uploads.go:
  BeginUpload, AbortUpload, CommitUpload, LoadDownload.
Trusted boundary: human-reviewed spec
Main exports: UploadManifest, PlannedUpload, DB.beginUpload, commitThreshold
-/
import StoragePlatform.Store.Placements
import StoragePlatform.Store.Paths

namespace StoragePlatform

open Lib List

variable {db db' : DB} {chunkId ownerId versionId : Uuid} {P : DB → Prop} {gen : Nat → Uuid}
variable {k : Nat} {frs : List ManifestFragment} {chunks : List ManifestChunk} {m : UploadManifest}
variable {planned : PlannedUpload} {f file : File} {v : FileVersion}

/-!
Every function here is one transaction, and a transaction is one step: it either
commits as a whole or leaves the database as it was.  A generated primary key
(`gen_random_uuid()`) is an argument: `gen k` is the `k`-th key the call draws.
-/

structure ManifestFragment where
  shardIndex : Int
  sizeBytes : Int
  sha256 : Bytes
deriving DecidableEq, Repr

structure ManifestChunk where
  seq : Int
  sizeBytes : Int
  sha256 : Bytes
  fragments : List ManifestFragment
deriving DecidableEq, Repr

/-- The client-computed plan body. -/
structure UploadManifest where
  bucketId : Uuid
  path : Text
  sizeBytes : Int
  contentSha256 : Bytes
  encryptionMeta : Bytes
  chunkSize : Int
  ecData : Int
  ecParity : Int
  chunks : List ManifestChunk
deriving DecidableEq, Repr

/-- A fragment row plus its live placement, if any. -/
structure PlannedFragment where
  chunk : Chunk
  fragment : Fragment
  placement : Option Placement
deriving DecidableEq, Repr

/-- The result of inserting or resuming a pending version. -/
structure PlannedUpload where
  file : File
  version : FileVersion
  resume : Bool
  pending : List PlannedFragment
  stored : List PlannedFragment
deriving DecidableEq, Repr

/-- `CommitThreshold`: stored placements a chunk needs to commit. -/
def commitThreshold : Nat := 14

/-- `BucketByID`. -/
def DB.bucketById (db : DB) (ownerId id : Uuid) : Except StoreErr Bucket :=
  match db.buckets.find? fun b => b.id = id ∧ b.ownerId = ownerId with
  | none => .error .notFound
  | some b => .ok b

/-! ### Planning -/

/-- Column order of `ORDER BY c.seq, fr.shard_index`. -/
def seqShardLe (a b : Chunk × Fragment) : Bool :=
  a.1.seq < b.1.seq ∨ (a.1.seq = b.1.seq ∧ a.2.shardIndex ≤ b.2.shardIndex)

/-- The rows of `loadPlanned`: each fragment of the version once per live
placement, or once without one. -/
def DB.plannedFragments (db : DB) (versionId : Uuid) : List PlannedFragment :=
  (orderBy seqShardLe
    (innerJoin (fun (c : Chunk) (fr : Fragment) => fr.chunkId = c.id)
      (db.chunks.filter fun c => c.versionId = versionId) db.fragments)).flatMap fun cf =>
    match db.placements.filter fun p => p.fragmentId = cf.2.id ∧ p.live with
    | [] => [{ chunk := cf.1, fragment := cf.2, placement := none }]
    | rows => rows.map fun p => { chunk := cf.1, fragment := cf.2, placement := some p }

theorem DB.mem_plannedFragments {pf : PlannedFragment}
    (listed : pf ∈ db.plannedFragments versionId) :
    pf.chunk ∈ db.chunks ∧ pf.chunk.versionId = versionId ∧ pf.fragment ∈ db.fragments ∧
      pf.fragment.chunkId = pf.chunk.id := by
  simp only [plannedFragments, mem_flatMap, mem_orderBy, Prod.exists, mem_innerJoin,
    mem_filter, decide_eq_true_eq] at listed
  obtain ⟨c, fr, ⟨⟨inChunks, ofVersion⟩, inFragments, ofChunk⟩, listed⟩ := listed
  split at listed
  · rw [mem_singleton.mp listed]
    exact ⟨inChunks, ofVersion, inFragments, ofChunk⟩
  · obtain ⟨p, -, rfl⟩ := mem_map.mp listed
    exact ⟨inChunks, ofVersion, inFragments, ofChunk⟩

def PlannedFragment.isStored (pf : PlannedFragment) : Bool :=
  match pf.placement with
  | none => false
  | some p => p.status = .stored

/-- `loadPlanned`. -/
def DB.loadPlanned (db : DB) (file : File) (version : FileVersion) (resume : Bool) :
    PlannedUpload where
  file := file
  version := version
  resume := resume
  pending := (db.plannedFragments version.id).filter fun pf => !pf.isStored
  stored := (db.plannedFragments version.id).filter fun pf => pf.isStored

/-- The range of an `INTEGER` column.  The driver refuses any other value. -/
def inInt32 (n : Int) : Bool := -2 ^ 31 ≤ n ∧ n < 2 ^ 31

def DB.insertFragment (db : DB) (fr : Fragment) : Except StoreErr DB :=
  if ¬ inInt32 fr.sizeBytes then .error (.query "store.beginUpload")
  else if db.fragments.any fun old =>
      old.id = fr.id ∨ (old.chunkId = fr.chunkId ∧ old.shardIndex = fr.shardIndex) then
    .error .conflict
  else if ¬ db.chunks.any fun c => c.id = fr.chunkId then
    .error (.query "store.beginUpload")
  else .ok { db with fragments := db.fragments ++ [fr] }

def DB.insertFragments (gen : Nat → Uuid) (chunkId : Uuid) :
    DB → Nat → List ManifestFragment → Except StoreErr DB
  | db, _, [] => .ok db
  | db, k, fr :: rest =>
    match db.insertFragment
        { id := gen k, chunkId := chunkId, shardIndex := fr.shardIndex,
          sizeBytes := fr.sizeBytes, sha256 := fr.sha256 } with
    | .error e => .error e
    | .ok db' => insertFragments gen chunkId db' (k + 1) rest

def DB.insertChunk (db : DB) (c : Chunk) : Except StoreErr DB :=
  if ¬ (inInt32 c.seq ∧ inInt32 c.sizeBytes) then .error (.query "store.beginUpload")
  else if db.chunks.any fun old =>
      old.id = c.id ∨ (old.versionId = c.versionId ∧ old.seq = c.seq) then
    .error .conflict
  else if ¬ db.versions.any fun v => v.id = c.versionId then
    .error (.query "store.beginUpload")
  else .ok { db with chunks := db.chunks ++ [c] }

/-- The two nested INSERT loops of `BeginUpload`. -/
def DB.insertChunks (gen : Nat → Uuid) (versionId : Uuid) :
    DB → Nat → List ManifestChunk → Except StoreErr DB
  | db, _, [] => .ok db
  | db, k, ch :: rest =>
    match db.insertChunk
        { id := gen k, versionId := versionId, seq := ch.seq, sizeBytes := ch.sizeBytes,
          sha256 := ch.sha256 } with
    | .error e => .error e
    | .ok withChunk =>
      if ch.fragments.isEmpty then .error .invalid
      else
        match DB.insertFragments gen (gen k) withChunk (k + 1) ch.fragments with
        | .error e => .error e
        | .ok withFragments =>
          insertChunks gen versionId withFragments (k + 1 + ch.fragments.length) rest

/-- What an INSERT into `fragments` has checked when it succeeds. -/
theorem DB.insertFragment_inv {fr : Fragment} (inserted : db.insertFragment fr = .ok db') :
    inInt32 fr.sizeBytes ∧
      (∀ old ∈ db.fragments, old.id ≠ fr.id ∧
        ¬(old.chunkId = fr.chunkId ∧ old.shardIndex = fr.shardIndex)) ∧
      (∃ c ∈ db.chunks, c.id = fr.chunkId) ∧
      db' = { db with fragments := db.fragments ++ [fr] } := by
  simp only [insertFragment, refuse_eq_ok, Except.ok.injEq] at inserted
  obtain ⟨inRange, fresh, owned, rfl⟩ := inserted
  exact ⟨not_not.mp inRange, by simpa using fresh, by simpa using owned, rfl⟩

/-- What an INSERT into `chunks` has checked when it succeeds. -/
theorem DB.insertChunk_inv {c : Chunk} (inserted : db.insertChunk c = .ok db') :
    (inInt32 c.seq ∧ inInt32 c.sizeBytes) ∧
      (∀ old ∈ db.chunks, old.id ≠ c.id ∧ ¬(old.versionId = c.versionId ∧ old.seq = c.seq)) ∧
      (∃ v ∈ db.versions, v.id = c.versionId) ∧
      db' = { db with chunks := db.chunks ++ [c] } := by
  simp only [insertChunk, refuse_eq_ok, Except.ok.injEq] at inserted
  obtain ⟨inRange, fresh, owned, rfl⟩ := inserted
  exact ⟨not_not.mp inRange, by simpa using fresh, by simpa using owned, rfl⟩

/-- What every successful INSERT of a chunk or a fragment keeps, the INSERT loop
over the fragments of a chunk keeps. -/
theorem DB.insertFragments_induction
    (fragment : ∀ {db db' : DB} {fr : Fragment}, P db → db.insertFragment fr = .ok db' → P db')
    (start : P db) (inserted : DB.insertFragments gen chunkId db k frs = .ok db') : P db' := by
  induction frs generalizing db k with
  | nil =>
    cases inserted
    exact start
  | cons fr frs ih =>
    simp only [insertFragments] at inserted
    split at inserted
    · cases inserted
    · rename_i mid first
      exact ih (fragment start first) inserted

/-- And so does the loop over the chunks. -/
theorem DB.insertChunks_induction
    (chunk : ∀ {db db' : DB} {c : Chunk}, P db → db.insertChunk c = .ok db' → P db')
    (fragment : ∀ {db db' : DB} {fr : Fragment}, P db → db.insertFragment fr = .ok db' → P db')
    (start : P db) (inserted : DB.insertChunks gen versionId db k chunks = .ok db') : P db' := by
  induction chunks generalizing db k with
  | nil =>
    cases inserted
    exact start
  | cons ch chunks ih =>
    simp only [insertChunks] at inserted
    split at inserted
    · cases inserted
    rename_i withChunk first
    split at inserted
    · cases inserted
    split at inserted
    · cases inserted
    rename_i withFragments second
    exact ih (insertFragments_induction fragment (chunk start first) second) inserted

/-! ### The rows of a manifest -/

/-- The rows of a chunk's fragments, the ids drawn from `k` on. -/
def fragmentRows (gen : Nat → Uuid) (chunkId : Uuid) : Nat → List ManifestFragment → List Fragment
  | _, [] => []
  | k, fr :: rest =>
    { id := gen k, chunkId := chunkId, shardIndex := fr.shardIndex, sizeBytes := fr.sizeBytes,
      sha256 := fr.sha256 } :: fragmentRows gen chunkId (k + 1) rest

/-- The row of each chunk with those of its fragments. -/
def chunkRows (gen : Nat → Uuid) (versionId : Uuid) :
    Nat → List ManifestChunk → List (Chunk × List Fragment)
  | _, [] => []
  | k, ch :: rest =>
    ({ id := gen k, versionId := versionId, seq := ch.seq, sizeBytes := ch.sizeBytes,
       sha256 := ch.sha256 }, fragmentRows gen (gen k) (k + 1) ch.fragments) ::
      chunkRows gen versionId (k + 1 + ch.fragments.length) rest

theorem mem_fragmentRows {row : Fragment} (member : row ∈ fragmentRows gen chunkId k frs) :
    row.chunkId = chunkId := by
  induction frs generalizing k with
  | nil => cases member
  | cons fr frs ih =>
    rcases mem_cons.mp member with rfl | later
    · rfl
    · exact ih later

theorem mem_chunkRows {row : Chunk × List Fragment}
    (member : row ∈ chunkRows gen versionId k chunks) :
    row.1.versionId = versionId ∧ (∀ fr ∈ row.2, fr.chunkId = row.1.id) ∧
      ∃ ch ∈ chunks, ∃ j, row.2 = fragmentRows gen row.1.id j ch.fragments := by
  induction chunks generalizing k with
  | nil => cases member
  | cons ch chunks ih =>
    rcases mem_cons.mp member with rfl | later
    · exact ⟨rfl, fun fr inRow => mem_fragmentRows inRow, ch, by simp, _, rfl⟩
    · obtain ⟨ofVersion, ofChunk, old, inChunks, j, rows⟩ := ih later
      exact ⟨ofVersion, ofChunk, old, mem_cons_of_mem _ inChunks, j, rows⟩

theorem DB.insertFragments_rows (inserted : DB.insertFragments gen chunkId db k frs = .ok db') :
    db' = { db with fragments := db.fragments ++ fragmentRows gen chunkId k frs } := by
  induction frs generalizing db k with
  | nil =>
    cases inserted
    simp [fragmentRows]
  | cons fr frs ih =>
    simp only [insertFragments] at inserted
    split at inserted
    · cases inserted
    rename_i mid first
    obtain ⟨-, -, -, rfl⟩ := insertFragment_inv first
    rw [ih inserted]
    simp [fragmentRows]

/-- The INSERT loops append the rows of the manifest, and every chunk has a
fragment. -/
theorem DB.insertChunks_rows (inserted : DB.insertChunks gen versionId db k chunks = .ok db') :
    db' = { db with
        chunks := db.chunks ++ (chunkRows gen versionId k chunks).map Prod.fst
        fragments := db.fragments ++ (chunkRows gen versionId k chunks).flatMap Prod.snd } ∧
      ∀ ch ∈ chunks, ch.fragments ≠ [] := by
  induction chunks generalizing db k with
  | nil =>
    cases inserted
    simp [chunkRows]
  | cons ch chunks ih =>
    simp only [insertChunks] at inserted
    split at inserted
    · cases inserted
    rename_i withChunk first
    split at inserted
    · cases inserted
    rename_i nonempty
    split at inserted
    · cases inserted
    rename_i withFragments second
    obtain ⟨-, -, -, rfl⟩ := insertChunk_inv first
    obtain ⟨rows, others⟩ := ih inserted
    rw [rows, insertFragments_rows second]
    refine ⟨by simp [chunkRows], forall_mem_cons.mpr ⟨?_, others⟩⟩
    simpa using nonempty

/-- The live file row at a path. -/
def DB.liveFileAt (db : DB) (bucketId : Uuid) (path : Text) : Option File :=
  db.files.find? fun f => f.bucketId = bucketId ∧ f.path = path ∧ f.deletedAt = none

/-- The newest pending version of a file. -/
def DB.pendingVersion (db : DB) (fileId : Uuid) : Option FileVersion :=
  (orderBy (fun a b => b.versionNo ≤ a.versionNo)
    (db.versions.filter fun v => v.fileId = fileId ∧ v.status = .pending)).head?

/-- `COALESCE(MAX(version_no), 0) + 1`. -/
def DB.nextVersionNo (db : DB) (fileId : Uuid) : Nat :=
  ((db.versions.filter fun v => v.fileId = fileId).map FileVersion.versionNo).foldl max 0 + 1

/-- The version row `BeginUpload` inserts. -/
def DB.newVersion (db : DB) (fileId : Uuid) (m : UploadManifest) (gen : Nat → Uuid) :
    FileVersion where
  id := gen 1
  fileId := fileId
  versionNo := db.nextVersionNo fileId
  sizeBytes := m.sizeBytes
  contentSha256 := m.contentSha256
  encryptionMeta := m.encryptionMeta
  chunkSize := m.chunkSize
  ecDataShards := if m.ecData ≤ 0 then 1 else m.ecData
  ecParityShards := m.ecParity
  status := .pending

/-- The INSERT part of `BeginUpload`, from the version row on.  No
`encryption_meta` in the request is a NULL in a NOT NULL column. -/
def DB.insertUpload (db : DB) (file : File) (m : UploadManifest) (gen : Nat → Uuid) :
    Except StoreErr (PlannedUpload × DB) :=
  let version := db.newVersion file.id m gen
  if m.encryptionMeta = [] ∨ ¬ inInt32 m.chunkSize then .error (.query "store.beginUpload")
  else if db.versions.any fun v => v.id = version.id then .error .conflict
  else
    match DB.insertChunks gen version.id
        { db with versions := db.versions ++ [version] } 2 m.chunks with
    | .error e => .error e
    | .ok db' => .ok (db'.loadPlanned file version false, db')

/-- The file row `BeginUpload` inserts. -/
def newFile (m : UploadManifest) (path : Text) (gen : Nat → Uuid) : File where
  id := gen 0
  bucketId := m.bucketId
  path := path
  isFolder := false
  currentVersion := none
  status := .uploading
  deletedAt := none

/-- `BeginUpload`: inserts a pending version, or resumes the one that is there
when the content hash is the same. -/
def DB.beginUpload (db : DB) (ownerId : Uuid) (m : UploadManifest) (gen : Nat → Uuid) :
    Except StoreErr (PlannedUpload × DB) :=
  match normalizePath m.path with
  | .error e => .error e
  | .ok path =>
    match db.bucketById ownerId m.bucketId with
    | .error e => .error e
    | .ok _ =>
      if m.chunkSize ≤ 0 ∨ m.chunks.isEmpty ∨ m.contentSha256.length ≠ 32 then .error .invalid
      else
        match db.liveFileAt m.bucketId path with
        | none =>
          let file := newFile m path gen
          if db.files.any fun f => f.id = file.id then .error .conflict
          else { db with files := db.files ++ [file] }.insertUpload file m gen
        | some file =>
          if file.status = .active ∨ file.isFolder then .error .conflict
          else if file.status = .uploading then
            match db.pendingVersion file.id with
            | some version =>
              if version.contentSha256 = m.contentSha256 then
                .ok (db.loadPlanned file version true, db)
              else .error .conflict
            -- an uploading file whose plan was aborted starts a new version
            | none => db.insertUpload file m gen
          else db.insertUpload file m gen

/-- How `BeginUpload` succeeds: with a new file, with a new version of a file that
has no current one, or by resuming a pending version. -/
inductive DB.Begun (db : DB) (ownerId : Uuid) (m : UploadManifest) (gen : Nat → Uuid) :
    PlannedUpload → DB → Prop
  | newFile {path : Text} {b : Bucket} {planned : PlannedUpload} {db' : DB}
      (clean : normalizePath m.path = .ok path) (owned : db.bucketById ownerId m.bucketId = .ok b)
      (free : db.liveFileAt m.bucketId path = none)
      (fresh : ∀ f ∈ db.files, f.id ≠ gen 0)
      (ok : { db with files := db.files ++ [newFile m path gen] }.insertUpload
        (newFile m path gen) m gen = .ok (planned, db')) : Begun db ownerId m gen planned db'
  | newVersion {path : Text} {b : Bucket} {file : File} {planned : PlannedUpload} {db' : DB}
      (clean : normalizePath m.path = .ok path) (owned : db.bucketById ownerId m.bucketId = .ok b)
      (found : db.liveFileAt m.bucketId path = some file)
      (inactive : file.status ≠ .active) (plain : file.isFolder = false)
      (none_pending : file.status = .uploading → db.pendingVersion file.id = none)
      (ok : db.insertUpload file m gen = .ok (planned, db')) : Begun db ownerId m gen planned db'
  | resumed {path : Text} {b : Bucket} {file : File} {version : FileVersion}
      (clean : normalizePath m.path = .ok path) (owned : db.bucketById ownerId m.bucketId = .ok b)
      (found : db.liveFileAt m.bucketId path = some file) (uploading : file.status = .uploading)
      (pending : db.pendingVersion file.id = some version)
      (same : version.contentSha256 = m.contentSha256) :
      Begun db ownerId m gen (db.loadPlanned file version true) db

theorem DB.beginUpload_inv (begun : db.beginUpload ownerId m gen = .ok (planned, db')) :
    db.Begun ownerId m gen planned db' ∧
      0 < m.chunkSize ∧ m.chunks ≠ [] ∧ m.contentSha256.length = 32 := by
  simp only [beginUpload] at begun
  split at begun
  · cases begun
  rename_i clean
  split at begun
  · cases begun
  rename_i owned
  rw [refuse_eq_ok] at begun
  obtain ⟨valid, begun⟩ := begun
  rw [not_or, not_or, Int.not_le, List.isEmpty_iff, not_not] at valid
  refine ⟨?_, valid⟩
  split at begun
  · rename_i free
    rw [refuse_eq_ok] at begun
    obtain ⟨fresh, begun⟩ := begun
    refine .newFile clean owned free (fun f member same => fresh ?_) begun
    exact any_eq_true.mpr ⟨f, member, decide_eq_true same⟩
  rename_i file found
  rw [refuse_eq_ok] at begun
  obtain ⟨usable, begun⟩ := begun
  rw [not_or, Bool.not_eq_true] at usable
  split at begun
  · rename_i uploading
    split at begun
    · rename_i version pending
      split at begun <;> cases begun
      rename_i same
      exact .resumed clean owned found uploading pending same
    · rename_i none_pending
      exact .newVersion clean owned found usable.1 usable.2 (fun _ => none_pending) begun
  · rename_i notUploading
    exact .newVersion clean owned found usable.1 usable.2 (fun is => absurd is notUploading) begun

/-- What the INSERTs from the version row on have done when they succeed. -/
theorem DB.insertUpload_inv (inserted : db.insertUpload file m gen = .ok (planned, db')) :
    (∀ v ∈ db.versions, v.id ≠ gen 1) ∧
      DB.insertChunks gen (gen 1)
        { db with versions := db.versions ++ [db.newVersion file.id m gen] } 2 m.chunks = .ok db' ∧
      planned = db'.loadPlanned file (db.newVersion file.id m gen) false := by
  simp only [insertUpload, refuse_eq_ok] at inserted
  obtain ⟨-, fresh, inserted⟩ := inserted
  split at inserted <;> cases inserted
  rename_i filled rows
  refine ⟨fun v member same => fresh ?_, rows, rfl⟩
  exact any_eq_true.mpr ⟨v, member, decide_eq_true same⟩

theorem DB.insertUpload_files_versions (inserted : db.insertUpload file m gen = .ok (planned, db'))
    : db'.files = db.files ∧ db'.versions = db.versions ++ [db.newVersion file.id m gen] := by
  obtain ⟨-, rows, -⟩ := DB.insertUpload_inv inserted
  obtain ⟨rfl, -⟩ := DB.insertChunks_rows rows
  exact ⟨rfl, rfl⟩

/-- The fragments of a version, by id. -/
def DB.fragmentOfVersion (db : DB) (versionId fragmentId : Uuid) : Bool :=
  db.fragments.any fun fr => fr.id = fragmentId ∧
    db.chunks.any fun c => c.id = fr.chunkId ∧ c.versionId = versionId

/-- `AbortUpload`: drops pending placements and marks the version aborted when
nothing has been stored. -/
def DB.abortUpload (db : DB) (versionId : Uuid) : DB :=
  let kept := db.placements.filter fun p =>
    !(p.status = .pending ∧ db.fragmentOfVersion versionId p.fragmentId)
  if kept.any fun p => p.status = .stored ∧ db.fragmentOfVersion versionId p.fragmentId then
    { db with placements := kept }
  else
    { db with
      placements := kept
      versions := updateWhere (fun v => v.id = versionId ∧ v.status = .pending)
        (fun v => { v with status := .aborted }) db.versions }

/-! ### Committing -/

/-- `PendingTargetsForVersion`: pending and stored placements of the version, in
table order. -/
def DB.pendingTargetsForVersion (db : DB) (versionId : Uuid) : List PlacementTarget :=
  db.placementTargets.filter fun t =>
    t.placement.live ∧ db.chunks.any fun c => c.id = t.fragment.chunkId ∧ c.versionId = versionId

/-- `scanVersionTx`: the version with its live file, owner-scoped. -/
def DB.scanVersion (db : DB) (ownerId versionId : Uuid) : Except StoreErr (File × FileVersion) :=
  match (innerJoin (fun (v : FileVersion) (f : File) => f.id = v.fileId)
      db.versions db.files).find? fun vf =>
        vf.1.id = versionId ∧ vf.2.deletedAt = none ∧
          db.buckets.any fun b => b.id = vf.2.bucketId ∧ b.ownerId = ownerId with
  | none => .error .notFound
  | some vf => .ok (vf.2, vf.1)

theorem DB.scanVersion_eq_ok :
    db.scanVersion ownerId versionId = .ok (f, v) ↔
      ((innerJoin (fun (v : FileVersion) (f : File) => f.id = v.fileId)
        db.versions db.files).find? fun vf =>
          vf.1.id = versionId ∧ vf.2.deletedAt = none ∧
            db.buckets.any fun b => b.id = vf.2.bucketId ∧ b.ownerId = ownerId) =
        some (v, f) := by
  rw [scanVersion]
  split
  · rename_i missing
    rw [missing]
    simp
  · rename_i vf found
    rw [found]
    simp [Prod.ext_iff, and_comm]

/-- Updates that keep what the scan reads show in its result only. -/
theorem DB.scanVersion_map {db db' : DB} {setFile : File → File}
    {setVersion : FileVersion → FileVersion} (buckets : db'.buckets = db.buckets)
    (files : db'.files = db.files.map setFile)
    (versions : db'.versions = db.versions.map setVersion)
    (keepsFile : ∀ f, (setFile f).id = f.id ∧ (setFile f).deletedAt = f.deletedAt ∧
      (setFile f).bucketId = f.bucketId)
    (keepsVersion : ∀ v, (setVersion v).id = v.id ∧ (setVersion v).fileId = v.fileId)
    (ownerId versionId : Uuid) :
    db'.scanVersion ownerId versionId =
      (db.scanVersion ownerId versionId).map (Prod.map setFile setVersion) := by
  have joined : innerJoin (fun (v : FileVersion) (f : File) => decide (f.id = v.fileId))
      (db.versions.map setVersion) (db.files.map setFile) =
      (innerJoin (fun (v : FileVersion) (f : File) => decide (f.id = v.fileId))
        db.versions db.files).map (Prod.map setVersion setFile) :=
    innerJoin_map (fun v f => by rw [(keepsVersion v).2, (keepsFile f).1]) _ _
  rw [scanVersion, scanVersion, versions, files, joined, find?_map]
  simp only [Function.comp_def, Prod.map_fst, Prod.map_snd, keepsVersion, keepsFile, buckets]
  generalize List.find? _ (innerJoin _ db.versions db.files) = row
  cases row <;> rfl

/-- The version of the id, its live file, and the file's owner. -/
theorem DB.scanVersion_inv (found : db.scanVersion ownerId versionId = .ok (f, v)) :
    v ∈ db.versions ∧ v.id = versionId ∧ f ∈ db.files ∧ f.id = v.fileId ∧ f.deletedAt = none ∧
      ∃ b ∈ db.buckets, b.id = f.bucketId ∧ b.ownerId = ownerId := by
  have row := DB.scanVersion_eq_ok.mp found
  obtain ⟨inVersions, inFiles, joined⟩ := mem_innerJoin.mp (mem_of_find?_eq_some row)
  have checked := find?_some row
  simp only [decide_eq_true_eq, any_eq_true] at checked joined
  exact ⟨inVersions, checked.1, inFiles, joined, checked.2⟩

/-- The chunks of a version that are below the commit threshold.  `count(p.id)`
over the LEFT JOIN on stored placements is the chunk health. -/
def DB.shortChunks (db : DB) (versionId : Uuid) : List Chunk :=
  db.chunks.filter fun c => c.versionId = versionId ∧
    (db.fragments.any fun fr => fr.chunkId = c.id) ∧ db.chunkHealth c.id < commitThreshold

/-- `Store.CommitUpload`: marks the listed fragments' placements stored and
commits the version if no chunk is short.  A refusal rolls back. -/
def DB.commitUpload (db : DB) (ownerId versionId : Uuid) (stored : List Uuid) :
    Except StoreErr ((File × FileVersion) × DB) :=
  match db.scanVersion ownerId versionId with
  | .error e => .error e
  | .ok (f, v) =>
    if v.status = .committed then .ok ((f, v), db)
    else if v.status ≠ .pending then .error .conflict
    else
      let marked := { db with placements := markStored stored db.placements }
      if marked.shortChunks versionId ≠ [] then .error .incomplete
      else
        .ok (({ f with status := .active, currentVersion := some v.id },
            { v with status := .committed }),
          { marked with
            versions := updateWhere (fun v' => v'.id = versionId)
              (fun v' => { v' with status := .committed }) db.versions
            files := updateWhere (fun f' => f'.id = f.id)
              (fun f' => { f' with status := .active, currentVersion := some v.id })
              db.files })

/-- How `Store.CommitUpload` succeeds: the version was committed before and nothing
is written, or it is pending and no chunk stays short. -/
inductive DB.CommittedBy (db : DB) (ownerId versionId : Uuid) (stored : List Uuid) :
    File × FileVersion → DB → Prop
  | already {f : File} {v : FileVersion} (found : db.scanVersion ownerId versionId = .ok (f, v))
      (before : v.status = .committed) : CommittedBy db ownerId versionId stored (f, v) db
  | now {f : File} {v : FileVersion} (found : db.scanVersion ownerId versionId = .ok (f, v))
      (pending : v.status = .pending)
      (enough : { db with
        placements := markStored stored db.placements }.shortChunks versionId = []) :
      CommittedBy db ownerId versionId stored
        ({ f with status := .active, currentVersion := some v.id },
          { v with status := .committed })
        { db with
          placements := markStored stored db.placements
          versions := updateWhere (fun v' => v'.id = versionId)
            (fun v' => { v' with status := .committed }) db.versions
          files := updateWhere (fun f' => f'.id = f.id)
            (fun f' => { f' with status := .active, currentVersion := some v.id }) db.files }

theorem DB.commitUpload_inv {stored : List Uuid} {result : File × FileVersion}
    (committed : db.commitUpload ownerId versionId stored = .ok (result, db')) :
    db.CommittedBy ownerId versionId stored result db' := by
  simp only [commitUpload] at committed
  split at committed
  · cases committed
  rename_i f v found
  split at committed
  · rename_i before
    cases committed
    exact .already found before
  split at committed
  · cases committed
  rename_i pending
  split at committed <;> cases committed
  rename_i enough
  exact .now found (not_not.mp pending) (not_not.mp enough)

/-! ### Downloading -/

/-- A healthy stored placement. -/
structure DownloadPlacement where
  fragment : Fragment
  node : Node
deriving DecidableEq, Repr

/-- A committed chunk plus its stored placements. -/
structure DownloadChunk where
  chunk : Chunk
  placements : List DownloadPlacement
deriving DecidableEq, Repr

/-- `FileByID`. -/
def DB.fileById (db : DB) (ownerId id : Uuid) : Except StoreErr File :=
  match db.files.find? fun f => f.id = id ∧ f.deletedAt = none ∧
      db.buckets.any fun b => b.id = f.bucketId ∧ b.ownerId = ownerId with
  | none => .error .notFound
  | some f => .ok f

theorem DB.fileById_mem {id : Uuid} (found : db.fileById ownerId id = .ok f) :
    f ∈ db.files ∧ f.id = id ∧ f.deletedAt = none ∧
      ∃ b ∈ db.buckets, b.id = f.bucketId ∧ b.ownerId = ownerId := by
  simp only [fileById] at found
  split at found <;> cases found
  rename_i first
  simpa using mem_of_find first

/-- The rows of the download query: chunks joined with fragments, stored
placements and nodes, by `seq` and shard index. -/
def DB.downloadRows (db : DB) (versionId : Uuid) : List (Chunk × DownloadPlacement) :=
  (orderBy seqShardLe
    (innerJoin (fun (c : Chunk) (fr : Fragment) => fr.chunkId = c.id)
      (db.chunks.filter fun c => c.versionId = versionId) db.fragments)).flatMap fun cf =>
    (innerJoin (fun (p : Placement) (n : Node) => n.id = p.nodeId)
      (db.placements.filter fun p => p.fragmentId = cf.2.id ∧ p.status = .stored)
      db.nodes).map fun pn => (cf.1, { fragment := cf.2, node := pn.2 })

/-- One row of the scan loop: `bySeq` keeps the chunk of the first row with a
`seq` and appends the placement to it. -/
def addDownloadRow (acc : List DownloadChunk) (row : Chunk × DownloadPlacement) :
    List DownloadChunk :=
  if acc.any fun dc => dc.chunk.seq = row.1.seq then
    acc.map fun dc =>
      if dc.chunk.seq = row.1.seq then { dc with placements := dc.placements ++ [row.2] } else dc
  else acc ++ [{ chunk := row.1, placements := [row.2] }]

/-- `LoadDownload`. -/
def DB.loadDownload (db : DB) (ownerId fileId : Uuid) :
    Except StoreErr (File × FileVersion × List DownloadChunk) :=
  match db.fileById ownerId fileId with
  | .error e => .error e
  | .ok f =>
    match f.currentVersion with
    | none => .error .notFound
    | some versionId =>
      match db.versions.find? fun v => v.id = versionId ∧ v.status = .committed with
      | none => .error .notFound
      | some v => .ok (f, v, (db.downloadRows v.id).foldl addDownloadRow [])

end StoragePlatform
