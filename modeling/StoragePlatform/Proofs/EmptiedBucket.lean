/-
Module: StoragePlatform.Proofs.EmptiedBucket
Purpose: When a bucket without live files can be deleted, over every run of the users' calls.
Trusted boundary: none
Main exports: UsageDB.Uploaded, TenantMoved.uploaded, UsageDB.Fresh, emptiedDeletes_iff
-/
import StoragePlatform.Proofs.Tenants

namespace StoragePlatform

open Lib List Sample

/-!
DeleteBucket drops the soft-deleted files of the bucket.  A file that was uploaded has a
version, which nothing deletes and which refers to it, so the foreign key refuses to drop it.
Only folders have nothing that refers to them.
-/

/-! ### What refers to a file -/

/-- The id of a file, and whether it is a folder. -/
def File.kind (f : File) : Uuid × Bool := (f.id, f.isFolder)

def DB.kinds (db : DB) : List (Uuid × Bool) := db.files.map File.kind

/-- The files that are no folders are those with a version, and no other file has a ticket
or a receipt. -/
structure UsageDB.Uploaded (s : UsageDB) : Prop where
  keyed : s.db.Keyed
  current : s.db.CurrentOwn
  versions : ∀ id, (id, false) ∈ s.db.kinds ↔ id ∈ s.db.versions.map FileVersion.fileId
  tickets : ∀ t ∈ s.db.downloadTickets, (t.fileId, false) ∈ s.db.kinds
  receipts : ∀ r ∈ s.receipts, (r.fileId, false) ∈ s.db.kinds

namespace UsageDB.Uploaded

variable {s t : UsageDB} {f : File} (uploaded : s.Uploaded)
include uploaded

theorem mem_kinds (member : f ∈ s.db.files) :
    (f.id, false) ∈ s.db.kinds ↔ f.isFolder = false := by
  constructor
  · intro listed
    obtain ⟨g, inFiles, same⟩ := mem_map.mp listed
    obtain ⟨sameId, plain⟩ := Prod.mk.inj same
    rwa [uploaded.keyed.schema.file_pk.eq_of_key inFiles member sameId] at plain
  · intro plain
    exact mem_map.mpr ⟨f, member, by rw [File.kind, plain]⟩

/-- Something refers to a file exactly if it is no folder. -/
theorem refersTo_iff (member : f ∈ s.db.files) :
    s.refersTo f.id = true ↔ f.isFolder = false := by
  rw [← uploaded.mem_kinds member, refersTo]
  simp only [Bool.or_eq_true, any_eq_true, decide_eq_true_eq]
  constructor
  · rintro ((⟨v, inVersions, ofFile⟩ | ⟨ticket, inTickets, ofFile⟩) | ⟨r, inReceipts, ofFile⟩)
    · exact (uploaded.versions f.id).mpr (mem_map.mpr ⟨v, inVersions, ofFile⟩)
    · exact ofFile ▸ uploaded.tickets ticket inTickets
    · exact ofFile ▸ uploaded.receipts r inReceipts
  · intro plain
    obtain ⟨v, inVersions, ofFile⟩ := mem_map.mp ((uploaded.versions f.id).mp plain)
    exact .inl (.inl ⟨v, inVersions, ofFile⟩)

/-! ### What the calls keep -/

/-- A step that adds versions of some files, and besides them no file that is no folder. -/
theorem next (new : List Uuid) (keyed : t.db.Keyed)
    (current : t.db.CurrentOwn)
    (kinds : ∀ id, (id, false) ∈ t.db.kinds ↔ (id, false) ∈ s.db.kinds ∨ id ∈ new)
    (versions : t.db.versions.map FileVersion.fileId =
      s.db.versions.map FileVersion.fileId ++ new)
    (tickets : ∀ k ∈ t.db.downloadTickets, (k.fileId, false) ∈ s.db.kinds)
    (receipts : ∀ r ∈ t.receipts, (r.fileId, false) ∈ s.db.kinds) : t.Uploaded where
  keyed := keyed
  current := current
  versions id := by rw [kinds, versions, mem_append, uploaded.versions id]
  tickets k member := (kinds _).mpr (.inl (tickets k member))
  receipts r member := (kinds _).mpr (.inl (receipts r member))

/-- A step that leaves these columns alone. -/
theorem of_same (keyed : t.db.Keyed) (current : t.db.CurrentOwn)
    (kinds : t.db.kinds = s.db.kinds)
    (versions : t.db.versions.map FileVersion.fileId = s.db.versions.map FileVersion.fileId)
    (tickets : t.db.downloadTickets = s.db.downloadTickets) (receipts : t.receipts = s.receipts) :
    t.Uploaded :=
  uploaded.next [] keyed current (by simp [kinds]) (by simp [versions])
    (tickets ▸ uploaded.tickets) (receipts ▸ uploaded.receipts)

theorem beginUpload {ownerId : Uuid} {m : UploadManifest}
    {gen : Nat → Uuid} {planned : PlannedUpload} {db' : DB} (keyed : db'.Keyed)
    (current : db'.CurrentOwn) (ok : s.db.beginUpload ownerId m gen = .ok (planned, db')) :
    UsageDB.Uploaded { s with db := db' } := by
  have tickets : ∀ k ∈ db'.downloadTickets, (k.fileId, false) ∈ s.db.kinds :=
    (Extends.beginUpload ok).tickets ▸ uploaded.tickets
  cases (DB.beginUpload_inv ok).1 with
  | @newFile path b planned db' clean owned free fresh inserted =>
    obtain ⟨files, versions⟩ := DB.insertUpload_files_versions inserted
    refine uploaded.next [gen 0] keyed current (fun id => ?_) ?_ tickets uploaded.receipts
    · rw [DB.kinds, files, map_append, mem_append, map_singleton, mem_singleton, File.kind, newFile,
        Prod.mk.injEq, and_iff_left rfl, DB.kinds, mem_singleton]
    · rw [versions, map_append]
      rfl
  | @newVersion path b file planned db' clean owned found inactive plain none_pending inserted =>
    obtain ⟨files, versions⟩ := DB.insertUpload_files_versions inserted
    have member : file ∈ s.db.files := mem_of_find?_eq_some found
    refine uploaded.next [file.id] keyed current (fun id => ?_) ?_ tickets uploaded.receipts
    · -- the file is there already, and it is no folder
      rw [DB.kinds, files, ← DB.kinds, mem_singleton]
      refine ⟨.inl, ?_⟩
      rintro (listed | rfl)
      · exact listed
      · exact (uploaded.mem_kinds member).mpr plain
    · rw [versions, map_append]
      rfl
  | resumed => exact uploaded

theorem commitUpload {ownerId versionId : Uuid} {stored : List Uuid}
    {result : File × FileVersion} {db' : DB} (keyed : db'.Keyed) (current : db'.CurrentOwn)
    (committed : s.db.commitUpload ownerId versionId stored = .ok (result, db')) :
    UsageDB.Uploaded { s with db := db' } := by
  cases DB.commitUpload_inv committed with
  | already => exact uploaded
  | now found pending enough =>
    refine uploaded.of_same keyed current ?_ ?_ rfl rfl
    · exact map_updateWhere (by exact fun _ => rfl) _
    · exact map_updateWhere (by exact fun _ => rfl) _

/-- Tickets are written for a file with a current version. -/
theorem planDownload (env : DownloadEnv) (ownerId fileId : Uuid)
    (keyed : (s.db.planDownload env ownerId fileId).2.Keyed)
    (current : (s.db.planDownload env ownerId fileId).2.CurrentOwn) :
    UsageDB.Uploaded { s with db := (s.db.planDownload env ownerId fileId).2 } := by
  obtain ⟨tickets, ofFile, same⟩ := s.db.planDownload_tickets env ownerId fileId
  cases loaded : s.db.loadDownload ownerId fileId with
  | error e =>
    have unplanned : (s.db.planDownload env ownerId fileId).2 = s.db := by
      rw [DB.planDownload, loaded]
    rw [unplanned]
    exact uploaded
  | ok result =>
    have plain : (fileId, false) ∈ s.db.kinds := by
      obtain ⟨member, rfl, versionId, isCurrent⟩ := DB.loadDownload_file loaded
      obtain ⟨v, inVersions, -, ofFile⟩ := uploaded.current _ member versionId isCurrent
      exact (uploaded.versions _).mpr (mem_map.mpr ⟨v, inVersions, ofFile⟩)
    rw [same] at keyed current ⊢
    refine uploaded.next [] keyed current (fun id => by simp [DB.kinds]) (append_nil _).symm
      (fun k member => ?_) uploaded.receipts
    rcases mem_append.mp member with old | new
    · exact uploaded.tickets k old
    · exact ofFile k new ▸ plain

theorem reportDownload (env : ReportEnv) (userId fileId : Uuid)
    (wires : List Text) : (s.reportDownload env userId fileId wires).2.Uploaded := by
  obtain ⟨added, stats, published, ticketed, same⟩ :=
    s.reportDownload_receipts env userId fileId wires
  rw [same]
  refine uploaded.next [] uploaded.keyed uploaded.current (fun id => by simp) (append_nil _).symm
    uploaded.tickets fun r member => ?_
  rcases mem_append.mp member with old | new
  · exact uploaded.receipts r old
  · obtain ⟨ofFile, -, ticket, inTickets, ofTicket⟩ := ticketed r new
    rw [ofFile, ← ofTicket]
    exact uploaded.tickets ticket inTickets

/-- The files that are dropped with a bucket are folders. -/
theorem deleteBucket {ownerId id : Uuid} (keyed : t.db.Keyed)
    (current : t.db.CurrentOwn) (deleted : s.deleteBucket ownerId id = .ok t) : t.Uploaded := by
  obtain ⟨-, free, rfl⟩ := UsageDB.deleteBucket_inv deleted
  have kinds : ∀ fileId, (fileId, false) ∈ (s.db.files.filter fun f =>
      decide ¬ (f.bucketId = id ∧ f.deletedAt ≠ none)).map File.kind ↔
        (fileId, false) ∈ s.db.kinds ∨ fileId ∈ [] := by
    intro fileId
    rw [or_iff_left not_mem_nil]
    refine ⟨fun listed => (filter_sublist.map File.kind).subset listed, fun listed => ?_⟩
    obtain ⟨f, member, same⟩ := mem_map.mp listed
    refine mem_map.mpr ⟨f, mem_filter.mpr ⟨member, decide_eq_true fun gone => ?_⟩, same⟩
    have referred := (uploaded.refersTo_iff member).mpr (Prod.mk.inj same).2
    rw [(free f member gone.1).2] at referred
    cases referred
  exact uploaded.next [] keyed current kinds (append_nil _).symm uploaded.tickets uploaded.receipts

end UsageDB.Uploaded

theorem TenantMoved.uploaded {sigOk : SigCheck} {caller : Uuid} {s t : UsageDB}
    (moved : TenantMoved sigOk caller s t) (uploaded : s.Uploaded) : t.Uploaded := by
  have keyed := moved.keyed uploaded.keyed
  have current := moved.currentOwn uploaded.current
  cases moved with
  | nothing => exact uploaded
  | @folder bucketId id path f db' ok =>
    obtain ⟨-, -, -, isFolder, -, -, -, -, rfl⟩ := DB.createFolder_inv ok
    refine uploaded.next [] keyed current (fun fileId => ?_) (append_nil _).symm uploaded.tickets
      uploaded.receipts
    simp [DB.kinds, File.kind, isFolder]
  | renamed ok =>
    rcases DB.renameFile_inv ok with rfl | ⟨_, _, _, _, _, _, _, _, rfl⟩
    · exact uploaded
    · refine uploaded.of_same keyed current ?_ rfl rfl rfl
      exact map_updateWhere (by exact fun _ => rfl) _
  | deleted =>
    refine uploaded.of_same keyed current ?_ ?_ rfl rfl
    · exact map_updateWhere (by exact fun _ => rfl) _
    · exact map_updateWhere (by exact fun _ => rfl) _
  | begun ok => exact uploaded.beginUpload keyed current ok
  | @aborted versionId owns =>
    have versions : (s.db.abortUpload versionId).versions.map FileVersion.fileId =
        s.db.versions.map FileVersion.fileId := by
      rw [DB.abortUpload]
      split
      · rfl
      · exact map_updateWhere (by exact fun _ => rfl) _
    refine uploaded.of_same keyed current ?_ versions ?_ rfl
    · dsimp only
      rw [DB.abortUpload]
      split <;> rfl
    · dsimp only
      rw [DB.abortUpload]
      split <;> rfl
  | inserted owns ofPlan =>
    obtain ⟨added, next, -, same⟩ := s.db.insertPlacements_rows _
    refine uploaded.of_same keyed current ?_ ?_ ?_ rfl
    · rw [same]
      rfl
    · rw [same]
    · rw [same]
  | committed _ ok => exact uploaded.commitUpload keyed current ok
  | planned env fileId => exact uploaded.planDownload env caller fileId keyed current
  | reported env fileId wires => exact uploaded.reportDownload env caller fileId wires
  | dropped ok => exact uploaded.deleteBucket keyed current ok

/-! ### Deleting a bucket -/

/-- The tables before the first file. -/
structure UsageDB.Fresh (s : UsageDB) : Prop where
  keyed : s.db.Keyed
  files : s.db.files = []
  tickets : s.db.downloadTickets = []
  receipts : s.receipts = []

theorem UsageDB.Fresh.uploaded {s : UsageDB} (fresh : s.Fresh) : s.Uploaded := by
  have versions : s.db.versions = [] := by
    refine eq_nil_iff_forall_not_mem.mpr fun v member => ?_
    obtain ⟨f, inFiles, -⟩ := fresh.keyed.schema.version_file v member
    rw [fresh.files] at inFiles
    exact absurd inFiles not_mem_nil
  refine ⟨fresh.keyed, ?_, fun id => ?_, ?_, ?_⟩
  · intro f member
    rw [fresh.files] at member
    exact absurd member not_mem_nil
  · simp [DB.kinds, fresh.files, versions]
  · rw [fresh.tickets]
    exact fun ticket member => absurd member not_mem_nil
  · rw [fresh.receipts]
    exact fun r member => absurd member not_mem_nil

/-- A call of some user. -/
def callStep (sigOk : SigCheck) (s : UsageDB) (call : Uuid × TenantOp) : Option UsageDB :=
  tenantStep sigOk call.1 s call.2

/-- The owner can delete the bucket exactly if it has no live file, and a call that does not
delete it changes nothing. -/
structure EmptiedDeletes (sigOk : SigCheck) (s : UsageDB) (ownerId id : Uuid) : Prop where
  succeeds : (∃ s', s.deleteBucket ownerId id = .ok s') ↔
    ∀ f ∈ s.db.files, f.bucketId = id → f.deletedAt ≠ none
  unchanged : (∀ s', s.deleteBucket ownerId id ≠ .ok s') →
    tenantStep sigOk ownerId s (.deleteBucket id) = some s

theorem UsageDB.deleteBucket_ok_iff {s : UsageDB} (uploaded : s.Uploaded) {ownerId id : Uuid}
    {b : Bucket} (owned : s.db.bucketById ownerId id = .ok b) :
    (∃ s', s.deleteBucket ownerId id = .ok s') ↔
      ∀ f ∈ s.db.files, f.bucketId = id → f.deletedAt ≠ none ∧ f.isFolder = true := by
  constructor
  · rintro ⟨s', deleted⟩ f member ofBucket
    obtain ⟨-, free, -⟩ := UsageDB.deleteBucket_inv deleted
    obtain ⟨dead, unreferred⟩ := free f member ofBucket
    refine ⟨dead, Bool.eq_true_of_not_eq_false fun plain => ?_⟩
    rw [(uploaded.refersTo_iff member).mpr plain] at unreferred
    cases unreferred
  · intro folders
    have empty : (s.db.files.any fun f => f.bucketId = id ∧ f.deletedAt = none) = false := by
      refine any_eq_false.mpr fun f member live => ?_
      rw [decide_eq_true_eq] at live
      exact (folders f member live.1).1 live.2
    have free : (s.db.files.any fun f => f.bucketId = id ∧ f.deletedAt ≠ none ∧
        s.refersTo f.id) = false := by
      refine any_eq_false.mpr fun f member referred => ?_
      rw [decide_eq_true_eq] at referred
      have plain := (uploaded.refersTo_iff member).mp referred.2.2
      rw [(folders f member referred.1).2] at plain
      cases plain
    rw [deleteBucket, owned]
    dsimp only
    rw [empty, free]
    exact ⟨_, rfl⟩

/-- After any calls of any users, deleting an emptied bucket works exactly if the bucket has a
live file or has never had anything but folders. -/
theorem emptiedDeletes_iff {sigOk : SigCheck} {start s : UsageDB} {calls : List (Uuid × TenantOp)}
    {ownerId id : Uuid} {b : Bucket} (fresh : start.Fresh)
    (run : exec (callStep sigOk) start calls = some s)
    (owned : s.db.bucketById ownerId id = .ok b) :
    EmptiedDeletes sigOk s ownerId id ↔
      (∃ f ∈ s.db.files, f.bucketId = id ∧ f.deletedAt = none) ∨
        ∀ f ∈ s.db.files, f.bucketId = id → f.isFolder = true := by
  have uploaded : s.Uploaded := exec_induction (I := UsageDB.Uploaded)
    (fun s call t inside moved => (tenantStep_inv moved).uploaded inside) fresh.uploaded run
  have succeeds := UsageDB.deleteBucket_ok_iff uploaded owned
  constructor
  · intro works
    by_cases empty : ∀ f ∈ s.db.files, f.bucketId = id → f.deletedAt ≠ none
    · exact .inr fun f member ofBucket =>
        (succeeds.mp (works.succeeds.mpr empty) f member ofBucket).2
    · push Not at empty
      exact .inl empty
  · intro allowed
    refine ⟨succeeds.trans ⟨fun both f member ofBucket => (both f member ofBucket).1, ?_⟩, ?_⟩
    · intro empty f member ofBucket
      refine ⟨empty f member ofBucket, ?_⟩
      rcases allowed with ⟨g, inFiles, inBucket, live⟩ | folders
      · exact absurd live (empty g inFiles inBucket)
      · exact folders f member ofBucket
    · intro refused
      rw [tenantStep]
      cases outcome : s.deleteBucket ownerId id with
      | error e => rfl
      | ok s' => exact absurd outcome (refused s')

namespace Sample

/-- User 1 has a bucket. -/
def newBucket : UsageDB where
  db := { DB.empty with buckets := [bucket] }
  receipts := []
  stats := []
  published := []

theorem newBucket_fresh : newBucket.Fresh := by
  refine ⟨⟨?_, by simp [newBucket, UniqueOn]⟩, rfl, rfl, rfl⟩
  exact { DB.Schema.empty with }

/-- A folder is created and deleted. -/
def folderCalls : List (Uuid × TenantOp) :=
  [(bucket.ownerId, .createFolder bucket.id ['/', 'f'] 40),
    (bucket.ownerId, .softDeleteFile 40 7)]

/-- A file is uploaded and deleted. -/
def fileCalls : List (Uuid × TenantOp) :=
  [(bucket.ownerId, .beginUpload manifest fun i => BitVec.ofNat 128 (40 + i)),
    (bucket.ownerId, .softDeleteFile 40 7)]

end Sample

theorem folders_deleted : ∃ s, exec (callStep toySig) newBucket folderCalls = some s ∧
    (∃ f ∈ s.db.files, f.bucketId = bucket.id) ∧
    EmptiedDeletes toySig s owner bucket.id := by
  have reached : ∃ s, exec (callStep toySig) newBucket folderCalls = some s ∧
      (s.db.bucketById owner bucket.id).toOption = some bucket ∧
      (∃ f ∈ s.db.files, f.bucketId = bucket.id) ∧
      ∀ f ∈ s.db.files, f.bucketId = bucket.id → f.isFolder = true := by
    decide +kernel
  obtain ⟨s, run, owned, file, folders⟩ := reached
  refine ⟨s, run, file, ?_⟩
  exact (emptiedDeletes_iff newBucket_fresh run (eq_ok_of_toOption owned)).mpr (.inr folders)

/-- The uploaded file is deleted and the bucket is empty, and it cannot be deleted. -/
theorem uploads_not_deleted :
    ∃ s, exec (callStep toySig) newBucket fileCalls = some s ∧
      (∃ f ∈ s.db.files, f.bucketId = bucket.id) ∧
      (∀ f ∈ s.db.files, f.bucketId = bucket.id → f.deletedAt ≠ none) ∧
      ¬ EmptiedDeletes toySig s owner bucket.id := by
  have reached : ∃ s, exec (callStep toySig) newBucket fileCalls = some s ∧
      (∃ f ∈ s.db.files, f.bucketId = bucket.id) ∧
      (∀ f ∈ s.db.files, f.bucketId = bucket.id → f.deletedAt ≠ none) ∧
      (s.deleteBucket owner bucket.id).toOption = none := by
    decide +kernel
  obtain ⟨s, run, file, empty, refused⟩ := reached
  refine ⟨s, run, file, empty, fun works => ?_⟩
  obtain ⟨s', deleted⟩ := works.succeeds.mpr empty
  rw [deleted] at refused
  cases refused

end StoragePlatform
