/-
Module: StoragePlatform.Proofs.Tenants
Purpose: Isolation of the users from one another: what the operations of one user leave
  of another's rows, and what they show of them.
Trusted boundary: none
Main exports: DB.Keyed, TenantFrame, TenantFrame.rows, TenantMoved, tenants_isolated
-/
import StoragePlatform.Metadata.Tenants
import StoragePlatform.Proofs.Download
import StoragePlatform.Proofs.Owners
import StoragePlatform.Proofs.Report

namespace StoragePlatform

open Lib List Sample

variable {db' : DB} {f : File} {t : UsageDB} {other : Uuid}

variable {b : Bucket} {v : FileVersion} {id caller fileId versionId fragmentId : Uuid}
variable {db : DB} {m : UploadManifest} {gen : Nat → Uuid} {planned : PlannedUpload}
variable {sigOk : SigCheck} {targets : List PlacementTarget} {wires : List Text} {s s' : UsageDB}

/-! ### The other user's keys -/

/-- The keys that the tables declare, those of `buckets` included. -/
structure DB.Keyed (db : DB) : Prop where
  schema : db.Schema
  bucket_pk : UniqueOn Bucket.id db.buckets

section Keys

/-! A row is foreign to a user when the row it refers to is. -/

variable {userId : Uuid} (keyed : db.Keyed)

include keyed

theorem DB.bucket_foreign (member : b ∈ db.buckets) (other : b.ownerId ≠ userId) :
    b.id ∉ (db.tenantBuckets userId).map Bucket.id := by
  rw [tenantBuckets, keyed.bucket_pk.mem_filter_keys member, decide_eq_true_eq]
  exact other

theorem DB.file_foreign (member : f ∈ db.files)
    (foreign : f.bucketId ∉ (db.tenantBuckets userId).map Bucket.id) :
    f.id ∉ (db.tenantFiles userId).map File.id := by
  rw [tenantFiles, keyed.schema.file_pk.mem_filter_keys member, decide_eq_true_eq]
  exact foreign

theorem DB.version_foreign (member : v ∈ db.versions)
    (foreign : v.fileId ∉ (db.tenantFiles userId).map File.id) :
    v.id ∉ (db.tenantVersions userId).map FileVersion.id := by
  rw [tenantVersions, keyed.schema.version_pk.mem_filter_keys member, decide_eq_true_eq]
  exact foreign

theorem DB.chunk_foreign {c : Chunk} (member : c ∈ db.chunks)
    (foreign : c.versionId ∉ (db.tenantVersions userId).map FileVersion.id) :
    c.id ∉ (db.tenantChunks userId).map Chunk.id := by
  rw [tenantChunks, keyed.schema.chunk_pk.mem_filter_keys member, decide_eq_true_eq]
  exact foreign

theorem DB.fragment_foreign {fr : Fragment} (member : fr ∈ db.fragments)
    (foreign : fr.chunkId ∉ (db.tenantChunks userId).map Chunk.id) :
    fr.id ∉ (db.tenantFragments userId).map Fragment.id := by
  rw [tenantFragments, keyed.schema.fragment_pk.mem_filter_keys member, decide_eq_true_eq]
  exact foreign

theorem DB.fragmentOf_foreign {sel : File → Bool} (outside : ∀ f ∈ db.files, sel f = true →
      f.bucketId ∉ (db.tenantBuckets userId).map Bucket.id)
    (selected : db.fragmentOf sel fragmentId = true) :
    fragmentId ∉ (db.tenantFragments userId).map Fragment.id := by
  obtain ⟨fr, inFragments, c, inChunks, v, inVersions, f, inFiles, rfl, ofChunk, ofVersion, ofFile,
    chosen⟩ := fragmentOf_iff.mp selected
  have file := file_foreign keyed inFiles (outside f inFiles chosen)
  have version := version_foreign keyed inVersions (ofFile ▸ file)
  have chunk := chunk_foreign keyed inChunks (ofVersion ▸ version)
  exact fragment_foreign keyed inFragments (ofChunk ▸ chunk)

theorem DB.fragmentOfVersion_foreign
    (foreign : versionId ∉ (db.tenantVersions userId).map FileVersion.id)
    (ofVersion : db.fragmentOfVersion versionId fragmentId = true) :
    fragmentId ∉ (db.tenantFragments userId).map Fragment.id := by
  simp only [fragmentOfVersion, any_eq_true, decide_eq_true_eq] at ofVersion
  obtain ⟨fr, inFragments, rfl, c, inChunks, ofChunk, rfl⟩ := ofVersion
  have chunk := chunk_foreign keyed inChunks foreign
  exact fragment_foreign keyed inFragments (ofChunk ▸ chunk)

/-! ### What is the caller's is foreign to the other -/

/-- A file that is renamed or deleted along with one of the caller's is in the same
bucket. -/
theorem DB.inDelete_foreign {g : File} (inFiles : f ∈ db.files)
    (foreign : f.bucketId ∉ (db.tenantBuckets other).map Bucket.id) (inFiles' : g ∈ db.files)
    (along : f.inDelete g = true) : g.bucketId ∉ (db.tenantBuckets other).map Bucket.id := by
  rw [File.inDelete] at along
  split at along
  · rw [(of_decide_eq_true along).1]
    exact foreign
  · rw [keyed.schema.file_pk.eq_of_key inFiles' inFiles (of_decide_eq_true along)]
    exact foreign

variable (distinct : caller ≠ other)

include distinct

theorem DB.bucketById_foreign
    (found : db.bucketById caller id = .ok b) : id ∉ (db.tenantBuckets other).map Bucket.id := by
  obtain ⟨member, rfl, owned⟩ := bucketById_mem found
  exact bucket_foreign keyed member (owned ▸ distinct)

theorem DB.fileById_foreign (found : db.fileById caller id = .ok f) :
    f ∈ db.files ∧ f.id = id ∧ f.bucketId ∉ (db.tenantBuckets other).map Bucket.id := by
  obtain ⟨member, named, -, b, inBuckets, ofBucket, ofUser⟩ := fileById_mem found
  refine ⟨member, named, ?_⟩
  exact ofBucket ▸ bucket_foreign keyed inBuckets (ofUser ▸ distinct)

theorem DB.ownsVersion_foreign (owns : db.ownsVersion caller versionId = true) :
    versionId ∉ (db.tenantVersions other).map FileVersion.id := by
  obtain ⟨v, ownVersion, rfl⟩ := mem_map.mp (of_decide_eq_true owns)
  obtain ⟨inVersions, ofFile⟩ := mem_filter.mp ownVersion
  obtain ⟨f, ownFile, sameFile⟩ := mem_map.mp (of_decide_eq_true ofFile)
  obtain ⟨inFiles, ofBucket⟩ := mem_filter.mp ownFile
  obtain ⟨b, ownBucket, sameBucket⟩ := mem_map.mp (of_decide_eq_true ofBucket)
  obtain ⟨inBuckets, owned⟩ := mem_filter.mp ownBucket
  have bucket : b.id ∉ (db.tenantBuckets other).map Bucket.id :=
    bucket_foreign keyed inBuckets (of_decide_eq_true owned ▸ distinct)
  have file := file_foreign keyed inFiles (sameBucket ▸ bucket)
  exact version_foreign keyed inVersions (sameFile ▸ file)

end Keys

/-! ### The frame -/

/-- The rows of a user are the same after as before, table by table. -/
structure TenantFrame (userId : Uuid) (s t : UsageDB) : Prop where
  buckets : SameOn (fun b => b.ownerId = userId) s.db.buckets t.db.buckets
  files : SameOn (fun f => f.bucketId ∈ (s.db.tenantBuckets userId).map Bucket.id)
    s.db.files t.db.files
  versions : SameOn (fun v => v.fileId ∈ (s.db.tenantFiles userId).map File.id)
    s.db.versions t.db.versions
  chunks : SameOn (fun c => c.versionId ∈ (s.db.tenantVersions userId).map FileVersion.id)
    s.db.chunks t.db.chunks
  fragments : SameOn (fun fr => fr.chunkId ∈ (s.db.tenantChunks userId).map Chunk.id)
    s.db.fragments t.db.fragments
  placements : SameOn (fun p => p.fragmentId ∈ (s.db.tenantFragments userId).map Fragment.id)
    s.db.placements t.db.placements
  receipts : SameOn (fun r => r.fileId ∈ (s.db.tenantFiles userId).map File.id)
    s.receipts t.receipts

namespace TenantFrame

variable {userId : Uuid}

theorem refl (userId : Uuid) (s : UsageDB) : TenantFrame userId s s where
  buckets := .refl _ _
  files := .refl _ _
  versions := .refl _ _
  chunks := .refl _ _
  fragments := .refl _ _
  placements := .refl _ _
  receipts := .refl _ _

/-- The keys of each table select the rows of the next, so all of them are the same. -/
theorem rows (frame : TenantFrame userId s t) : t.tenantRows userId = s.tenantRows userId := by
  have buckets : t.db.tenantBuckets userId = s.db.tenantBuckets userId := frame.buckets
  have files : t.db.tenantFiles userId = s.db.tenantFiles userId := by
    rw [DB.tenantFiles, buckets]
    exact frame.files
  have versions : t.db.tenantVersions userId = s.db.tenantVersions userId := by
    rw [DB.tenantVersions, files]
    exact frame.versions
  have chunks : t.db.tenantChunks userId = s.db.tenantChunks userId := by
    rw [DB.tenantChunks, versions]
    exact frame.chunks
  have fragments : t.db.tenantFragments userId = s.db.tenantFragments userId := by
    rw [DB.tenantFragments, chunks]
    exact frame.fragments
  have placements : t.db.tenantPlacements userId = s.db.tenantPlacements userId := by
    rw [DB.tenantPlacements, fragments]
    exact frame.placements
  have receipts : t.tenantReceipts userId = s.tenantReceipts userId := by
    rw [UsageDB.tenantReceipts, files]
    exact frame.receipts
  rw [UsageDB.tenantRows, buckets, files, versions, chunks, fragments, placements, receipts]
  rfl

end TenantFrame

section Operations

/-- A new version of a file that is not the other's, with its chunks and fragments. -/
theorem TenantFrame.insertUpload {files : List File} {file : File}
    (inserted : { s.db with files := files }.insertUpload file m gen = .ok (planned, db'))
    (after : db'.Schema) (foreign : file.id ∉ (s.db.tenantFiles other).map File.id)
    (sameFiles : SameOn (fun f => f.bucketId ∈ (s.db.tenantBuckets other).map Bucket.id)
      s.db.files files) : TenantFrame other s { s with db := db' } := by
  obtain ⟨newId, rows, -⟩ := DB.insertUpload_inv inserted
  obtain ⟨rfl, -⟩ := DB.insertChunks_rows rows
  refine
    { refl other s with
      files := sameFiles
      versions := .append _ fun v member => ?_
      chunks := .append _ fun c member => ?_
      fragments := .append _ fun fr member => ?_ }
  · rw [mem_singleton.mp member]
    exact decide_eq_false foreign
  · obtain ⟨row, inRows, rfl⟩ := mem_map.mp member
    rw [(mem_chunkRows inRows).1]
    refine decide_eq_false fun listed => ?_
    obtain ⟨v, owned, same⟩ := mem_map.mp listed
    exact newId v (mem_filter.mp owned).1 same
  · obtain ⟨row, inRows, inRow⟩ := mem_flatMap.mp member
    rw [(mem_chunkRows inRows).2.1 fr inRow]
    refine decide_eq_false fun listed => ?_
    obtain ⟨c, owned, same⟩ := mem_map.mp listed
    -- the keys of the new chunks are not those of the old
    have keys := after.chunk_pk
    rw [UniqueOn, map_append, nodup_append] at keys
    exact keys.2.2 c.id (mem_map_of_mem (mem_filter.mp owned).1) row.1.id
      (mem_map_of_mem (mem_map_of_mem inRows)) same

theorem TenantFrame.planDownload (env : DownloadEnv) (fileId : Uuid) :
    TenantFrame other s { s with db := (s.db.planDownload env caller fileId).2 } := by
  obtain ⟨tickets, -, same⟩ := s.db.planDownload_tickets env caller fileId
  rw [same]
  exact { refl other s with }

theorem DB.insertPlacements_rows (db : DB) (pairs : List (Uuid × Uuid)) :
    ∃ (added : List Placement) (next : Nat), (∀ p ∈ added, ∃ pair ∈ pairs, p.fragmentId = pair.1) ∧
      (db.insertPlacements pairs).2 =
        { db with placements := db.placements ++ added, nextPlacementId := next } := by
  induction pairs generalizing db with
  | nil => exact ⟨[], db.nextPlacementId, by simp, by simp [insertPlacements]⟩
  | cons pair pairs ih =>
    simp only [insertPlacements]
    split
    · exact ⟨[], db.nextPlacementId, by simp, by simp⟩
    rename_i db₁ first
    obtain ⟨added, next, named, same⟩ := ih db₁
    rw [same]
    simp only [insertPlacement] at first
    split at first
    · cases first
    split at first
    · cases first
      refine ⟨added, next, fun p member => ?_, rfl⟩
      obtain ⟨pair', inPairs, sameId⟩ := named p member
      exact ⟨pair', mem_cons_of_mem _ inPairs, sameId⟩
    · cases first
      refine ⟨_ :: added, next, fun p member => ?_, by rw [append_assoc]; rfl⟩
      rcases mem_cons.mp member with rfl | later
      · exact ⟨pair, mem_cons_self, rfl⟩
      · obtain ⟨pair', inPairs, sameId⟩ := named p later
        exact ⟨pair', mem_cons_of_mem _ inPairs, sameId⟩

/-- What the receipts of a commit mark are fragments of the version. -/
theorem DB.uploadReceipts_ofVersion {stored : List Uuid}
    (order : targets.Perm (db.pendingTargetsForVersion versionId))
    (matched : uploadReceipts sigOk targets wires = .ok stored) :
    ∀ fragmentId ∈ stored, db.fragmentOfVersion versionId fragmentId = true := by
  have ofTarget : ∀ t ∈ targets, db.fragmentOfVersion versionId t.fragment.id = true := by
    intro t member
    obtain ⟨inTargets, live⟩ := mem_filter.mp (order.subset member)
    simp only [decide_eq_true_eq, any_eq_true] at live
    obtain ⟨-, c, inChunks, ofChunk, ofVersion⟩ := live
    obtain ⟨-, inFragments, -⟩ := mem_placementTargets.mp inTargets
    simp only [fragmentOfVersion, any_eq_true, decide_eq_true_eq]
    exact ⟨t.fragment, inFragments, rfl, c, inChunks, ofChunk, ofVersion⟩
  obtain ⟨accepted, found, rfl⟩ := uploadReceipts_ok matched
  intro fragmentId member
  rcases mem_append.mp member with before | new
  · obtain ⟨t, isStored, rfl⟩ := mem_map.mp before
    exact ofTarget t (mem_filter.mp isStored).1
  · obtain ⟨t, inMap, rfl, -⟩ := acceptReceipts_sound found fragmentId new
    exact ofTarget t (mem_of_mem_byFragment inMap)

/-- A report only adds receipts, and only for a file of the caller that has tickets. -/
theorem UsageDB.reportDownload_receipts (s : UsageDB) (env : ReportEnv) (userId fileId : Uuid)
    (wires : List Text) : ∃ added stats published,
      (∀ r ∈ added, r.fileId = fileId ∧ (∃ f, s.db.fileById userId fileId = .ok f) ∧
        ∃ t ∈ s.db.downloadTickets, t.fileId = fileId) ∧
      (s.reportDownload env userId fileId wires).2 =
        { s with receipts := s.receipts ++ added, stats := stats, published := published } := by
  rw [reportDownload]
  split
  · exact ⟨[], s.stats, s.published, forall_mem_nil _, by simp⟩
  rename_i f found
  obtain ⟨⟨added, same, named, -⟩, -⟩ :=
    @reportWires_spec env s s userId fileId [] (InLoop.start s) 0 wires
  have ticketed : ∀ r ∈ added, r.fileId = fileId ∧ (∃ f, s.db.fileById userId fileId = .ok f) ∧
      ∃ t ∈ s.db.downloadTickets, t.fileId = fileId := by
    intro r member
    obtain ⟨wire, rec_, j, accepted, row⟩ := named r member
    obtain ⟨t, got, -, -, -, checked⟩ := verified_of_acceptable accepted
    exact ⟨row.fileId, ⟨f, found⟩, t, checked.ticket, checked.sameFile⟩
  split <;> rename_i ran <;> rw [ran] at same <;> obtain rfl := same
  · exact ⟨added, s.stats, s.published, ticketed, rfl⟩
  · obtain ⟨stats, metered⟩ := UsageDB.meterEgress_frame { s with receipts := s.receipts ++ added }
      env userId fileId _
    exact ⟨added, stats, _, ticketed, metered⟩

/-- A report writes to none of the tables of the placement map. -/
theorem UsageDB.reportDownload_db (s : UsageDB) (env : ReportEnv) (userId fileId : Uuid)
    (wires : List Text) : (s.reportDownload env userId fileId wires).2.db = s.db := by
  obtain ⟨added, stats, published, -, same⟩ := s.reportDownload_receipts env userId fileId wires
  rw [same]

variable (keyed : s.db.Keyed) (distinct : caller ≠ other)

include keyed distinct

theorem TenantFrame.createFolder {bucketId id : Uuid} {path : Text}
    (created : s.db.createFolder caller bucketId path id = .ok (f, db')) :
    TenantFrame other s { s with db := db' } := by
  obtain ⟨⟨b, found⟩, ofBucket, -, -, -, -, -, -, rfl⟩ := DB.createFolder_inv created
  refine { refl other s with files := .append _ fun g member => ?_ }
  rw [mem_singleton.mp member, ofBucket, decide_eq_false_iff_not]
  exact DB.bucketById_foreign keyed distinct found

theorem TenantFrame.renameFile {fileId : Uuid} {newPath : Text} {order : List Uuid}
    (renamed : s.db.renameFile caller fileId newPath order = .ok (f, db')) :
    TenantFrame other s { s with db := db' } := by
  rcases DB.renameFile_inv renamed with rfl | ⟨g, _, _, _, _, found, _, within, rfl⟩
  · exact refl other s
  obtain ⟨inFiles, -, foreign⟩ := DB.fileById_foreign keyed distinct found
  refine { refl other s with files := .updateWhere (fun _ => rfl) fun h inFiles' chosen => ?_ }
  rw [decide_eq_false_iff_not]
  rcases within h chosen with same | same
  · rwa [same]
  · rwa [keyed.schema.file_pk.eq_of_key inFiles' inFiles same]

theorem TenantFrame.softDeleteTx {now : Time} (found : s.db.fileById caller fileId = .ok f) :
    TenantFrame other s { s with db := s.db.softDeleteTx f now } := by
  obtain ⟨inFiles, -, foreign⟩ := DB.fileById_foreign keyed distinct found
  have along : ∀ g ∈ s.db.files, f.inDelete g = true →
      g.bucketId ∉ (s.db.tenantBuckets other).map Bucket.id :=
    fun g inFiles' => DB.inDelete_foreign keyed inFiles foreign inFiles'
  refine
    { refl other s with
      files := .updateWhere (fun _ => rfl) fun g inFiles' chosen => ?_
      versions := .updateWhere (fun _ => rfl) fun v _ chosen => ?_
      placements := .updateWhere (fun _ => rfl) fun p _ chosen => ?_ }
  · exact decide_eq_false (along g inFiles' (of_decide_eq_true chosen).1)
  · have ofFile := (of_decide_eq_true chosen).2
    simp only [DB.versionOf, any_eq_true, decide_eq_true_eq] at ofFile
    obtain ⟨g, inFiles', same, deleted⟩ := ofFile
    exact decide_eq_false (same ▸ DB.file_foreign keyed inFiles' (along g inFiles' deleted))
  · exact decide_eq_false (DB.fragmentOf_foreign keyed along (of_decide_eq_true chosen).2)

theorem TenantFrame.beginUpload
    (begun : s.db.beginUpload caller m gen = .ok (planned, db')) :
    TenantFrame other s { s with db := db' } := by
  have after := keyed.schema.beginUpload begun
  cases (DB.beginUpload_inv begun).1 with
  | newFile clean owned free fresh ok =>
    refine insertUpload ok after ?_ (.append _ fun f member => ?_)
    · intro listed
      obtain ⟨f, isOwn, same⟩ := mem_map.mp listed
      exact fresh f (mem_filter.mp isOwn).1 same
    · rw [mem_singleton.mp member]
      exact decide_eq_false (DB.bucketById_foreign keyed distinct owned)
  | newVersion clean owned found inactive plain none_pending ok =>
    refine insertUpload ok after ?_ (.refl _ _)
    have here := find?_some found
    rw [decide_eq_true_eq] at here
    refine DB.file_foreign keyed (mem_of_find?_eq_some found) ?_
    rw [here.1]
    exact DB.bucketById_foreign keyed distinct owned
  | resumed => exact refl other s

theorem TenantFrame.abortUpload
    (owns : s.db.ownsVersion caller versionId = true) :
    TenantFrame other s { s with db := s.db.abortUpload versionId } := by
  have foreign := DB.ownsVersion_foreign keyed distinct owns
  have placements : SameOn
      (fun p : Placement => p.fragmentId ∈ (s.db.tenantFragments other).map Fragment.id)
      s.db.placements (s.db.placements.filter fun p =>
        !(p.status = .pending ∧ s.db.fragmentOfVersion versionId p.fragmentId)) := by
    refine .filter fun p _ dropped => decide_eq_false ?_
    have pending := of_decide_eq_true ((Bool.not_eq_false' _).mp dropped)
    exact DB.fragmentOfVersion_foreign keyed foreign pending.2
  rw [DB.abortUpload]
  split
  · exact { refl other s with placements := placements }
  · refine
      { refl other s with
        placements := placements
        versions := .updateWhere (fun _ => rfl) fun v member chosen => decide_eq_false ?_ }
    rw [← (of_decide_eq_true chosen).1] at foreign
    intro owned
    exact foreign (mem_map_of_mem (mem_filter.mpr ⟨member, decide_eq_true owned⟩))

theorem TenantFrame.insertPlacements {versionId : Uuid} {pairs : List (Uuid × Uuid)}
    (owns : s.db.ownsVersion caller versionId = true)
    (ofPlan : ∀ pair ∈ pairs, s.db.fragmentOfVersion versionId pair.1 = true) :
    TenantFrame other s { s with db := (s.db.insertPlacements pairs).2 } := by
  have foreign := DB.ownsVersion_foreign keyed distinct owns
  obtain ⟨added, next, named, same⟩ := s.db.insertPlacements_rows pairs
  rw [same]
  refine { refl other s with placements := .append _ fun p member => decide_eq_false ?_ }
  obtain ⟨pair, inPairs, sameId⟩ := named p member
  rw [sameId]
  exact DB.fragmentOfVersion_foreign keyed foreign (ofPlan pair inPairs)

theorem TenantFrame.commitUpload {result : File × FileVersion} {stored : List Uuid}
    (ofVersion : ∀ fragmentId ∈ stored, s.db.fragmentOfVersion versionId fragmentId = true)
    (committed : s.db.commitUpload caller versionId stored = .ok (result, db')) :
    TenantFrame other s { s with db := db' } := by
  cases DB.commitUpload_inv committed with
  | already => exact refl other s
  | @now f v found pending enough =>
    obtain ⟨inVersions, rfl, inFiles, ofFile, -, b, inBuckets, ofBucket, ofUser⟩ :=
      DB.scanVersion_inv found
    have bucket : b.id ∉ (s.db.tenantBuckets other).map Bucket.id :=
      DB.bucket_foreign keyed inBuckets (ofUser ▸ distinct)
    have file : f.id ∉ (s.db.tenantFiles other).map File.id :=
      DB.file_foreign keyed inFiles (ofBucket ▸ bucket)
    have version := DB.version_foreign keyed inVersions (ofFile ▸ file)
    refine
      { refl other s with
        files := .updateWhere (fun _ => rfl) fun f' inFiles' chosen => decide_eq_false ?_
        versions := .updateWhere (fun _ => rfl) fun v' inVersions' chosen =>
          decide_eq_false ?_
        placements := ?_ }
    · rw [keyed.schema.file_pk.eq_of_key inFiles' inFiles (of_decide_eq_true chosen), ← ofBucket]
      exact bucket
    · rw [keyed.schema.version_pk.eq_of_key inVersions' inVersions (of_decide_eq_true chosen),
        ← ofFile]
      exact file
    · dsimp only
      rw [markStored_eq]
      refine .updateWhere (fun _ => rfl) fun p _ chosen => decide_eq_false ?_
      exact DB.fragmentOfVersion_foreign keyed version (ofVersion _ (of_decide_eq_true chosen).2)

theorem TenantFrame.reportDownload (env : ReportEnv) (fileId : Uuid) (wires : List Text) :
    TenantFrame other s (s.reportDownload env caller fileId wires).2 := by
  obtain ⟨added, stats, published, named, same⟩ :=
    s.reportDownload_receipts env caller fileId wires
  rw [same]
  refine { refl other s with receipts := .append _ fun r member => decide_eq_false ?_ }
  obtain ⟨ofFile, ⟨f, found⟩, -⟩ := named r member
  obtain ⟨inFiles, rfl, foreign⟩ := DB.fileById_foreign keyed distinct found
  rw [ofFile]
  exact DB.file_foreign keyed inFiles foreign

theorem TenantFrame.deleteBucket (deleted : s.deleteBucket caller id = .ok s') :
    TenantFrame other s s' := by
  obtain ⟨⟨b, found⟩, -, rfl⟩ := UsageDB.deleteBucket_inv deleted
  have foreign := DB.bucketById_foreign keyed distinct found
  refine
    { refl other s with
      buckets := .filter fun b' _ dropped => decide_eq_false ?_
      files := .filter fun f _ dropped => decide_eq_false ?_ }
  · have gone := not_not.mp (of_decide_eq_false dropped)
    rw [gone.2]
    exact distinct
  · have gone := not_not.mp (of_decide_eq_false dropped)
    rw [gone.1]
    exact foreign

end Operations

/-- What an operation of the caller has done when it ends. -/
inductive TenantMoved (sigOk : SigCheck) (caller : Uuid) (s : UsageDB) : UsageDB → Prop
  | nothing : TenantMoved sigOk caller s s
  | folder {bucketId id : Uuid} {path : Text} {f : File} {db' : DB}
      (ok : s.db.createFolder caller bucketId path id = .ok (f, db')) :
      TenantMoved sigOk caller s { s with db := db' }
  | renamed {fileId : Uuid} {newPath : Text} {order : List Uuid} {f : File} {db' : DB}
      (ok : s.db.renameFile caller fileId newPath order = .ok (f, db')) :
      TenantMoved sigOk caller s { s with db := db' }
  | deleted {fileId : Uuid} {now : Time} {f : File} (found : s.db.fileById caller fileId = .ok f) :
      TenantMoved sigOk caller s { s with db := s.db.softDeleteTx f now }
  | begun {m : UploadManifest} {gen : Nat → Uuid} {planned : PlannedUpload} {db' : DB}
      (ok : s.db.beginUpload caller m gen = .ok (planned, db')) :
      TenantMoved sigOk caller s { s with db := db' }
  | aborted {versionId : Uuid} (owns : s.db.ownsVersion caller versionId = true) :
      TenantMoved sigOk caller s { s with db := s.db.abortUpload versionId }
  | inserted {versionId : Uuid} {pairs : List (Uuid × Uuid)}
      (owns : s.db.ownsVersion caller versionId = true)
      (ofPlan : ∀ pair ∈ pairs, s.db.fragmentOfVersion versionId pair.1 = true) :
      TenantMoved sigOk caller s { s with db := (s.db.insertPlacements pairs).2 }
  | committed {versionId : Uuid} {stored : List Uuid} {result : File × FileVersion} {db' : DB}
      (ofVersion : ∀ fragmentId ∈ stored, s.db.fragmentOfVersion versionId fragmentId = true)
      (ok : s.db.commitUpload caller versionId stored = .ok (result, db')) :
      TenantMoved sigOk caller s { s with db := db' }
  | planned (env : DownloadEnv) (fileId : Uuid) :
      TenantMoved sigOk caller s { s with db := (s.db.planDownload env caller fileId).2 }
  | reported (env : ReportEnv) (fileId : Uuid) (wires : List Text) :
      TenantMoved sigOk caller s (s.reportDownload env caller fileId wires).2
  | dropped {bucketId : Uuid} {s' : UsageDB} (ok : s.deleteBucket caller bucketId = .ok s') :
      TenantMoved sigOk caller s s'

theorem tenantStep_inv {op : TenantOp} (moved : tenantStep sigOk caller s op = some t) :
    TenantMoved sigOk caller s t := by
  -- a transaction that fails leaves the tables as they were
  have after : ∀ {α : Type} {outcome : Except StoreErr (α × DB)},
      (∀ result db', outcome = .ok (result, db') →
        TenantMoved sigOk caller s { s with db := db' }) →
      TenantMoved sigOk caller s (s.after outcome) := by
    intro α outcome moves
    cases outcome with
    | error e => exact .nothing
    | ok result => exact moves result.1 result.2 rfl
  cases op with
  | createFolder => cases moved; exact after fun _ _ ok => .folder ok
  | renameFile => cases moved; exact after fun _ _ ok => .renamed ok
  | softDeleteFile =>
    simp only [tenantStep, DB.softDeleteFile] at moved
    split at moved <;> cases moved <;> rename_i ended <;> split at ended <;> cases ended
    · exact .nothing
    · exact .deleted (by assumption)
  | beginUpload => cases moved; exact after fun _ _ ok => .begun ok
  | abortUpload =>
    simp only [tenantStep] at moved
    split at moved <;> cases moved
    exact .aborted (by assumption)
  | insertPlacements =>
    simp only [tenantStep] at moved
    split at moved <;> cases moved
    rename_i own
    exact .inserted own.1 own.2
  | commitUpload =>
    simp only [tenantStep] at moved
    split at moved <;> cases moved
    rename_i order
    refine after fun _ _ ok => ?_
    simp only [DB.commitUploadReceipts] at ok
    split at ok
    · cases ok
    · exact .committed (DB.uploadReceipts_ofVersion order (by assumption)) ok
  | listFiles => cases moved; exact .nothing
  | planDownload => cases moved; exact .planned _ _
  | reportDownload => cases moved; exact .reported _ _ _
  | deleteBucket =>
    simp only [tenantStep] at moved
    split at moved <;> cases moved
    · exact .nothing
    · exact .dropped (by assumption)

section Step

theorem TenantMoved.frame (moved : TenantMoved sigOk caller s t) (keyed : s.db.Keyed)
    (distinct : caller ≠ other) : TenantFrame other s t := by
  cases moved with
  | nothing => exact .refl other _
  | folder ok => exact .createFolder keyed distinct ok
  | renamed ok => exact .renameFile keyed distinct ok
  | deleted found => exact .softDeleteTx keyed distinct found
  | begun ok => exact .beginUpload keyed distinct ok
  | aborted owns => exact .abortUpload keyed distinct owns
  | inserted owns ofPlan => exact .insertPlacements keyed distinct owns ofPlan
  | committed ofVersion ok => exact .commitUpload keyed distinct ofVersion ok
  | planned env fileId => exact .planDownload env fileId
  | reported env fileId wires => exact .reportDownload keyed distinct env fileId wires
  | dropped ok => exact .deleteBucket keyed distinct ok

/-! ### What the operations keep -/

theorem DB.Keyed.deleteBucket (keyed : s.db.Keyed) (deleted : s.deleteBucket caller id = .ok s') :
    s'.db.Keyed := by
  obtain ⟨-, free, rfl⟩ := UsageDB.deleteBucket_inv deleted
  refine
    { schema :=
        { keyed.schema with
          file_pk := keyed.schema.file_pk.filter _
          file_live_path := ?_
          version_file := ?_ }
      bucket_pk := keyed.bucket_pk.filter _ }
  · exact keyed.schema.file_live_path.of_sublist ((filter_sublist.filter _).map _)
  · intro v inVersions
    obtain ⟨f, inFiles, ofFile⟩ := keyed.schema.version_file v inVersions
    refine ⟨f, mem_filter.mpr ⟨inFiles, decide_eq_true fun doomed => ?_⟩, ofFile⟩
    have unreferred := (free f inFiles doomed.1).2
    have referred : (s.db.versions.any fun v => v.fileId = f.id) = true :=
      any_eq_true.mpr ⟨v, inVersions, decide_eq_true ofFile.symm⟩
    simp [UsageDB.refersTo, referred] at unreferred

theorem TenantMoved.keyed (moved : TenantMoved sigOk caller s t) (keyed : s.db.Keyed) :
    t.db.Keyed := by
  cases moved with
  | nothing => exact keyed
  | folder ok =>
    exact ⟨keyed.schema.createFolder ok, (DB.createFolder_inv ok).rows ▸ keyed.bucket_pk⟩
  | renamed ok =>
    refine ⟨keyed.schema.renameFile ok, ?_⟩
    rcases DB.renameFile_inv ok with rfl | ⟨_, _, _, _, _, _, _, _, rfl⟩ <;> exact keyed.bucket_pk
  | deleted => exact ⟨keyed.schema.softDeleteTx _ _, keyed.bucket_pk⟩
  | begun ok =>
    exact ⟨keyed.schema.beginUpload ok, (Extends.beginUpload ok).buckets ▸ keyed.bucket_pk⟩
  | aborted owns =>
    exact ⟨keyed.schema.abortUpload _, (Grows.abortUpload _ _).bucket_pk keyed.bucket_pk⟩
  | inserted owns ofPlan =>
    refine ⟨keyed.schema.insertPlacements rfl, ?_⟩
    obtain ⟨added, next, -, same⟩ := s.db.insertPlacements_rows _
    dsimp only
    rw [same]
    exact keyed.bucket_pk
  | committed _ ok =>
    exact ⟨keyed.schema.commitUpload ok, (Grows.commitUpload ok).bucket_pk keyed.bucket_pk⟩
  | planned env fileId =>
    obtain ⟨tickets, -, same⟩ := s.db.planDownload_tickets env caller fileId
    dsimp only
    rw [same]
    exact ⟨{ keyed.schema with }, keyed.bucket_pk⟩
  | reported env fileId wires =>
    rw [s.reportDownload_db env caller fileId wires]
    exact keyed
  | dropped ok => exact keyed.deleteBucket ok

end Step

/-! ### Current versions -/

theorem TenantMoved.currentOwn (moved : TenantMoved sigOk caller s t) (own : s.db.CurrentOwn) :
    t.db.CurrentOwn := by
  have next : Carried FileVersion.Kept s.db.versions t.db.versions →
      (∀ f ∈ t.db.files, FileFrom s.db (fun _ => True) f) → t.db.CurrentOwn := own.next
  have same : t.db.versions = s.db.versions →
      Carried FileVersion.Kept s.db.versions t.db.versions :=
    fun unchanged => unchanged ▸ .of_subset .refl (List.Subset.refl _)
  have kept : t.db.versions = s.db.versions → t.db.files = s.db.files → t.db.CurrentOwn :=
    fun versions files => next (same versions) fun _ member => .kept (files ▸ member)
  cases moved with
  | nothing => exact own
  | folder ok =>
    refine next (same ?_) fun _ => .createFolder ok
    rw [(DB.createFolder_inv ok).rows]
  | renamed ok =>
    refine next (same ?_) fun _ => .renameFile ok
    rcases DB.renameFile_inv ok with rfl | ⟨_, _, _, _, _, _, _, _, rfl⟩ <;> rfl
  | deleted => exact next (Grows.softDeleteTx _ _ _).versions fun _ => .softDeleteTx trivial
  | begun ok =>
    exact next (Grows.of_extends (.beginUpload ok)).versions fun _ => .beginUpload ok
  | aborted owns =>
    exact next (Grows.abortUpload _ _).versions fun _ => .abortUpload
  | inserted owns ofPlan =>
    obtain ⟨added, next, -, same⟩ := s.db.insertPlacements_rows _
    exact kept (by rw [same]) (by rw [same])
  | committed _ ok => exact next (Grows.commitUpload ok).versions fun _ => .commitUpload ok
  | planned env fileId =>
    obtain ⟨tickets, -, same⟩ := s.db.planDownload_tickets env caller fileId
    exact kept (by rw [same]) (by rw [same])
  | reported env fileId wires =>
    have same := s.reportDownload_db env caller fileId wires
    exact kept (by rw [same]) (by rw [same])
  | dropped ok =>
    obtain ⟨-, -, rfl⟩ := UsageDB.deleteBucket_inv ok
    exact next (same rfl) fun _ member => .kept (mem_filter.mp member).1

/-! ### What is shown -/

/-- The rows a plan is made of are rows of the tables, and none is the user's. -/
structure DB.ShowsNone (db : DB) (userId : Uuid) (f : File) (v : FileVersion)
    (chunks : List DownloadChunk) : Prop where
  file : f ∈ db.files ∧ f.id ∉ (db.tenantFiles userId).map File.id
  version : v ∈ db.versions ∧ v.id ∉ (db.tenantVersions userId).map FileVersion.id
  chunks : ∀ dc ∈ chunks, dc.chunk ∈ db.chunks ∧
    dc.chunk.id ∉ (db.tenantChunks userId).map Chunk.id ∧
    ∀ p ∈ dc.placements, p.fragment ∈ db.fragments ∧
      p.fragment.id ∉ (db.tenantFragments userId).map Fragment.id

theorem DB.loadDownload_showsNone (keyed : db.Keyed) (own : db.CurrentOwn)
    (distinct : caller ≠ other) {chunks : List DownloadChunk}
    (loaded : db.loadDownload caller fileId = .ok (f, v, chunks)) :
    db.ShowsNone other f v chunks := by
  have listed := (DB.loadDownload_ok keyed.schema loaded).2
  obtain ⟨versionId, found, current, isVersion, -⟩ := loadDownload_inv loaded
  obtain ⟨inFiles, -, foreign⟩ := fileById_foreign keyed distinct found
  have file := file_foreign keyed inFiles foreign
  have inVersions := mem_of_find?_eq_some isVersion
  -- the version looked up is the file's own
  obtain ⟨v', inVersions', sameId, ofFile⟩ := own f inFiles versionId current
  have named := find?_some isVersion
  rw [decide_eq_true_eq] at named
  have sameVersion : v' = v := keyed.schema.version_pk.eq_of_key inVersions' inVersions
    (sameId.trans named.1.symm)
  rw [sameVersion] at ofFile
  have version := version_foreign keyed inVersions (ofFile ▸ file)
  refine ⟨⟨inFiles, file⟩, ⟨inVersions, version⟩, fun dc member => ?_⟩
  obtain ⟨inChunks, ofVersion, copies, -⟩ := (listed.mem_iff dc).mp member
  have chunk := chunk_foreign keyed inChunks (ofVersion ▸ version)
  refine ⟨inChunks, chunk, fun p isCopy => ?_⟩
  rw [copies, mem_storedCopies keyed.schema inChunks, mem_downloadRows] at isCopy
  obtain ⟨-, -, inFragments, ofChunk, -⟩ := isCopy
  exact ⟨inFragments, fragment_foreign keyed inFragments (ofChunk ▸ chunk)⟩

/-- A listing shows no file of the other user, and a download plan is made of none of its
rows. -/
def TenantOp.Hides (other : Uuid) (s : UsageDB) (caller : Uuid) : TenantOp → Prop
  | .listFiles before bucketId folder cursor limit => ∀ files next,
      s.db.listFiles before caller bucketId folder cursor limit = .ok (files, next) →
      ∀ f ∈ files, f.id ∉ (s.db.tenantFiles other).map File.id
  | .planDownload env fileId => ∀ r, (s.db.planDownload env caller fileId).1 = .ok r →
      ∃ f v chunks, r.MadeOf f v chunks ∧ s.db.ShowsNone other f v chunks
  | _ => True

theorem TenantOp.hides (keyed : s.db.Keyed) (own : s.db.CurrentOwn) (distinct : caller ≠ other)
    (op : TenantOp) : op.Hides other s caller := by
  cases op with
  | listFiles before bucketId folder cursor limit =>
    intro files next listed shown member
    obtain ⟨f, inFiles, same, b, inBuckets, ofBucket, ofUser⟩ :=
      DB.mem_listFiles listed shown member
    have bucket : b.id ∉ (s.db.tenantBuckets other).map Bucket.id :=
      DB.bucket_foreign keyed inBuckets (ofUser ▸ distinct)
    rw [← same]
    exact DB.file_foreign keyed inFiles (ofBucket ▸ bucket)
  | planDownload env fileId =>
    intro r planned
    obtain ⟨f, v, chunks, loaded, made⟩ := DB.planDownload_made planned
    exact ⟨f, v, chunks, made, DB.loadDownload_showsNone keyed own distinct loaded⟩
  | _ => trivial

/-- In every state the control plane reaches, the current version of each file is its own.
From every state of the tables in which this is so, whatever a user calls with whatever
arguments, the rows of every other user stay as they are, and no listing or plan shows any
of them. -/
theorem tenants_isolated :
    (∀ (sigOk : SigCheck) (db : DB), Reachable sigOk db → db.CurrentOwn) ∧
    ∀ (sigOk : SigCheck) (s : UsageDB) (caller other : Uuid) (ops : List TenantOp),
      s.db.Keyed → s.db.CurrentOwn → caller ≠ other →
      EveryState (tenantStep sigOk caller) (fun t => t.tenantRows other = s.tenantRows other) s
        ops ∧
      EveryStep (tenantStep sigOk caller) (fun t op _ => op.Hides other t caller) s ops := by
  refine ⟨fun sigOk db reachable => reachable_currentOwn reachable, ?_⟩
  intro sigOk s caller other ops keyed own distinct
  have kept : ∀ t op t', (t.db.Keyed ∧ t.db.CurrentOwn ∧
        t.tenantRows other = s.tenantRows other) → tenantStep sigOk caller t op = some t' →
      t'.db.Keyed ∧ t'.db.CurrentOwn ∧ t'.tenantRows other = s.tenantRows other := by
    rintro t op t' ⟨keyed, own, rows⟩ moved
    have moved := tenantStep_inv moved
    exact ⟨moved.keyed keyed, moved.currentOwn own, ((moved.frame keyed distinct).rows).trans rows⟩
  constructor
  · have inside : EveryState (tenantStep sigOk caller) (fun t => t.db.Keyed ∧ t.db.CurrentOwn ∧
        t.tenantRows other = s.tenantRows other) s ops :=
      EveryState.of_step (fun t op t' inside moved _ => kept t op t' inside moved)
        ⟨keyed, own, rfl⟩ EveryStep.unguarded
    exact inside.mono fun t all => all.2.2
  · exact EveryStep.of_closed kept (fun t op _ inside _ => op.hides inside.1 inside.2.1 distinct)
      ⟨keyed, own, rfl⟩

namespace Sample

/-- A committed version of a file in the bucket of user 9, with one chunk of one fragment,
stored on node 0.  User 1 has an empty bucket and a file whose current version is given. -/
def twoTenants (current : Option Uuid) : UsageDB where
  db :=
    { buckets := [⟨2, 1⟩, ⟨3, 9⟩]
      files :=
        [{ id := 50, bucketId := 2, path := ['/', 'a'], isFolder := false,
           currentVersion := current, status := .active, deletedAt := none },
          { id := 51, bucketId := 3, path := ['/', 'b'], isFolder := false,
            currentVersion := some 61, status := .active, deletedAt := none }]
      versions :=
        [{ id := 61, fileId := 51, versionNo := 1, sizeBytes := 1, contentSha256 := digest,
           encryptionMeta := [123, 125], chunkSize := 1, ecDataShards := 1, ecParityShards := 0,
           status := .committed }]
      chunks := [{ id := 71, versionId := 61, seq := 0, sizeBytes := 1, sha256 := digest }]
      fragments := [{ id := 81, chunkId := 71, shardIndex := 0, sizeBytes := 1, sha256 := digest }]
      nodes := [node 0]
      placements := [{ id := 1, fragmentId := 81, nodeId := (node 0).id, status := .stored }]
      nextPlacementId := 2
      downloadTickets := [] }
  receipts := []
  stats := []
  published := []

theorem twoTenants_keyed (current : Option Uuid) : (twoTenants current).db.Keyed := by
  refine ⟨?_, by simp [twoTenants, UniqueOn]⟩
  constructor <;> simp [twoTenants, UniqueOn, node]

/-- User 1 names the bucket, the file and the version of user 9. -/
def forged : List TenantOp :=
  [.createFolder 3 ['/', 'x'] 90, .renameFile 51 ['/', 'c'] [], .softDeleteFile 51 0,
    .planDownload .calm 51, .deleteBucket 3]

/-- The file and the fragments of a plan. -/
def plannedIds : Except StoreErr DownloadResult → Option (Uuid × List (List Uuid))
  | .error _ => none
  | .ok r => some (r.fileId, r.chunks.map fun rc => rc.fragments.map ShardRef.fragmentId)

theorem stray_planned :
    plannedIds ((twoTenants (some 61)).db.planDownload .calm 1 50).1 = some (50, [[81]]) := by
  decide +kernel

end Sample

theorem forged_isolated :
    EveryState (tenantStep toySig 1)
      (fun t => t.tenantRows 9 = (twoTenants none).tenantRows 9)
      (twoTenants none) forged ∧
    EveryStep (tenantStep toySig 1) (fun t op _ => op.Hides 9 t 1)
      (twoTenants none) forged :=
  tenants_isolated.2 toySig (twoTenants none) 1 9 forged
    (twoTenants_keyed none) (by simp [DB.CurrentOwn, twoTenants]) (by decide)

/-- The foreign key of `current_version` lets a file of user 1 point to a version of
user 9.  In such a state the plan for it names the fragment of user 9. -/
theorem strayVersion_shown :
    ¬ ∀ (s : UsageDB) (caller other : Uuid) (op : TenantOp), s.db.Keyed →
      (∀ f ∈ s.db.files, ∀ id, f.currentVersion = some id → ∃ v ∈ s.db.versions, v.id = id) →
      caller ≠ other → op.Hides other s caller := by
  intro isolated
  have hides := isolated (twoTenants (some 61)) 1 9 (.planDownload .calm 50)
    (twoTenants_keyed _) (by simp [twoTenants]) (by decide)
  have contents := stray_planned
  cases returned : ((twoTenants (some 61)).db.planDownload .calm 1 50).1 with
  | error e =>
    rw [returned] at contents
    cases contents
  | ok r =>
    obtain ⟨f, v, chunks, made, none⟩ := hides r returned
    rw [returned] at contents
    have shown : [81] ∈ r.chunks.map fun rc => rc.fragments.map ShardRef.fragmentId := by
      rw [(Prod.mk.inj (Option.some.inj contents)).2]
      exact mem_singleton_self _
    obtain ⟨rc, inPlan, fragments⟩ := mem_map.mp shown
    obtain ⟨ref, inChunk, isShown⟩ := mem_map.mp (fragments ▸ mem_singleton_self 81)
    obtain ⟨dc, loaded, -, fromCopy⟩ := forall₂_right made.chunks inPlan
    obtain ⟨p, isCopy, wire, rfl⟩ := fromCopy ref inChunk
    have foreign := ((none.chunks dc loaded).2.2 p isCopy).2
    rw [show p.fragment.id = 81 from isShown] at foreign
    exact foreign (by decide)

end StoragePlatform
