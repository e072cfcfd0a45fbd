/-
Module: StoragePlatform.Proofs.Owners
Purpose: Who owns a file, and that no step of the control plane changes it; which
  version is the current one of a file.
Trusted boundary: none
Main exports: DB.OwnsFile, DB.FilesInBuckets, DB.CurrentOwn, reachable_currentOwn
-/
import StoragePlatform.Proofs.Steps

namespace StoragePlatform

open Lib

variable {db db' : DB} {f : File} {fileId userId ownerId : Uuid} {s : System} {e : Event}

/-- The file is in a bucket of the user. -/
def DB.OwnsFile (db : DB) (userId fileId : Uuid) : Prop :=
  ∃ f ∈ db.files, f.id = fileId ∧ ∃ b ∈ db.buckets, b.id = f.bucketId ∧ b.ownerId = userId

/-- Every file is in a bucket, as the foreign key of `files` asks. -/
def DB.FilesInBuckets (db : DB) : Prop := ∀ f ∈ db.files, ∃ b ∈ db.buckets, b.id = f.bucketId

theorem Written.filesInBuckets (written : Written s e db') (inBuckets : s.db.FilesInBuckets) :
    db'.FilesInBuckets := by
  intro f member
  have bucket : ∃ b ∈ s.db.buckets, b.id = f.bucketId := by
    cases written.fileFrom member with
    | kept old | renamed old | committed old | deleted old => exact (inBuckets _ old :)
    | added isBucket ofBucket => exact ⟨_, isBucket, ofBucket⟩
  obtain ⟨b, isBucket, sameId⟩ := bucket
  exact ⟨b, written.grows.bucket_mem isBucket, sameId⟩

/-- Nodes keep their owner, and at most one is new. -/
theorem Written.nodeOwners (written : Written s e db') :
    db'.nodes.map (fun n => (n.id, n.ownerId)) = s.db.nodes.map (fun n => (n.id, n.ownerId)) ∨
      ∃ n : Node, (∀ old ∈ s.db.nodes, old.id ≠ n.id) ∧ db'.nodes = s.db.nodes ++ [n] := by
  have same : db'.nodes = s.db.nodes →
      db'.nodes.map (fun n => (n.id, n.ownerId)) = s.db.nodes.map (fun n => (n.id, n.ownerId)) ∨
      ∃ n : Node, (∀ old ∈ s.db.nodes, old.id ≠ n.id) ∧ db'.nodes = s.db.nodes ++ [n] :=
    fun nodes => .inl (by rw [nodes])
  cases written with
  | begun ok => exact same (Extends.beginUpload ok).nodes
  | inserted call ok => exact same (by rw [DB.insertPlacement_ok ok])
  | aborted call fresh => exact same (by rw [DB.abortUpload]; split <;> rfl)
  | uploaded call ok =>
    cases DB.commitUpload_inv ok with
    | already | now => exact same rfl
  | nothing | repaired | restored | expired | deleted => exact same rfl
  | acted ok =>
    cases act_inv ok with
    | @registerNode n fresh => exact .inr ⟨n, fresh, rfl⟩
    | updateNode =>
      refine .inl ?_
      dsimp only
      rw [map_updateWhere]
      exact fun _ => rfl
    | createBucket | createFolder | renameNothing | renameFile | nodeOffline | placementLost
    | confirmDeleted => exact same rfl

/-! ### What follows for owners -/

theorem DB.OwnsFile.carried (owns : db.OwnsFile userId fileId) (grows : Grows db db') :
    db'.OwnsFile userId fileId := by
  obtain ⟨f, inFiles, sameId, b, inBuckets, ofBucket, ofUser⟩ := owns
  obtain ⟨f', inFiles', keptId, keptBucket, -⟩ := grows.files f inFiles
  exact ⟨f', inFiles', keptId.trans sameId, b, grows.bucket_mem inBuckets,
    ofBucket.trans keptBucket.symm, ofUser⟩

/-- A file has one owner. -/
theorem DB.OwnsFile.unique {userId' : Uuid} (owns : db.OwnsFile userId fileId)
    (owns' : db.OwnsFile userId' fileId) (files : UniqueOn File.id db.files)
    (buckets : UniqueOn Bucket.id db.buckets) : userId = userId' := by
  obtain ⟨f, inFiles, sameId, b, inBuckets, ofBucket, rfl⟩ := owns
  obtain ⟨f', inFiles', sameId', b', inBuckets', ofBucket', rfl⟩ := owns'
  obtain rfl := files.eq_of_key inFiles inFiles' (sameId.trans sameId'.symm)
  rw [buckets.eq_of_key inBuckets inBuckets' (ofBucket.trans ofBucket'.symm)]

/-! ### Current versions -/

/-- The current version of a file is one of its own. -/
def DB.CurrentOwn (db : DB) : Prop :=
  ∀ f ∈ db.files, ∀ id, f.currentVersion = some id → ∃ v ∈ db.versions, v.id = id ∧ v.fileId = f.id

theorem DB.CurrentOwn.empty : DB.empty.CurrentOwn := fun _ member => absurd member List.not_mem_nil

/-- Versions stay with their files, and a commit makes current a version of the file. -/
theorem DB.CurrentOwn.next {deletes : File → Prop} (own : db.CurrentOwn)
    (versions : Carried FileVersion.Kept db.versions db'.versions)
    (files : ∀ f ∈ db'.files, FileFrom db deletes f) : db'.CurrentOwn := by
  intro f member id current
  have before : ∃ v ∈ db.versions, v.id = id ∧ v.fileId = f.id := by
    cases files f member with
    | kept old | renamed old | deleted old => exact (own _ old id current :)
    | committed old version ofFile => exact ⟨_, version, Option.some.inj current, ofFile⟩
    | added _ _ _ _ empty => cases empty.symm.trans current
  obtain ⟨v, inVersions, rfl, ofFile⟩ := before
  obtain ⟨v', inVersions', kept⟩ := versions v inVersions
  exact ⟨v', inVersions', kept.fields.1, kept.fields.2.1.trans ofFile⟩

/-- So it is in every state the control plane reaches. -/
theorem reachable_currentOwn {sigOk : SigCheck} (reachable : Reachable sigOk db) :
    db.CurrentOwn := by
  obtain ⟨events, s, run, rfl⟩ := reachable
  exact exec_induction (I := fun s : System => s.db.CurrentOwn)
    (fun s e t own moved => own.next (step_grows moved).versions
      fun _ => (step_written moved).fileFrom) DB.CurrentOwn.empty run

end StoragePlatform
