/-
Module: StoragePlatform.Store.Buckets
Purpose: ListFiles (internal/store/files.go) and DeleteBucket
  (internal/store/buckets.go).
Trusted boundary: human-reviewed spec; the collation of the database is a parameter
Main exports: listLimit, DB.listFiles, UsageDB.refersTo, UsageDB.deleteBucket
-/
import StoragePlatform.Store.Files
import StoragePlatform.Store.Usage

namespace StoragePlatform

open Lib

/-! ### Listing -/

/-- The page size: 100 if none is asked for, at most 1000. -/
def listLimit (limit : Int) : Nat :=
  if limit ≤ 0 then 100 else if 1000 < limit then 1000 else limit.toNat

/-- The rows of the listing query, before its LIMIT. -/
def DB.listedFiles (db : DB) (before : Text → Text → Bool) (ownerId bucketId : Uuid)
    (folder cursor : Text) : List File :=
  orderBy (fun f g => !before g.path f.path)
    (((innerJoin (fun (f : File) (b : Bucket) => b.id = f.bucketId) db.files db.buckets).filter
      fun fb => fb.1.bucketId = bucketId ∧ fb.2.ownerId = ownerId ∧ fb.1.deletedAt = none ∧
        (folder = [] ∨ fb.1.path = folder ∨ like (folder ++ ['/', '%']) fb.1.path) ∧
        before cursor fb.1.path).map Prod.fst)

/-- `ListFiles`: a page of the live files under a folder, and where the next page begins.
`before` is the order of the text columns.  The query does not read `current_version`. -/
def DB.listFiles (db : DB) (before : Text → Text → Bool) (ownerId bucketId : Uuid)
    (folder cursor : Text) (limit : Int) : Except StoreErr (List File × Text) :=
  match db.bucketById ownerId bucketId with
  | .error e => .error e
  | .ok _ =>
    let rows := ((db.listedFiles before ownerId bucketId folder cursor).take
      (listLimit limit + 1)).map fun f => { f with currentVersion := none }
    if listLimit limit < rows.length then
      let page := rows.take (listLimit limit)
      .ok (page, (page.getLast?.map File.path).getD [])
    else .ok (rows, [])

theorem DB.mem_listFiles {db : DB} {before : Text → Text → Bool} {ownerId bucketId : Uuid}
    {folder cursor : Text} {limit : Int} {files : List File} {next : Text}
    (listed : db.listFiles before ownerId bucketId folder cursor limit = .ok (files, next)) :
    ∀ shown ∈ files, ∃ f ∈ db.files, f.id = shown.id ∧
      ∃ b ∈ db.buckets, b.id = f.bucketId ∧ b.ownerId = ownerId := by
  have rows : ∀ shown ∈ ((db.listedFiles before ownerId bucketId folder cursor).take
      (listLimit limit + 1)).map fun f => { f with currentVersion := none },
      ∃ f ∈ db.files, f.id = shown.id ∧
        ∃ b ∈ db.buckets, b.id = f.bucketId ∧ b.ownerId = ownerId := by
    intro shown member
    obtain ⟨f, taken, rfl⟩ := List.mem_map.mp member
    have inQuery := List.mem_of_mem_take taken
    simp only [listedFiles, mem_orderBy, List.mem_map, List.mem_filter, Prod.exists,
      mem_innerJoin, decide_eq_true_eq] at inQuery
    obtain ⟨f', b, ⟨⟨inFiles, inBuckets, joined⟩, -, owned, -⟩, rfl⟩ := inQuery
    exact ⟨f', inFiles, rfl, b, inBuckets, joined, owned⟩
  simp only [listFiles] at listed
  split at listed
  · cases listed
  split at listed
  · cases listed
    exact fun shown member => rows shown (List.mem_of_mem_take member)
  · cases listed
    exact rows

/-! ### Deleting a bucket -/

/-- A version, a download ticket or a receipt refers to the file, so that the foreign key
refuses to drop it. -/
def UsageDB.refersTo (s : UsageDB) (fileId : Uuid) : Bool :=
  (s.db.versions.any fun v => v.fileId = fileId) ||
    (s.db.downloadTickets.any fun t => t.fileId = fileId) ||
    s.receipts.any fun r => r.fileId = fileId

/-- `DeleteBucket`: the soft-deleted files of the bucket are dropped, then the bucket. -/
def UsageDB.deleteBucket (s : UsageDB) (ownerId id : Uuid) : Except StoreErr UsageDB :=
  match s.db.bucketById ownerId id with
  | .error e => .error e
  | .ok _ =>
    if s.db.files.any fun f => f.bucketId = id ∧ f.deletedAt = none then .error .notEmpty
    else if s.db.files.any fun f => f.bucketId = id ∧ f.deletedAt ≠ none ∧ s.refersTo f.id then
      .error (.query "store.deleteBucket")
    else
      .ok { s with
        db := { s.db with
          files := s.db.files.filter fun f => ¬ (f.bucketId = id ∧ f.deletedAt ≠ none)
          buckets := s.db.buckets.filter fun b => ¬ (b.id = id ∧ b.ownerId = ownerId) } }

/-- What DeleteBucket has checked when it succeeds: the bucket is the caller's, none of its
files is live, and nothing refers to them. -/
theorem UsageDB.deleteBucket_inv {s s' : UsageDB} {ownerId id : Uuid}
    (deleted : s.deleteBucket ownerId id = .ok s') :
    (∃ b, s.db.bucketById ownerId id = .ok b) ∧
      (∀ f ∈ s.db.files, f.bucketId = id → f.deletedAt ≠ none ∧ s.refersTo f.id = false) ∧
      s' = { s with
        db := { s.db with
          files := s.db.files.filter fun f => ¬ (f.bucketId = id ∧ f.deletedAt ≠ none)
          buckets := s.db.buckets.filter fun b => ¬ (b.id = id ∧ b.ownerId = ownerId) } } := by
  simp only [deleteBucket] at deleted
  split at deleted
  · cases deleted
  rename_i b owned
  split at deleted
  · cases deleted
  rename_i empty
  split at deleted <;> cases deleted
  rename_i free
  refine ⟨⟨b, owned⟩, fun f inFiles ofBucket => ?_, rfl⟩
  simp only [List.any_eq_true, decide_eq_true_eq, not_exists, not_and] at empty free
  have dead := empty f inFiles ofBucket
  exact ⟨dead, Bool.not_eq_true _ ▸ free f inFiles ofBucket dead⟩

end StoragePlatform
