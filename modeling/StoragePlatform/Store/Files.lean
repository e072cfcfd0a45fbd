/-
Module: StoragePlatform.Store.Files
Purpose: The file and folder statements of internal/store/files.go and the
  storage meter of internal/store/meters.go.
Trusted boundary: human-reviewed spec
Main exports: inSubtree, DB.createFolder, DB.renameFile, DB.nodeHeldBytes
-/
import StoragePlatform.Store.Uploads
import StoragePlatform.Lib.Like

namespace StoragePlatform

open Lib

/-- `path = $2 OR path LIKE $2 || '/%'`: the subtree test of every folder
statement.  The folder's path is part of the pattern as it stands. -/
def inSubtree (folder path : Text) : Bool :=
  path = folder ∨ like (folder ++ ['/', '%']) path

/-- `CreateFolder`. -/
def DB.createFolder (db : DB) (ownerId bucketId : Uuid) (rawPath : Text) (id : Uuid) :
    Except StoreErr (File × DB) :=
  match normalizePath rawPath with
  | .error e => .error e
  | .ok path =>
    match db.bucketById ownerId bucketId with
    | .error e => .error e
    | .ok _ =>
      let folder : File :=
        { id := id, bucketId := bucketId, path := path, isFolder := true,
          currentVersion := none, status := .active, deletedAt := none }
      if (db.liveFileAt bucketId path).isSome ∨ db.files.any fun f => f.id = id then
        .error .conflict
      else .ok (folder, { db with files := db.files ++ [folder] })

/-! ### Renaming -/

/-- The unique index on the live paths of a bucket. -/
abbrev UniqueLivePaths (files : List File) : Prop :=
  UniqueOn (fun f : File => (f.bucketId, f.path)) (files.filter fun f => f.deletedAt.isNone)

/-- The rows the UPDATE of `RenameFile` selects; a folder takes its subtree along. -/
def File.toRename (f g : File) : Bool :=
  if f.isFolder then g.bucketId = f.bucketId ∧ g.deletedAt = none ∧ inSubtree f.path g.path
  else g.id = f.id

/-- The row with its new path. -/
def File.renamed (f : File) (newPath : Text) (g : File) : File :=
  { g with path := if f.isFolder then newPath ++ g.path.drop f.path.length else newPath }

/-- The table while the UPDATE runs: the rows in `done` are written. -/
def renameRows (f : File) (newPath : Text) (done : List Uuid) (files : List File) : List File :=
  updateWhere (fun g => f.toRename g ∧ g.id ∈ done) (f.renamed newPath) files

/-- The rows the UPDATE selects, in the order in which its scan comes to them. -/
def renameScan (order : List Uuid) (f : File) (files : List File) : List Uuid :=
  orderBy (fun a b => order.idxOf a ≤ order.idxOf b) ((files.filter f.toRename).map File.id)

/-- `RenameFile`; `order` is that of the rows in the scan of its UPDATE.  The index on live
paths is not deferrable, so it is checked with every row that is written. -/
def DB.renameFile (db : DB) (ownerId fileId : Uuid) (newPath : Text) (order : List Uuid) :
    Except StoreErr (File × DB) :=
  match normalizePath newPath with
  | .error e => .error e
  | .ok path =>
    match db.fileById ownerId fileId with
    | .error e => .error e
    | .ok f =>
      if f.path = path then .ok (f, db)
      else if f.isFolder ∧ db.files.any fun g =>
          g.bucketId = f.bucketId ∧ g.deletedAt = none ∧ inSubtree path g.path ∧
            ¬ inSubtree f.path g.path then
        .error .conflict
      else
        let scan := renameScan order f db.files
        if ∀ done ∈ scan.inits, UniqueLivePaths (renameRows f path done db.files) then
          let files := renameRows f path scan db.files
          match files.find? fun g => g.id = f.id with
          | none => .error .notFound
          | some renamed => .ok (renamed, { db with files := files })
        else .error .conflict

/-- How `CreateFolder` succeeds. -/
structure DB.CreatedFolder (db : DB) (ownerId bucketId : Uuid) (rawPath : Text) (f : File)
    (db' : DB) : Prop where
  owned : ∃ b, db.bucketById ownerId bucketId = .ok b
  bucket : f.bucketId = bucketId
  clean : normalizePath rawPath = .ok f.path
  folder : f.isFolder = true
  empty : f.currentVersion = none
  live : f.deletedAt = none
  fresh : ∀ old ∈ db.files, old.id ≠ f.id
  free : db.liveFileAt f.bucketId f.path = none
  rows : db' = { db with files := db.files ++ [f] }

theorem DB.createFolder_inv {db db' : DB} {ownerId bucketId id : Uuid} {path : Text} {f : File}
    (created : db.createFolder ownerId bucketId path id = .ok (f, db')) :
    db.CreatedFolder ownerId bucketId path f db' := by
  simp only [createFolder] at created
  repeat' split at created
  all_goals cases created
  rename_i clean _ b owned fresh
  simp only [List.any_eq_true, decide_eq_true_eq, not_or, not_exists, not_and,
    Option.not_isSome_iff_eq_none] at fresh
  exact ⟨⟨b, owned⟩, rfl, clean, rfl, rfl, rfl, fresh.2, fresh.1, rfl⟩

/-- A rename writes the path column only, of the file or in its bucket, and the new paths
begin with the new path. -/
theorem renameRows_eq (f : File) (path : Text) (done : List Uuid) (files : List File) :
    ∃ (sel : File → Bool) (rest : File → Text),
      (∀ g, sel g = true → g.bucketId = f.bucketId ∨ g.id = f.id) ∧ renameRows f path done files =
        updateWhere sel (fun g => { g with path := path ++ rest g }) files := by
  refine ⟨fun g => f.toRename g ∧ g.id ∈ done,
    fun g => if f.isFolder then g.path.drop f.path.length else [], fun g chosen => ?_, ?_⟩
  · have selected := (of_decide_eq_true chosen).1
    rw [File.toRename] at selected
    split at selected
    · exact .inl (of_decide_eq_true selected).1
    · exact .inr (of_decide_eq_true selected)
  · have rows : f.renamed path = fun g =>
        { g with path := path ++ if f.isFolder then g.path.drop f.path.length else [] } := by
      funext g
      rw [File.renamed]
      split <;> simp
    rw [renameRows, rows]

/-- How `RenameFile` succeeds. -/
theorem DB.renameFile_inv {db db' : DB} {ownerId fileId : Uuid} {newPath : Text}
    {order : List Uuid} {f : File}
    (renamed : db.renameFile ownerId fileId newPath order = .ok (f, db')) :
    db' = db ∨ ∃ g path sel, ∃ rest : File → Text, normalizePath newPath = .ok path ∧
      db.fileById ownerId fileId = .ok g ∧ UniqueLivePaths db'.files ∧
      (∀ h, sel h = true → h.bucketId = g.bucketId ∨ h.id = g.id) ∧
      db' = { db with
        files := updateWhere sel (fun g => { g with path := path ++ rest g }) db.files } := by
  simp only [renameFile] at renamed
  repeat' split at renamed
  all_goals cases renamed
  · exact .inl rfl
  · rename_i path clean _ g found _ _ unique _ _
    obtain ⟨sel, rest, within, rows⟩ := renameRows_eq g path (renameScan order g db.files) db.files
    have whole := unique _ ((List.mem_inits _ _).mpr List.prefix_rfl)
    exact .inr ⟨g, path, sel, rest, clean, found, whole, within, by rw [rows]⟩

/-! ### Deleting -/

/-- The files the version and placement UPDATEs of a delete select.  Unlike the
UPDATE of `files`, these do not look at `deleted_at`. -/
def File.inDelete (f g : File) : Bool :=
  if f.isFolder then g.bucketId = f.bucketId ∧ inSubtree f.path g.path else g.id = f.id

/-- The rows the UPDATE of `files` selects. -/
def File.toDelete (f g : File) : Bool :=
  f.inDelete g ∧ (¬ f.isFolder ∨ g.deletedAt = none)

def File.softDelete (now : Time) (f : File) : File :=
  { f with status := .deleted, deletedAt := some now }

def FileVersion.expire (v : FileVersion) : FileVersion := { v with status := .expired }

/-- `v.status IN ('pending', 'committed')`. -/
def FileVersion.current (v : FileVersion) : Bool :=
  v.status = .pending ∨ v.status = .committed

/-- `p.status IN ('pending', 'stored', 'lost')`. -/
def Placement.held (p : Placement) : Bool :=
  p.status = .pending ∨ p.status = .stored ∨ p.status = .lost

/-- A version of one of the selected files. -/
def DB.versionOf (db : DB) (sel : File → Bool) (v : FileVersion) : Bool :=
  db.files.any fun f => f.id = v.fileId ∧ sel f

/-- `fragments fr JOIN chunks c JOIN file_versions v JOIN files f` restricted to
the selected files, read at one fragment. -/
def DB.fragmentOf (db : DB) (sel : File → Bool) (fragmentId : Uuid) : Bool :=
  db.fragments.any fun fr => fr.id = fragmentId ∧
    db.chunks.any fun c => c.id = fr.chunkId ∧
      db.versions.any fun v => v.id = c.versionId ∧ db.versionOf sel v

/-- The same, at a placement. -/
def DB.placementOf (db : DB) (sel : File → Bool) (p : Placement) : Bool :=
  db.fragmentOf sel p.fragmentId

theorem DB.fragmentOf_iff {db : DB} {sel : File → Bool} {fragmentId : Uuid} :
    db.fragmentOf sel fragmentId = true ↔
      ∃ fr ∈ db.fragments, ∃ c ∈ db.chunks, ∃ v ∈ db.versions, ∃ f ∈ db.files,
        fr.id = fragmentId ∧ c.id = fr.chunkId ∧ v.id = c.versionId ∧ f.id = v.fileId ∧
          sel f = true := by
  simp only [fragmentOf, versionOf, List.any_eq_true, decide_eq_true_eq]
  constructor
  · rintro ⟨fr, inFragments, same, c, inChunks, ofChunk, v, inVersions, ofVersion, f, inFiles,
      ofFile, selected⟩
    exact ⟨fr, inFragments, c, inChunks, v, inVersions, f, inFiles, same, ofChunk, ofVersion,
      ofFile, selected⟩
  · rintro ⟨fr, inFragments, c, inChunks, v, inVersions, f, inFiles, same, ofChunk, ofVersion,
      ofFile, selected⟩
    exact ⟨fr, inFragments, same, c, inChunks, ofChunk, v, inVersions, ofVersion, f, inFiles,
      ofFile, selected⟩

/-- The transaction of `SoftDeleteFile` for the file row `f` that was read
before it. -/
def DB.softDeleteTx (db : DB) (f : File) (now : Time) : DB :=
  { db with
    files := updateWhere f.toDelete (File.softDelete now) db.files
    versions := updateWhere (fun v => v.current ∧ db.versionOf f.inDelete v)
      FileVersion.expire db.versions
    placements := updateWhere (fun p => p.held ∧ db.placementOf f.inDelete p)
      (Placement.setStatus .expiring) db.placements }

/-- `SoftDeleteFile`. -/
def DB.softDeleteFile (db : DB) (ownerId fileId : Uuid) (now : Time) : Except StoreErr DB :=
  match db.fileById ownerId fileId with
  | .error e => .error e
  | .ok f => .ok (db.softDeleteTx f now)

/-! ### Metering -/

/-- `ListNodeHeldBytes`, read at one node: the sizes of its stored fragments. -/
def DB.nodeHeldBytes (db : DB) (nodeId : Uuid) : Int :=
  ((db.placedFragments.filter fun pf => pf.1.nodeId = nodeId ∧ pf.1.status = .stored).map
    fun pf => pf.2.sizeBytes).sum

end StoragePlatform
