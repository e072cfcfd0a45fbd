/-
Module: StoragePlatform.Proofs.SoftDelete
Purpose: When deleting a folder deletes its subtree and nothing else.
Trusted boundary: none
Main exports: File.below, DB.deleteSubtree, SubtreeMatched, subtree_of_plain
-/
import StoragePlatform.Proofs.Steps

namespace StoragePlatform

open Lib Sample

variable {v : FileVersion} {p : Placement} {g : File}

/-! ### What a delete is for -/

/-- A live file of the folder's subtree: the folder itself, or a path that
continues it after a slash. -/
def File.below (f g : File) : Bool :=
  g.bucketId = f.bucketId ∧ g.deletedAt = none ∧ (g.path = f.path ∨ f.path ++ ['/'] <+: g.path)

/-- The placement belongs to this version of this file. -/
def DB.Holds (db : DB) (p : Placement) (v : FileVersion) (g : File) : Prop :=
  ∃ fr ∈ db.fragments, ∃ c ∈ db.chunks, v ∈ db.versions ∧ g ∈ db.files ∧
    fr.id = p.fragmentId ∧ c.id = fr.chunkId ∧ v.id = c.versionId ∧ g.id = v.fileId

/-- A placement of a pending or committed version of a selected file. -/
def DB.currentPlacementOf (db : DB) (sel : File → Bool) (p : Placement) : Bool :=
  db.fragments.any fun fr => fr.id = p.fragmentId ∧
    db.chunks.any fun c => c.id = fr.chunkId ∧
      db.versions.any fun v => v.id = c.versionId ∧ v.current ∧ db.versionOf sel v

/-- The delete of a folder as it is meant: the live files of the subtree, their
pending and committed versions, the held placements of these versions. -/
def DB.deleteSubtree (db : DB) (f : File) (now : Time) : DB :=
  { db with
    files := updateWhere f.below (File.softDelete now) db.files
    versions := updateWhere (fun v => v.current ∧ db.versionOf f.below v)
      FileVersion.expire db.versions
    placements := updateWhere (fun p => p.held ∧ db.currentPlacementOf f.below p)
      (Placement.setStatus .expiring) db.placements }

/-- The rows on which the statements of the code and the intended ones agree. -/
structure SubtreeMatched (db : DB) (f : File) : Prop where
  /-- On the live paths of the bucket LIKE is the test for a leading path. -/
  live : ∀ g ∈ db.files, g.bucketId = f.bucketId → g.deletedAt = none →
    (inSubtree f.path g.path = true ↔ g.path = f.path ∨ f.path ++ ['/'] <+: g.path)
  /-- A matched file that is deleted already has no pending or committed version. -/
  versions : ∀ v ∈ db.versions, v.current = true → ∀ g ∈ db.files, g.id = v.fileId →
    f.inDelete g = true → g.deletedAt = none
  /-- A held placement of a matched file is one of a pending or committed version,
  and the file is not deleted already. -/
  placements : ∀ p ∈ db.placements, p.held = true → ∀ v g, db.Holds p v g →
    f.inDelete g = true → g.deletedAt = none ∧ v.current = true

/-! ### Reading the selections -/

section Selections

variable {db : DB} {sel : File → Bool}

theorem DB.versionOf_iff :
    db.versionOf sel v = true ↔ ∃ g ∈ db.files, g.id = v.fileId ∧ sel g = true := by
  simp [DB.versionOf]

theorem DB.placementOf_iff :
    db.placementOf sel p = true ↔ ∃ v g, db.Holds p v g ∧ sel g = true := by
  rw [DB.placementOf, DB.fragmentOf_iff]
  constructor
  · rintro ⟨fr, inFragments, c, inChunks, v, inVersions, g, inFiles, onFragment, ofChunk,
      ofVersion, ofFile, selected⟩
    exact ⟨v, g, ⟨fr, inFragments, c, inChunks, inVersions, inFiles, onFragment, ofChunk,
      ofVersion, ofFile⟩, selected⟩
  · rintro ⟨v, g, ⟨fr, inFragments, c, inChunks, inVersions, inFiles, onFragment, ofChunk,
      ofVersion, ofFile⟩, selected⟩
    exact ⟨fr, inFragments, c, inChunks, v, inVersions, g, inFiles, onFragment, ofChunk,
      ofVersion, ofFile, selected⟩

theorem DB.currentPlacementOf_iff :
    db.currentPlacementOf sel p = true ↔
      ∃ v g, db.Holds p v g ∧ v.current = true ∧ sel g = true := by
  simp only [DB.currentPlacementOf, DB.versionOf, List.any_eq_true, decide_eq_true_eq]
  constructor
  · rintro ⟨fr, inFragments, onFragment, c, inChunks, ofChunk, v, inVersions, ofVersion, isCurrent,
      g, inFiles, ofFile, selected⟩
    exact ⟨v, g, ⟨fr, inFragments, c, inChunks, inVersions, inFiles, onFragment, ofChunk,
      ofVersion, ofFile⟩, isCurrent, selected⟩
  · rintro ⟨v, g, ⟨fr, inFragments, c, inChunks, inVersions, inFiles, onFragment, ofChunk,
      ofVersion, ofFile⟩, isCurrent, selected⟩
    exact ⟨fr, inFragments, onFragment, c, inChunks, ofChunk, v, inVersions, ofVersion, isCurrent,
      g, inFiles, ofFile, selected⟩

/-- A placement belongs to one version of one file. -/
theorem DB.Holds.unique (schema : db.Schema) {v' : FileVersion} {g' : File} (holds : db.Holds p v g)
    (holds' : db.Holds p v' g') : v = v' ∧ g = g' := by
  obtain ⟨fr, inFragments, c, inChunks, inVersions, inFiles, onFragment, ofChunk, ofVersion,
    ofFile⟩ := holds
  obtain ⟨fr', inFragments', c', inChunks', inVersions', inFiles', onFragment', ofChunk',
    ofVersion', ofFile'⟩ := holds'
  obtain rfl := schema.fragment_pk.eq_of_key inFragments inFragments'
    (onFragment.trans onFragment'.symm)
  obtain rfl := schema.chunk_pk.eq_of_key inChunks inChunks' (ofChunk.trans ofChunk'.symm)
  obtain rfl := schema.version_pk.eq_of_key inVersions inVersions' (ofVersion.trans ofVersion'.symm)
  exact ⟨rfl, schema.file_pk.eq_of_key inFiles inFiles' (ofFile.trans ofFile'.symm)⟩

end Selections

section Folder

variable {db : DB} {f : File}

theorem File.inDelete_folder (folder : f.isFolder = true) :
    f.inDelete g = true ↔ g.bucketId = f.bucketId ∧ inSubtree f.path g.path = true := by
  simp [File.inDelete, folder]

theorem File.toDelete_folder (folder : f.isFolder = true) :
    f.toDelete g = true ↔ f.inDelete g = true ∧ g.deletedAt = none := by
  simp [File.toDelete, folder]

theorem File.below_iff : f.below g = true ↔ g.bucketId = f.bucketId ∧
    g.deletedAt = none ∧ (g.path = f.path ∨ f.path ++ ['/'] <+: g.path) := by
  simp [File.below]

/-- The UPDATE of `files` is the intended one. -/
theorem files_agree_iff (folder : f.isFolder = true) :
    (∀ g ∈ db.files, (f.toDelete g = true ↔ f.below g = true)) ↔
      ∀ g ∈ db.files, g.bucketId = f.bucketId → g.deletedAt = none →
        (inSubtree f.path g.path = true ↔ g.path = f.path ∨ f.path ++ ['/'] <+: g.path) := by
  refine forall₂_congr fun g _ => ?_
  rw [File.toDelete_folder folder, File.inDelete_folder folder, File.below_iff]
  constructor
  · intro agree sameBucket isLive
    simpa [sameBucket, isLive] using agree
  · intro agree
    constructor
    · rintro ⟨⟨sameBucket, matched⟩, isLive⟩
      exact ⟨sameBucket, isLive, (agree sameBucket isLive).mp matched⟩
    · rintro ⟨sameBucket, isLive, under⟩
      exact ⟨⟨sameBucket, (agree sameBucket isLive).mpr under⟩, isLive⟩

theorem DB.Holds.inFiles (holds : db.Holds p v g) : g ∈ db.files := by
  obtain ⟨-, -, -, -, -, inFiles, -⟩ := holds
  exact inFiles

section Matching

variable (folder : f.isFolder = true)
    (matching : ∀ g ∈ db.files, g.bucketId = f.bucketId → g.deletedAt = none →
      (inSubtree f.path g.path = true ↔ g.path = f.path ∨ f.path ++ ['/'] <+: g.path))
include folder matching

/-- On live files the two selections of versions and placements agree as well. -/
theorem inDelete_iff_below (inFiles : g ∈ db.files) :
    f.below g = true ↔ f.inDelete g = true ∧ g.deletedAt = none := by
  rw [← (files_agree_iff folder).mpr matching g inFiles, File.toDelete_folder folder]

theorem versions_agree_iff (schema : db.Schema) :
    (∀ v ∈ db.versions, (v.current = true ∧ db.versionOf f.inDelete v = true ↔
        v.current = true ∧ db.versionOf f.below v = true)) ↔
      ∀ v ∈ db.versions, v.current = true → ∀ g ∈ db.files, g.id = v.fileId →
        f.inDelete g = true → g.deletedAt = none := by
  refine forall₂_congr fun v _ => ?_
  simp only [DB.versionOf_iff]
  constructor
  · intro agree isCurrent g inFiles ofFile selected
    obtain ⟨-, g', inFiles', ofFile', under⟩ := agree.mp ⟨isCurrent, g, inFiles, ofFile, selected⟩
    obtain rfl := schema.file_pk.eq_of_key inFiles inFiles' (ofFile.trans ofFile'.symm)
    exact ((inDelete_iff_below folder matching inFiles).mp under).2
  · intro alive
    constructor
    · rintro ⟨isCurrent, g, inFiles, ofFile, selected⟩
      exact ⟨isCurrent, g, inFiles, ofFile, (inDelete_iff_below folder matching inFiles).mpr
        ⟨selected, alive isCurrent g inFiles ofFile selected⟩⟩
    · rintro ⟨isCurrent, g, inFiles, ofFile, under⟩
      exact ⟨isCurrent, g, inFiles, ofFile,
        ((inDelete_iff_below folder matching inFiles).mp under).1⟩

theorem placements_agree_iff (schema : db.Schema) :
    (∀ p ∈ db.placements, (p.held = true ∧ db.placementOf f.inDelete p = true ↔
        p.held = true ∧ db.currentPlacementOf f.below p = true)) ↔
      ∀ p ∈ db.placements, p.held = true → ∀ v g, db.Holds p v g →
        f.inDelete g = true → g.deletedAt = none ∧ v.current = true := by
  refine forall₂_congr fun p _ => ?_
  simp only [DB.placementOf_iff, DB.currentPlacementOf_iff]
  constructor
  · intro agree isHeld v g holds selected
    obtain ⟨-, v', g', holds', isCurrent, under⟩ := agree.mp ⟨isHeld, v, g, holds, selected⟩
    obtain ⟨rfl, rfl⟩ := holds.unique schema holds'
    exact ⟨((inDelete_iff_below folder matching holds.inFiles).mp under).2, isCurrent⟩
  · intro proper
    constructor
    · rintro ⟨isHeld, v, g, holds, selected⟩
      obtain ⟨alive, isCurrent⟩ := proper isHeld v g holds selected
      exact ⟨isHeld, v, g, holds, isCurrent,
        (inDelete_iff_below folder matching holds.inFiles).mpr ⟨selected, alive⟩⟩
    · rintro ⟨isHeld, v, g, holds, -, under⟩
      exact ⟨isHeld, v, g, holds, ((inDelete_iff_below folder matching holds.inFiles).mp under).1⟩

end Matching

/-- The three UPDATEs are the intended ones exactly when they select the same
rows: each of them shows on the rows it selects. -/
theorem softDeleteTx_eq_iff (folder : f.isFolder = true) (now : Time) :
    db.softDeleteTx f now = db.deleteSubtree f now ↔
      (∀ g ∈ db.files, (f.toDelete g = true ↔ f.below g = true)) ∧
      (∀ v ∈ db.versions, (v.current = true ∧ db.versionOf f.inDelete v = true ↔
        v.current = true ∧ db.versionOf f.below v = true)) ∧
      ∀ p ∈ db.placements, (p.held = true ∧ db.placementOf f.inDelete p = true ↔
        p.held = true ∧ db.currentPlacementOf f.below p = true) := by
  have files := @updateWhere_eq_iff File f.toDelete f.below (File.softDelete now) db.files <| by
    intro g _ selected same
    have alive : g.deletedAt = none := by
      rcases selected with code | meant
      · exact ((File.toDelete_folder folder).mp code).2
      · exact (File.below_iff.mp meant).2.1
    have stamped := congrArg File.deletedAt same
    rw [alive] at stamped
    cases stamped
  have versions := @updateWhere_eq_iff FileVersion
    (fun v => v.current ∧ db.versionOf f.inDelete v) (fun v => v.current ∧ db.versionOf f.below v)
    FileVersion.expire db.versions <| by
    intro v _ selected same
    simp only [decide_eq_true_eq] at selected
    have isCurrent : v.current = true := selected.elim And.left And.left
    rw [← same] at isCurrent
    simp [FileVersion.current, FileVersion.expire] at isCurrent
  have placements := @updateWhere_eq_iff Placement
    (fun p => p.held ∧ db.placementOf f.inDelete p)
    (fun p => p.held ∧ db.currentPlacementOf f.below p)
    (Placement.setStatus .expiring) db.placements <| by
    intro p _ selected same
    simp only [decide_eq_true_eq] at selected
    have isHeld : p.held = true := selected.elim And.left And.left
    rw [← same] at isHeld
    simp [Placement.held] at isHeld
  simp only [decide_eq_true_eq] at versions placements
  rw [← files, ← versions, ← placements]
  simp only [DB.softDeleteTx, DB.deleteSubtree, DB.mk.injEq, true_and, and_true]

/-- `SoftDeleteFile` on a folder is the delete of its subtree exactly when LIKE
agrees with the test for a leading path on the live files of the bucket, and the
files it matches have nothing left over from an earlier delete. -/
theorem softDeleteFile_iff (schema : db.Schema) {ownerId : Uuid}
    (found : db.fileById ownerId f.id = .ok f) (folder : f.isFolder = true) (now : Time) :
    db.softDeleteFile ownerId f.id now = .ok (db.deleteSubtree f now) ↔ SubtreeMatched db f := by
  simp only [DB.softDeleteFile, found, Except.ok.injEq]
  rw [softDeleteTx_eq_iff folder, files_agree_iff folder]
  constructor
  · rintro ⟨matching, versions, placements⟩
    exact ⟨matching, (versions_agree_iff folder matching schema).mp versions,
      (placements_agree_iff folder matching schema).mp placements⟩
  · rintro ⟨matching, versions, placements⟩
    exact ⟨matching, (versions_agree_iff folder matching schema).mpr versions,
      (placements_agree_iff folder matching schema).mpr placements⟩

end Folder

/-- A folder whose path has no metacharacter matches its subtree and no other
path. -/
theorem subtree_of_plain {folder : Text} (plain : ∀ c ∈ folder, likeMeta c = false)
    (path : Text) :
    inSubtree folder path = true ↔ path = folder ∨ folder ++ ['/'] <+: path := by
  have stem : ∀ c ∈ folder ++ ['/'], likeMeta c = false := by
    intro c member
    rcases mem_append_row.mp member with inPath | rfl
    · exact plain c inPath
    · decide
  have pattern : folder ++ ['/', '%'] = (folder ++ ['/']) ++ ['%'] := by simp
  rw [inSubtree, decide_eq_true_eq, pattern, like_stem_iff stem]

namespace Sample

/-- The uploaded file goes to `/c/f`.  The folder `/c` has a sibling `/cd`, and one of the
other folders has a metacharacter in its name. -/
def folders : List Event :=
  [.act (.renameFile owner (gen 0) ['/', 'c', '/', 'f'] []),
    .act (.createFolder owner bucket.id ['/', 'a', '_'] 10),
    .act (.createFolder owner bucket.id ['/', 'a', 'b', '/', 'x'] 11),
    .act (.createFolder owner bucket.id ['/', 'c'] 12),
    .act (.createFolder owner bucket.id ['/', 'c', 'd'] 13)]

def folder (id : Uuid) (path : Text) : File where
  id := id
  bucketId := bucket.id
  path := path
  isFolder := true
  currentVersion := none
  status := .active
  deletedAt := none

/-- The uploaded file, at a path. -/
def fileAt (path : Text) : File :=
  { folder (gen 0) path with isFolder := false, currentVersion := some (gen 1) }

def withFolders : System where
  db :=
    { committed.db with
      files := [fileAt ['/', 'c', '/', 'f'], folder 10 ['/', 'a', '_'],
        folder 11 ['/', 'a', 'b', '/', 'x'], folder 12 ['/', 'c'], folder 13 ['/', 'c', 'd']] }
  calls := committed.calls

theorem withFolders_reachable : Reachable toySig withFolders.db :=
  @reachable_of_run folders withFolders (by decide +kernel)

end Sample

/-- `/c` is deleted with `/c/f`, its version and its placements; `/cd` stays. -/
theorem plainFolder_deleted :
    withFolders.db.softDeleteFile owner 12 5 =
      .ok (withFolders.db.deleteSubtree (folder 12 ['/', 'c']) 5) := by
  refine (@softDeleteFile_iff _ (folder 12 ['/', 'c'])
    (reachable_schema withFolders_reachable) owner (by decide) rfl 5).mpr
    ⟨fun g _ _ _ => subtree_of_plain (by decide) g.path, ?_, ?_⟩
  · decide
  · rintro p - - v g ⟨fr, -, c, -, inVersions, inFiles, -⟩ -
    have live : ∀ g ∈ withFolders.db.files, g.deletedAt = none := by decide
    have current : ∀ v ∈ withFolders.db.versions, v.current = true := by decide
    exact ⟨live g inFiles, current v inVersions⟩

/-- Deleting `/a_` deletes `/ab/x`. -/
theorem metaFolder_deletes_sibling :
    ∃ db, Reachable toySig db ∧
      db.fileById owner 10 = .ok (folder 10 ['/', 'a', '_']) ∧
      db.softDeleteFile owner 10 5 ≠
        .ok (db.deleteSubtree (folder 10 ['/', 'a', '_']) 5) := by
  refine ⟨withFolders.db, withFolders_reachable, by decide, ?_⟩
  intro same
  have files := congrArg (fun r => r.toOption.map DB.files) same
  revert files
  decide +kernel

end StoragePlatform
