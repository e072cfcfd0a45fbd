/-
Module: StoragePlatform.Store.Constraints
Purpose: Every store statement keeps the declared constraints.
Trusted boundary: none
Main exports: DB.Schema.withPlacements, DB.Schema.insertPlacement, DB.Schema.renameFile
-/
import StoragePlatform.Store.Files

namespace StoragePlatform

open Lib List

variable {db db' : DB} {m : UploadManifest} {gen : Nat → Uuid} {planned : PlannedUpload} {f : File}
variable {ownerId : Uuid}

/-! ### Columns that no UPDATE touches -/

/-- The identifying columns of a placement row. -/
def Placement.key (p : Placement) : Nat × Uuid × Uuid := (p.id, p.fragmentId, p.nodeId)

theorem map_key_setStatus (sel : Placement → Bool) (status : PlacementStatus)
    (rows : List Placement) :
    (updateWhere sel (Placement.setStatus status) rows).map Placement.key =
      rows.map Placement.key := by
  apply map_updateWhere
  exact fun _ => rfl

theorem map_key_markStored (fragmentIds : List Uuid) (rows : List Placement) :
    (markStored fragmentIds rows).map Placement.key = rows.map Placement.key := by
  induction fragmentIds generalizing rows with
  | nil => rfl
  | cons f fs ih =>
    rw [markStored, foldl_cons]
    exact (ih _).trans (map_key_setStatus _ _ _)

namespace DB.Schema

variable (h : db.Schema)
include h

/-- Constraints on placements are about the identifying columns only, so they
survive status changes and removals. -/
theorem withPlacements {rows : List Placement}
    (fewer : (rows.map Placement.key).Sublist (db.placements.map Placement.key)) :
    { db with placements := rows }.Schema := by
  have from_old : ∀ p ∈ rows, ∃ q ∈ db.placements, q.key = p.key := fun p member =>
    mem_map.mp (fewer.subset (mem_map_of_mem member))
  have column : ∀ {κ : Type} (g : Nat × Uuid × Uuid → κ),
      (rows.map fun p => g p.key).Sublist (db.placements.map fun p => g p.key) := by
    intro κ g
    simpa [map_map, Function.comp_def] using fewer.map g
  exact
    { h with
      placement_pk := h.placement_pk.of_sublist (column fun k => k.1)
      placement_pair := h.placement_pair.of_sublist (column fun k => k.2)
      placement_fragment := by
        intro p member
        obtain ⟨q, old, same⟩ := from_old p member
        obtain ⟨fr, inTable, joined⟩ := h.placement_fragment q old
        exact ⟨fr, inTable, joined.trans (congrArg (·.2.1) same)⟩
      placement_node := by
        intro p member
        obtain ⟨q, old, same⟩ := from_old p member
        obtain ⟨n, inTable, joined⟩ := h.placement_node q old
        exact ⟨n, inTable, joined.trans (congrArg (·.2.2) same)⟩
      placement_seq := by
        intro p member
        obtain ⟨q, old, same⟩ := from_old p member
        have sameId : q.id = p.id := congrArg (·.1) same
        exact sameId ▸ h.placement_seq q old }

theorem setStatus (sel : Placement → Bool) (status : PlacementStatus) :
    { db with placements := updateWhere sel (Placement.setStatus status) db.placements }.Schema :=
  h.withPlacements (by rw [map_key_setStatus])

theorem markStored (fragmentIds : List Uuid) :
    { db with placements := StoragePlatform.markStored fragmentIds db.placements }.Schema :=
  h.withPlacements (by rw [map_key_markStored])

/-- A files UPDATE that keeps the ids and leaves the live paths unique. -/
theorem withFiles {files : List File}
    (ids : files.map File.id = db.files.map File.id) (paths : UniqueLivePaths files) :
    { db with files := files }.Schema :=
  { h with
    file_pk := by rw [UniqueOn, ids]; exact h.file_pk
    file_live_path := paths
    version_file := by
      intro v member
      obtain ⟨f, inTable, owns⟩ := h.version_file v member
      have : v.fileId ∈ files.map File.id := by
        rw [ids, ← owns]
        exact mem_map_of_mem inTable
      exact mem_map.mp this }

/-- A versions UPDATE that keeps ids and files. -/
theorem withVersions {versions : List FileVersion}
    (same : versions.map (fun v => (v.id, v.fileId)) = db.versions.map fun v => (v.id, v.fileId)) :
    { db with versions := versions }.Schema := by
  have ids : versions.map FileVersion.id = db.versions.map FileVersion.id := by
    simpa [map_map, Function.comp_def] using congrArg (List.map Prod.fst) same
  exact
    { h with
      version_pk := by rw [UniqueOn, ids]; exact h.version_pk
      version_file := by
        intro v member
        have kept : (v.id, v.fileId) ∈ db.versions.map fun v => (v.id, v.fileId) :=
          same ▸ mem_map_of_mem member
        obtain ⟨w, inTable, eq⟩ := mem_map.mp kept
        obtain ⟨f, inFiles, owns⟩ := h.version_file w inTable
        exact ⟨f, inFiles, owns.trans (congrArg Prod.snd eq)⟩
      chunk_version := by
        intro c member
        obtain ⟨v, inTable, owns⟩ := h.chunk_version c member
        have : c.versionId ∈ versions.map FileVersion.id := by
          rw [ids, ← owns]
          exact mem_map_of_mem inTable
        exact mem_map.mp this }

/-! ### Placement statements -/

theorem insertPlacement {fragmentId nodeId : Uuid}
    (inserted : db.insertPlacement fragmentId nodeId = .ok db') : db'.Schema := by
  simp only [DB.insertPlacement] at inserted
  split at inserted
  · cases inserted
  rename_i present
  simp only [not_or, Decidable.not_not, any_eq_true, decide_eq_true_eq] at present
  split at inserted
  · cases inserted
    exact { h with placement_seq := fun p member => Nat.lt_succ_of_lt (h.placement_seq p member) }
  rename_i fresh
  simp only [any_eq_true, decide_eq_true_eq, not_exists, not_and] at fresh
  cases inserted
  refine
    { h with
      placement_pk := h.placement_pk.append_singleton fun p member => ?_
      placement_pair := h.placement_pair.append_singleton fun p member same => ?_
      placement_fragment := ?_
      placement_node := ?_
      placement_seq := ?_ }
  · exact Nat.ne_of_lt (h.placement_seq p member)
  · exact fresh p member (congrArg Prod.fst same) (congrArg Prod.snd same)
  all_goals
    intro p member
    rcases mem_append.mp member with old | new
  · exact h.placement_fragment p old
  · rw [mem_singleton.mp new]; exact present.1
  · exact h.placement_node p old
  · rw [mem_singleton.mp new]; exact present.2
  · exact Nat.lt_succ_of_lt (h.placement_seq p old)
  · rw [mem_singleton.mp new]; exact Nat.lt_succ_self _

theorem insertPlacements {pairs : List (Uuid × Uuid)} {result : Except StoreErr Unit}
    (inserted : db.insertPlacements pairs = (result, db')) : db'.Schema := by
  induction pairs generalizing db with
  | nil =>
    cases inserted
    exact h
  | cons pair pairs ih =>
    simp only [DB.insertPlacements] at inserted
    split at inserted
    · cases inserted
      exact h
    · rename_i db₁ first
      exact ih (h.insertPlacement first) inserted

/-! ### Planning an upload -/

theorem insertFragment {fr : Fragment} (inserted : db.insertFragment fr = .ok db') :
    db'.Schema := by
  obtain ⟨-, fresh, owned, rfl⟩ := DB.insertFragment_inv inserted
  exact
    { h with
      fragment_pk := h.fragment_pk.append_singleton fun old member => (fresh old member).1
      fragment_shard := h.fragment_shard.append_singleton fun old member same =>
        (fresh old member).2 ⟨congrArg Prod.fst same, congrArg Prod.snd same⟩
      fragment_chunk := by
        intro old member
        rcases mem_append_row.mp member with member | rfl
        · exact h.fragment_chunk old member
        · exact owned
      placement_fragment := by
        intro p member
        obtain ⟨old, inTable, joined⟩ := h.placement_fragment p member
        exact ⟨old, mem_append_left _ inTable, joined⟩ }

theorem insertChunk {c : Chunk} (inserted : db.insertChunk c = .ok db') :
    db'.Schema := by
  obtain ⟨-, fresh, owned, rfl⟩ := DB.insertChunk_inv inserted
  exact
    { h with
      chunk_pk := h.chunk_pk.append_singleton fun old member => (fresh old member).1
      chunk_seq := h.chunk_seq.append_singleton fun old member same =>
        (fresh old member).2 ⟨congrArg Prod.fst same, congrArg Prod.snd same⟩
      chunk_version := by
        intro old member
        rcases mem_append_row.mp member with member | rfl
        · exact h.chunk_version old member
        · exact owned
      fragment_chunk := by
        intro fr member
        obtain ⟨old, inTable, joined⟩ := h.fragment_chunk fr member
        exact ⟨old, mem_append_left _ inTable, joined⟩ }

theorem insertUpload {file : File} (present : ∃ f ∈ db.files, f.id = file.id)
    (inserted : db.insertUpload file m gen = .ok (planned, db')) : db'.Schema := by
  obtain ⟨fresh, rows, -⟩ := DB.insertUpload_inv inserted
  refine DB.insertChunks_induction (fun kept one => kept.insertChunk one)
    (fun kept one => kept.insertFragment one) ?_ rows
  exact
    { h with
      version_pk := h.version_pk.append_singleton fresh
      version_file := by
        intro v member
        rcases mem_append_row.mp member with member | rfl
        · exact h.version_file v member
        · exact present
      chunk_version := by
        intro c member
        obtain ⟨v, inTable, joined⟩ := h.chunk_version c member
        exact ⟨v, mem_append_left _ inTable, joined⟩ }

/-- A new live file row at a path no live file has. -/
theorem addFile (fresh : ∀ g ∈ db.files, g.id ≠ f.id)
    (free : db.liveFileAt f.bucketId f.path = none) :
    { db with files := db.files ++ [f] }.Schema := by
  refine
    { h with
      file_pk := h.file_pk.append_singleton fresh
      file_live_path := ?_
      version_file := fun v member => ?_ }
  · simp only [filter_append, filter_singleton]
    cases live : f.deletedAt.isNone with
    | false => simpa using h.file_live_path
    | true =>
      refine h.file_live_path.append_singleton fun g member same => ?_
      simp only [mem_filter, Option.isNone_iff_eq_none] at member
      simp only [DB.liveFileAt, find?_eq_none, decide_eq_true_eq] at free
      exact free g member.1 ⟨congrArg Prod.fst same, congrArg Prod.snd same, member.2⟩
  · obtain ⟨g, inTable, owns⟩ := h.version_file v member
    exact ⟨g, mem_append_left _ inTable, owns⟩

theorem beginUpload (begun : db.beginUpload ownerId m gen = .ok (planned, db')) :
    db'.Schema := by
  have present : ∀ {path : Text} {file : File}, db.liveFileAt m.bucketId path = some file →
      ∃ f ∈ db.files, f.id = file.id :=
    fun found => ⟨_, mem_of_find?_eq_some found, rfl⟩
  cases (DB.beginUpload_inv begun).1 with
  | newFile clean owned free fresh ok =>
    exact (h.addFile fresh free).insertUpload ⟨_, mem_append_right _ (by simp), rfl⟩ ok
  | newVersion clean owned found inactive plain none_pending ok =>
    exact h.insertUpload (present found) ok
  | resumed clean owned found uploading pending same => exact h

theorem abortUpload (versionId : Uuid) : (db.abortUpload versionId).Schema := by
  have fewer : ((db.placements.filter fun p =>
      !(p.status = .pending ∧ db.fragmentOfVersion versionId p.fragmentId)).map
        Placement.key).Sublist (db.placements.map Placement.key) := filter_sublist.map _
  have purged := h.withPlacements fewer
  simp only [DB.abortUpload]
  split
  · exact purged
  · refine purged.withVersions ?_
    apply map_updateWhere
    exact fun _ => rfl

theorem commitUpload {versionId : Uuid} {stored : List Uuid}
    {result : File × FileVersion}
    (committed : db.commitUpload ownerId versionId stored = .ok (result, db')) : db'.Schema := by
  cases DB.commitUpload_inv committed with
  | already found before => exact h
  | now found pending enough =>
    refine DB.Schema.withFiles (DB.Schema.withVersions (h.markStored stored) ?_) ?_ ?_
    · apply map_updateWhere
      exact fun _ => rfl
    · apply map_updateWhere
      exact fun _ => rfl
    · rw [UniqueLivePaths, filter_updateWhere_of_kept]
      · apply h.file_live_path.updateWhere
        exact fun _ => rfl
      · exact fun _ => rfl

/-! ### Files -/

theorem createFolder {bucketId id : Uuid} {path : Text}
    (created : db.createFolder ownerId bucketId path id = .ok (f, db')) : db'.Schema := by
  obtain ⟨-, -, -, -, -, -, fresh, free, rfl⟩ := DB.createFolder_inv created
  exact h.addFile fresh free

theorem renameFile {fileId : Uuid} {newPath : Text} {order : List Uuid}
    (renamed : db.renameFile ownerId fileId newPath order = .ok (f, db')) : db'.Schema := by
  rcases DB.renameFile_inv renamed with rfl | ⟨g, path, sel, rest, -, -, unique, -, rfl⟩
  · exact h
  · refine h.withFiles ?_ unique
    apply map_updateWhere
    exact fun _ => rfl

theorem softDeleteTx (f : File) (now : Time) : (db.softDeleteTx f now).Schema := by
  have ids : (updateWhere f.toDelete (File.softDelete now) db.files).map File.id =
      db.files.map File.id := by
    apply map_updateWhere
    exact fun _ => rfl
  have paths : UniqueLivePaths (updateWhere f.toDelete (File.softDelete now) db.files) := by
    rw [UniqueLivePaths, filter_updateWhere_of_dropped fun _ => rfl]
    refine h.file_live_path.of_sublist ((monotone_filter_right _ fun g kept => ?_).map _)
    exact (Bool.and_eq_true_iff.mp kept).1
  refine DB.Schema.withPlacements (DB.Schema.withVersions (h.withFiles ids paths) ?_) ?_
  · apply map_updateWhere
    exact fun _ => rfl
  · rw [map_key_setStatus]

end DB.Schema

/-! ### Joins -/

/-- The placements with their fragment and node, looked up one by one. -/
theorem DB.placementTargets_eq (schema : db.Schema) :
    db.placementTargets = db.placements.filterMap fun p =>
      (db.fragments.find? fun fr => fr.id = p.fragmentId).bind fun fr =>
        (db.nodes.find? fun n => n.id = p.nodeId).map fun n =>
          { placement := p, fragment := fr, node := n } := by
  rw [placementTargets, innerJoin_eq_filterMap schema.node_pk.nodup, placedFragments,
    innerJoin_eq_filterMap schema.fragment_pk.nodup, filterMap_filterMap, map_filterMap]
  · refine filterMap_congr fun p _ => ?_
    cases db.fragments.find? fun fr => fr.id = p.fragmentId with
    | none => rfl
    | some fr =>
      simp only [Option.map_some, Option.bind_some]
      cases db.nodes.find? fun n => n.id = p.nodeId <;> rfl
  · intro p _ fr inFragments fr' inFragments' joined joined'
    exact schema.fragment_pk.eq_of_key inFragments inFragments'
      ((of_decide_eq_true joined).trans (of_decide_eq_true joined').symm)
  · intro pf _ n inNodes n' inNodes' joined joined'
    exact schema.node_pk.eq_of_key inNodes inNodes'
      ((of_decide_eq_true joined).trans (of_decide_eq_true joined').symm)

/-- Every placement has its fragment and its node. -/
theorem DB.placementTargets_placement (schema : db.Schema) :
    db.placementTargets.map PlacementTarget.placement = db.placements := by
  rw [placementTargets_eq schema, map_filterMap]
  conv_rhs => rw [← filterMap_some (l := db.placements)]
  refine filterMap_congr fun p member => ?_
  obtain ⟨fr, inFragments, joined⟩ := schema.placement_fragment p member
  obtain ⟨n, inNodes, onNode⟩ := schema.placement_node p member
  cases found : db.fragments.find? fun fr => fr.id = p.fragmentId with
  | none => simpa [joined] using find?_eq_none.mp found fr inFragments
  | some fr =>
    cases found' : db.nodes.find? fun n => n.id = p.nodeId with
    | none => simpa [onNode] using find?_eq_none.mp found' n inNodes
    | some n => rfl

end StoragePlatform
