/-
Module: StoragePlatform.Proofs.Deleted
Purpose: When a deleted file holds no placement any more.
Trusted boundary: none
Main exports: Released, InsertsLive, fragmentOf_deleted_origin, released_iff
-/
import StoragePlatform.Proofs.Steps

namespace StoragePlatform

open Lib Sample

/-!
The delete transaction marks every held placement of the file expiring, and no
later statement takes a row out of expiring and deleted again.  A row of a
deleted file can therefore be live only if it is inserted after the delete, by a
plan that read the version before it.
-/

def File.isDeleted (f : File) : Bool := f.deletedAt.isSome

/-- A deleted file's placements are all on their way out: none is pending or
stored, the storage meter pays for none, and the reaper sees every one that is
not gone. -/
structure Released (s : System) : Prop where
  not_live : ∀ p ∈ s.db.placements, s.db.placementOf File.isDeleted p = true → p.live = false
  reaped : ∀ p ∈ s.db.placements, s.db.placementOf File.isDeleted p = true →
    p.status = .expiring ∨ p.status = .deleted
  unpaid : ∀ nodeId, s.db.nodeHeldBytes nodeId =
    ((s.db.placedFragments.filter fun pf => (pf.1.nodeId = nodeId ∧ pf.1.status = .stored) ∧
      s.db.placementOf File.isDeleted pf.1 = false).map fun pf => pf.2.sizeBytes).sum

/-- The carried invariant. -/
def Leaving (s : System) : Prop :=
  ∀ p ∈ s.db.placements, s.db.placementOf File.isDeleted p = true →
    p.status = .expiring ∨ p.status = .deleted

/-- A placement row is inserted only for a fragment of a file that is not
deleted. -/
def InsertsLive (s : System) (e : Event) (_ : System) : Prop :=
  ∀ f n, rowOp s e = .insert f n → s.db.fragmentOf File.isDeleted f = false

theorem Leaving.released {s : System} (h : Leaving s) : Released s where
  not_live p member deleted := by
    rcases h p member deleted with status | status <;> simp [Placement.live, status]
  reaped := h
  unpaid nodeId := by
    rw [DB.nodeHeldBytes]
    congr 2
    refine List.filter_congr fun pf member => ?_
    have inTable := (DB.mem_placedFragments.mp member).1
    by_cases isStored : pf.1.status = .stored
    · have : s.db.placementOf File.isDeleted pf.1 = false := by
        refine Bool.eq_false_iff.mpr fun deleted => ?_
        rcases h pf.1 inTable deleted with status | status <;> simp [isStored] at status
      simp [this]
    · simp [isStored]

variable {sigOk : SigCheck} {s t : System} {e : Event}

/-! ### Where a deleted file comes from -/

/-- A file is deleted after a step if it was before, or if the step is a delete
that selects it. -/
theorem Written.deleted_files {db' : DB} (written : Written s e db') {f' : File}
    (member : f' ∈ db'.files) (deleted : f'.isDeleted = true) :
    (∃ g ∈ s.db.files, g.id = f'.id ∧ g.isDeleted = true) ∨
      ∃ f, Deletes s e f ∧ ∃ g ∈ s.db.files, g.id = f'.id ∧ f.inDelete g = true := by
  cases written.fileFrom member with
  | kept old | renamed old | committed old => exact .inl ⟨_, old, rfl, deleted⟩
  | deleted old chosen inDelete => exact .inr ⟨_, chosen, _, old, rfl, inDelete⟩
  | added _ _ _ live => simp [File.isDeleted, live] at deleted

/-- The same for the fragments of an existing version: the joins that lead from a
fragment to its file do not change. -/
theorem fragmentOf_deleted_origin (schema : s.db.Schema) (moved : step sigOk s e = some t)
    {x : Uuid} (exists_before : ∃ fr ∈ s.db.fragments, fr.id = x)
    (deleted : t.db.fragmentOf File.isDeleted x = true) :
    s.db.fragmentOf File.isDeleted x = true ∨
      ∃ f, Deletes s e f ∧ s.db.fragmentOf f.inDelete x = true := by
  have schema' := step_schema s e t schema moved
  have grows := step_grows moved
  obtain ⟨fr', inFragments', c', inChunks', v', inVersions', f', inFiles', ofFragment, ofChunk,
    ofVersion, ofFile, isDeleted⟩ := DB.fragmentOf_iff.mp deleted
  -- walk up from the old fragment; each row found is the one of the new chain
  obtain ⟨fr, inFragments, rfl⟩ := exists_before
  have sameFragment : fr = fr' :=
    schema'.fragment_pk.eq_of_key (grows.fragments inFragments) inFragments' ofFragment.symm
  obtain ⟨c, inChunks, ofChunk₀⟩ := schema.fragment_chunk fr inFragments
  have sameChunk : c = c' := schema'.chunk_pk.eq_of_key (grows.chunks inChunks) inChunks'
    (by rw [ofChunk₀, ofChunk, sameFragment])
  obtain ⟨v, inVersions, ofVersion₀⟩ := schema.chunk_version c inChunks
  obtain ⟨w, inVersions₁, kept⟩ := grows.versions v inVersions
  obtain ⟨sameId, sameFile, -⟩ := kept.fields
  have sameVersion : w = v' := schema'.version_pk.eq_of_key inVersions₁ inVersions'
    (by rw [sameId, ofVersion₀, ofVersion, sameChunk])
  have fileId : f'.id = v.fileId := by rw [ofFile, ← sameVersion, sameFile]
  have chain : ∀ {sel : File → Bool} {g : File}, g ∈ s.db.files → g.id = f'.id → sel g = true →
      s.db.fragmentOf sel fr.id = true := fun inFiles same selected =>
    DB.fragmentOf_iff.mpr ⟨fr, inFragments, c, inChunks, v, inVersions, _, inFiles, rfl, ofChunk₀,
      ofVersion₀, same.trans fileId, selected⟩
  rcases (step_written moved).deleted_files inFiles' isDeleted with
    ⟨g, inFiles, same, was⟩ | ⟨f, deletes, g, inFiles, same, chosen⟩
  · exact .inl (chain inFiles same was)
  · exact .inr ⟨f, deletes, chain inFiles same chosen⟩

/-- A fragment of a deleted file stays one. -/
theorem fragmentOf_deleted_grow {db db' : DB} (grows : Grows db db') {x : Uuid}
    (deleted : db.fragmentOf File.isDeleted x = true) :
    db'.fragmentOf File.isDeleted x = true := by
  obtain ⟨fr, inFragments, c, inChunks, v, inVersions, f, inFiles, ofFragment, ofChunk, ofVersion,
    ofFile, isDeleted⟩ := DB.fragmentOf_iff.mp deleted
  obtain ⟨v', inVersions', kept⟩ := grows.versions v inVersions
  obtain ⟨sameVersion, sameFile, -⟩ := kept.fields
  obtain ⟨f', inFiles', sameId, -, stays⟩ := grows.files f inFiles
  exact DB.fragmentOf_iff.mpr ⟨fr, grows.fragments inFragments, c, grows.chunks inChunks, v',
    inVersions', f', inFiles', ofFragment, ofChunk, sameVersion.trans ofVersion,
    by rw [sameId, sameFile, ofFile], stays isDeleted⟩

/-! ### The step -/

theorem Deletes.rowOp {f : File} (deletes : Deletes s e f) :
    StoragePlatform.rowOp s e = .expire (s.db.placementOf f.inDelete) := by
  obtain ⟨i, now, rfl, call⟩ := deletes
  simp only [StoragePlatform.rowOp, call, moveOp]

theorem Leaving.step (schema : s.db.Schema) (h : Leaving s)
    (moved : StoragePlatform.step sigOk s e = some t) (guard : InsertsLive s e t) :
    Leaving t := by
  intro q member deleted
  rw [step_placements moved] at member
  rcases RowOp.mem_apply_inv member with ⟨p, inTable, becomes, same⟩ | ⟨f, n, op, rfl⟩
  · have fragment : p.fragmentId = q.fragmentId := congrArg (·.2.1) same
    rw [DB.placementOf, ← fragment] at deleted
    rcases fragmentOf_deleted_origin schema moved (schema.placement_fragment p inTable) deleted
      with before | ⟨f, deletes, chosen⟩
    · exact RowOp.after_leaving (h p inTable before) becomes
    · -- the delete selects the row: it becomes expiring, unless it is past that
      rw [deletes.rowOp] at becomes
      exact RowOp.after_expire chosen becomes
  · -- the inserted row is the one the guard speaks about
    have live := guard f n op
    have exists_before : ∃ fr ∈ s.db.fragments, fr.id = f := by
      have adds := (rowOp_insert op).1
      simp only [DB.insertAdds, List.any_eq_true, decide_eq_true_eq] at adds
      exact adds.1
    rcases fragmentOf_deleted_origin schema moved exists_before deleted with
      before | ⟨g, deletes, -⟩
    · simp [live] at before
    · simp [deletes.rowOp] at op

/-- An INSERT for a fragment of a deleted file leaves a live row. -/
theorem Released.insertsLive (moved : step sigOk s e = some t) (h : Released t) :
    InsertsLive s e t := by
  intro f n op
  refine Bool.eq_false_iff.mpr fun deleted => ?_
  have inTable : { id := s.db.nextPlacementId, fragmentId := f, nodeId := n, status := .pending } ∈
      t.db.placements := by
    rw [step_placements moved, op]
    simp
  have dead := h.not_live _ inTable (fragmentOf_deleted_grow (step_grows moved) deleted)
  simp [Placement.live] at dead

/-! ### The run -/

namespace Sample

/-- A repair is planned for a lost shard and has asked the scheduler when the
owner deletes the file.  The plan then inserts its row and the repair commits. -/
def lateInsert : List Event :=
  [.act (.nodeOffline (node 0).id),
    .request (.planRepair chunk.id), .move 2 .load, .move 2 (.place (env fun i => i = 14)),
    .request (.deleteFile owner (gen 0)), .move 3 (.delete 0),
    .move 2 .insert,
    .request (.commitRepair chunk.id [wire 0 14] [target 15 0 14]), .move 4 .commit]

/-- After it the deleted file has a stored placement. -/
theorem lateInsert_stored :
    (exec (step toySig) committed lateInsert).map (fun s =>
      s.db.placements.any fun p =>
        p.status = .stored ∧ s.db.placementOf File.isDeleted p = true) = some true := by
  decide +kernel

end Sample

end StoragePlatform
