/-
Module: StoragePlatform.Proofs.Threshold
Purpose: What the commit threshold counts: placement rows, and when these are as
  many fragments.
Trusted boundary: none
Main exports: CommitsAtThreshold, SingleRows, doublePlan_commits_short
-/
import StoragePlatform.Proofs.Caps

namespace StoragePlatform

open Lib List Sample

variable {f chunkId : Uuid} {db db' : DB} {c : Chunk}

/-! ### The property and the condition -/

/-- The fragments of a chunk that have a stored placement. -/
def DB.storedFragments (db : DB) (chunkId : Uuid) : Nat :=
  db.fragments.countP fun fr => fr.chunkId = chunkId ∧
    ∃ p ∈ db.placements, p.fragmentId = fr.id ∧ p.status = .stored

/-- A version that the step takes from pending to committed has fourteen stored
fragments in every chunk. -/
def CommitsAtThreshold (s : System) (_ : Event) (t : System) : Prop :=
  ∀ v ∈ s.db.versions, v.status = .pending → ∀ v' ∈ t.db.versions, v'.id = v.id →
    v'.status = .committed → ∀ c ∈ t.db.chunks, c.versionId = v.id →
      14 ≤ t.db.storedFragments c.id
deriving Decidable

/-- The fragment belongs to a pending version. -/
def DB.PendingFragment (db : DB) (fragmentId : Uuid) : Prop :=
  ∃ fr ∈ db.fragments, fr.id = fragmentId ∧ ∃ c ∈ db.chunks, c.id = fr.chunkId ∧
    ∃ v ∈ db.versions, v.id = c.versionId ∧ v.status = .pending
deriving Decidable

/-- The fragments an operation brings a live row for: the inserted one, the
restored ones. -/
def RowOp.brings (rows : List Placement) : RowOp → List Uuid
  | .insert f _ => [f]
  | .restore ids =>
    (rows.filter fun p => p.status = .lost ∧ p.id ∈ ids).map Placement.fragmentId
  | _ => []

/-- No row is inserted or restored for a fragment of a pending version that has a
pending or stored row already. -/
def SingleRows (s : System) (e : Event) (_ : System) : Prop :=
  ∀ f ∈ (rowOp s e).brings s.db.placements, s.db.PendingFragment f →
    (∀ p ∈ s.db.placements, p.fragmentId = f → p.live = false) ∧
      ((rowOp s e).brings s.db.placements).count f ≤ 1
deriving Decidable

/-! ### Live rows of a fragment -/

/-- The fragments of the live rows, one entry a row. -/
def liveFragments (rows : List Placement) : List Uuid :=
  (liveCopies rows).map Prod.fst

theorem liveFragments_apply (next : Nat) (op : RowOp) (rows : List Placement) :
    (liveFragments (op.apply next rows)).Subperm (liveFragments rows ++ op.brings rows) := by
  by_cases other : (∀ f n, op ≠ .insert f n) ∧ ∀ ids, op ≠ .restore ids
  · have fewer := (liveCopies_sublist other.1 other.2 next rows).map Prod.fst
    exact (fewer.trans (sublist_append_left _ _)).subperm
  cases op with
  | insert f n =>
    rw [liveFragments, liveCopies_insert, map_append]
    exact List.Subperm.refl _
  | restore ids =>
    have revived := (liveCopies_restore next ids rows).map Prod.fst
    rw [map_append, map_map] at revived
    exact revived.subperm
  | _ => exact absurd ⟨fun _ _ same => (by cases same), fun _ same => (by cases same)⟩ other

theorem liveFragments_markStored (stored : List Uuid) (rows : List Placement) :
    (liveFragments (markStored stored rows)).Sublist (liveFragments rows) := by
  rw [← RowOp.apply_store 0]
  exact (liveCopies_sublist (fun _ _ same => by cases same) (fun _ same => by cases same) 0
    rows).map Prod.fst

theorem count_liveFragments_eq_zero {rows : List Placement}
    (none_live : ∀ p ∈ rows, p.fragmentId = f → p.live = false) :
    (liveFragments rows).count f = 0 := by
  refine count_eq_zero.mpr fun member => ?_
  simp only [liveFragments, liveCopies, mem_map, mem_filter] at member
  obtain ⟨copy, ⟨p, ⟨inRows, live⟩, rfl⟩, ofFragment⟩ := member
  rw [none_live p inRows ofFragment] at live
  cases live

/-- Fragments of pending versions have at most one live row. -/
def SingleLive (db : DB) : Prop :=
  ∀ f, db.PendingFragment f → (liveFragments db.placements).count f ≤ 1

/-- Every chunk has a fragment.  The threshold query joins chunks with their
fragments, so it would not see a chunk without one. -/
def Fragmented (db : DB) : Prop :=
  ∀ c ∈ db.chunks, ∃ fr ∈ db.fragments, fr.chunkId = c.id

/-! ### What steps do to versions -/

section Steps

variable {sigOk : SigCheck} {s t : System} {e : Event}

theorem VersionStep.pending_old (moved : VersionStep s e db') :
    (∃ ownerId m gen planned, s.db.beginUpload ownerId m gen = .ok (planned, db')) ∨
      (db'.fragments = s.db.fragments ∧ db'.chunks = s.db.chunks ∧
        ∀ v ∈ db'.versions, v.status = .pending → v ∈ s.db.versions) := by
  cases moved with
  | begun ok => exact .inl ⟨_, _, _, _, ok⟩
  | committed call ok =>
    refine .inr ?_
    cases DB.commitUpload_inv ok with
    | already found before => exact ⟨rfl, rfl, fun v member _ => member⟩
    | now found pending enough =>
      refine ⟨rfl, rfl, fun v member isPending => ?_⟩
      rcases mem_updateWhere.mp member with ⟨old, inRows, chosen, rfl⟩ | ⟨inRows, -⟩
      · cases isPending
      · exact inRows
  | other fragments chunks versions =>
    refine .inr ⟨fragments, chunks, fun v member isPending => ?_⟩
    exact (versions v member).resolve_right fun ended => ended.1 isPending

/-- A fragment of a pending version was one before the step, or it is new and no
placement row has it. -/
theorem pendingFragment_of_step (moved : step sigOk s e = some t) (schema : s.db.Schema)
    (pending : t.db.PendingFragment f) :
    s.db.PendingFragment f ∨ ∀ p ∈ t.db.placements, p.fragmentId ≠ f := by
  obtain ⟨fr, inFragments, rfl, c, inChunks, ofChunk, v, inVersions, ofVersion, isPending⟩ :=
    pending
  have after := step_schema s e t schema moved
  rcases (step_written moved).versionStep.pending_old with
    ⟨ownerId, m, gen, planned, ok⟩ | ⟨fragments, chunks, versions⟩
  · have grown := Extends.beginUpload ok
    by_cases old : fr ∈ s.db.fragments
    · -- its chunk and its version are the ones it had
      obtain ⟨c', inOld, ofChunk'⟩ := schema.fragment_chunk fr old
      obtain rfl := after.chunk_pk.eq_of_key inChunks (grown.chunks.subset inOld)
        (ofChunk.trans ofChunk'.symm)
      obtain ⟨v', inOld', ofVersion'⟩ := schema.chunk_version c inOld
      obtain rfl := after.version_pk.eq_of_key inVersions (grown.versions.subset inOld')
        (ofVersion.trans ofVersion'.symm)
      exact .inl ⟨fr, old, rfl, c, inOld, ofChunk, v, inOld', ofVersion, isPending⟩
    · refine .inr fun p inRows ofFragment => old ?_
      rw [grown.placements] at inRows
      obtain ⟨fr', inOld, same⟩ := schema.placement_fragment p inRows
      rwa [after.fragment_pk.eq_of_key inFragments (grown.fragments.subset inOld)
        (ofFragment.symm.trans same.symm)]
  · rw [fragments] at inFragments
    rw [chunks] at inChunks
    exact .inl ⟨fr, inFragments, rfl, c, inChunks, ofChunk, v, versions v inVersions isPending,
      ofVersion, isPending⟩

theorem SingleLive.step (moved : step sigOk s e = some t) (schema : s.db.Schema)
    (single : SingleLive s.db) (allowed : SingleRows s e t) : SingleLive t.db := by
  intro f pending
  rcases pendingFragment_of_step moved schema pending with old | unplaced
  · have bound := (liveFragments_apply s.db.nextPlacementId (rowOp s e) s.db.placements).count_le f
    rw [← step_placements moved, count_append] at bound
    by_cases brought : f ∈ (rowOp s e).brings s.db.placements
    · obtain ⟨none_live, once⟩ := allowed f brought old
      have before := count_liveFragments_eq_zero none_live
      omega
    · have before := single f old
      have brings := count_eq_zero.mpr brought
      omega
  · have none_live : ∀ p ∈ t.db.placements, p.fragmentId = f → p.live = false :=
      fun p inRows ofFragment => absurd ofFragment (unplaced p inRows)
    rw [count_liveFragments_eq_zero none_live]
    exact Nat.zero_le 1

theorem Fragmented.insertUpload {file : File} {m : UploadManifest} {gen : Nat → Uuid}
    {planned : PlannedUpload} (h : Fragmented db)
    (ok : db.insertUpload file m gen = .ok (planned, db')) : Fragmented db' := by
  obtain ⟨-, inserted, -⟩ := DB.insertUpload_inv ok
  obtain ⟨rfl, nonempty⟩ := DB.insertChunks_rows inserted
  intro c member
  rcases mem_append.mp member with old | new
  · obtain ⟨fr, inTable, ofChunk⟩ := h c old
    exact ⟨fr, mem_append_left _ inTable, ofChunk⟩
  · obtain ⟨row, inRows, rfl⟩ := mem_map.mp new
    obtain ⟨-, ofChunk, ch, inManifest, j, fragments⟩ := mem_chunkRows inRows
    have some_row : row.2 ≠ [] := by
      rw [fragments]
      cases given : ch.fragments with
      | nil => exact absurd given (nonempty ch inManifest)
      | cons fr frs => exact cons_ne_nil _ _
    obtain ⟨fr, inRow⟩ := exists_mem_of_ne_nil _ some_row
    exact ⟨fr, mem_append_right _ (mem_flatMap.mpr ⟨row, inRows, inRow⟩), ofChunk fr inRow⟩

theorem VersionStep.fragmented (moved : VersionStep s e db') (h : Fragmented s.db) :
    Fragmented db' := by
  rcases moved.pending_old with ⟨ownerId, m, gen, planned, ok⟩ | ⟨fragments, chunks, -⟩
  · cases (DB.beginUpload_inv ok).1 with
    | @newFile path _ _ _ clean owned free fresh inserted =>
      have unchanged : Fragmented { s.db with files := s.db.files ++ [newFile m path gen] } :=
        h
      exact unchanged.insertUpload inserted
    | newVersion clean owned found inactive plain none_pending inserted =>
      exact h.insertUpload inserted
    | resumed clean owned found uploading pending same => exact h
  · rw [Fragmented, fragments, chunks]
    exact h

end Steps

/-! ### The threshold -/

/-- The stored rows of a chunk, which are what the threshold query counts. -/
def DB.storedRows (db : DB) (chunkId : Uuid) : List Placement :=
  db.placements.filter fun p => p.status = .stored ∧
    ∃ fr ∈ db.fragments, fr.id = p.fragmentId ∧ fr.chunkId = chunkId

theorem DB.chunkHealth_eq_length (schema : db.Schema) (chunkId : Uuid) :
    db.chunkHealth chunkId = (db.storedRows chunkId).length := by
  rw [chunkHealth, placedFragments, countP_innerJoin_of_unique schema.fragment_pk.nodup,
    storedRows, ← countP_eq_length_filter]
  · refine countP_congr fun p _ => ?_
    simp only [any_eq_true, Bool.and_eq_true, decide_eq_true_eq]
    constructor
    · rintro ⟨fr, inTable, joined, inChunk, stored⟩
      exact ⟨stored, fr, inTable, joined, inChunk⟩
    · rintro ⟨stored, fr, inTable, joined, inChunk⟩
      exact ⟨fr, inTable, joined, inChunk, stored⟩
  · intro p _ fr inTable fr' inTable' joined joined'
    exact schema.fragment_pk.eq_of_key inTable inTable'
      ((of_decide_eq_true joined).trans (of_decide_eq_true joined').symm)

theorem DB.mem_storedRows {p : Placement} :
    p ∈ db.storedRows chunkId ↔ p ∈ db.placements ∧ p.status = .stored ∧
      ∃ fr ∈ db.fragments, fr.id = p.fragmentId ∧ fr.chunkId = chunkId := by
  rw [storedRows, mem_filter, decide_eq_true_eq]

theorem DB.storedRows_sublist (db : DB) (chunkId : Uuid) :
    ((db.storedRows chunkId).map Placement.fragmentId).Sublist (liveFragments db.placements) := by
  rw [liveFragments, liveCopies, map_map]
  refine List.Sublist.map Placement.fragmentId ?_
  refine monotone_filter_right _ fun p counted => ?_
  have stored := (of_decide_eq_true counted).1
  simp [Placement.live, stored]

/-- With one live row a fragment, the rows the threshold counts are as many
fragments. -/
theorem DB.chunkHealth_le_storedFragments (schema : db.Schema)
    (single : ∀ fr ∈ db.fragments, fr.chunkId = chunkId →
      (liveFragments db.placements).count fr.id ≤ 1) :
    db.chunkHealth chunkId ≤ db.storedFragments chunkId := by
  rw [chunkHealth_eq_length schema, ← length_map Placement.fragmentId, storedFragments,
    countP_eq_length_filter, ← length_map Fragment.id]
  refine (subperm_of_subset (nodup_iff_count_le_one.mpr fun f => ?_) ?_).length_le
  · by_cases counted : f ∈ (db.storedRows chunkId).map Placement.fragmentId
    · obtain ⟨p, inRows, rfl⟩ := mem_map.mp counted
      obtain ⟨-, -, fr, inTable, joined, inChunk⟩ := mem_storedRows.mp inRows
      refine ((db.storedRows_sublist chunkId).count_le _).trans ?_
      rw [← joined]
      exact single fr inTable inChunk
    · rw [count_eq_zero.mpr counted]
      exact Nat.zero_le 1
  · intro f counted
    obtain ⟨p, inRows, rfl⟩ := mem_map.mp counted
    obtain ⟨inTable, stored, fr, inFragments, joined, inChunk⟩ := mem_storedRows.mp inRows
    refine mem_map.mpr ⟨fr, mem_filter.mpr ⟨inFragments, decide_eq_true ?_⟩, joined⟩
    exact ⟨inChunk, p, inTable, joined.symm, stored⟩

/-- When the threshold query lists no chunk of the version, each has its stored
fragments. -/
theorem DB.storedFragments_of_enough (schema : db.Schema) (fragmented : Fragmented db)
    {versionId : Uuid} (enough : db.shortChunks versionId = []) (inChunks : c ∈ db.chunks)
    (ofVersion : c.versionId = versionId) (single : ∀ fr ∈ db.fragments, fr.chunkId = c.id →
      (liveFragments db.placements).count fr.id ≤ 1) : 14 ≤ db.storedFragments c.id := by
  refine le_trans ?_ (chunkHealth_le_storedFragments schema single)
  by_contra short
  obtain ⟨fr, inFragments, inChunk⟩ := fragmented c inChunks
  have listed : c ∈ db.shortChunks versionId := by
    refine mem_filter.mpr ⟨inChunks, decide_eq_true ⟨ofVersion, ?_, Nat.lt_of_not_le short⟩⟩
    exact any_eq_true.mpr ⟨fr, inFragments, decide_eq_true inChunk⟩
  rw [enough] at listed
  cases listed

theorem VersionStep.commits (moved : VersionStep s e db') (schema : s.db.Schema)
    (after : db'.Schema) (fragmented : Fragmented s.db) (single : SingleLive s.db)
    {v v' : FileVersion} (before : v ∈ s.db.versions) (pending : v.status = .pending)
    (member : v' ∈ db'.versions) (same : v'.id = v.id) (committed : v'.status = .committed)
    (inChunks : c ∈ db'.chunks) (ofVersion : c.versionId = v.id) :
    14 ≤ db'.storedFragments c.id := by
  have changed : v' ∉ s.db.versions := by
    intro old
    rw [schema.version_pk.eq_of_key old before same, pending] at committed
    cases committed
  cases moved with
  | begun ok =>
    have kept := (Extends.beginUpload ok).versions.subset before
    rw [after.version_pk.eq_of_key member kept same, pending] at committed
    cases committed
  | other fragments chunks versions =>
    exact absurd committed ((versions v' member).resolve_left changed).2
  | @committed _ ownerId versionId _ _ stored result _ call ok =>
    cases DB.commitUpload_inv ok with
    | already found was => exact absurd member changed
    | now found was enough =>
      rcases mem_updateWhere.mp member with ⟨old, inRows, chosen, rfl⟩ | ⟨inRows, -⟩
      · obtain rfl : v.id = versionId := same.symm.trans (of_decide_eq_true chosen)
        have count := DB.storedFragments_of_enough (schema.markStored stored) fragmented enough
          inChunks ofVersion fun fr inFragments inChunk =>
            ((liveFragments_markStored stored s.db.placements).count_le _).trans (single fr.id
              ⟨fr, inFragments, rfl, c, inChunks, inChunk.symm, v, before, ofVersion.symm, pending⟩)
        exact count
      · exact absurd inRows changed

/-! ### The run -/

/-- In a run that never gives a fragment of a pending version a second live row,
an upload commits with fourteen stored fragments a chunk. -/
theorem commit_at_threshold (sigOk : SigCheck) {events : List Event}
    (singles : EveryStep (step sigOk) SingleRows System.init events) :
    EveryStep (step sigOk) CommitsAtThreshold System.init events := by
  refine EveryStep.of_inv (I := fun s => s.db.Schema ∧ Fragmented s.db ∧ SingleLive s.db) ?_ ?_ ?_
    singles
  · rintro s e t ⟨schema, fragmented, single⟩ moved allowed
    exact ⟨step_schema s e t schema moved, (step_written moved).versionStep.fragmented fragmented,
      single.step moved schema allowed⟩
  · rintro s e t ⟨schema, fragmented, single⟩ moved _ v before pending v' member same committed c
      inChunks ofVersion
    exact (step_written moved).versionStep.commits schema (step_schema s e t schema moved)
      fragmented single before pending member same committed inChunks ofVersion
  · refine ⟨DB.Schema.empty, fun c member => ?_, fun f pending => ?_⟩
    · cases member
    · exact Nat.zero_le 1

theorem upload_commits_at_threshold :
    EveryStep (step toySig) SingleRows System.init upload ∧
      EveryStep (step toySig) CommitsAtThreshold System.init upload := by
  have singles : EveryStep (step toySig) SingleRows System.init upload :=
    upload_everyStep (by decide +kernel) (by decide +kernel) (by decide +kernel)
  exact ⟨singles, commit_at_threshold toySig singles⟩

namespace Sample

/-- The seven nodes of the second half are drawn first. -/
def laterEnv : PlaceEnv :=
  { env fun i => i < 14 with draw := fun k => some (if k < 7 then 7 else 0) }

/-- Two calls plan the same upload.  Both place before either inserts, and place
every fragment on a different node. -/
def doublePlan : List Event :=
  registered ++
    [.request (.planUpload owner manifest gen), .request (.planUpload owner manifest gen),
      .move 0 (.place (env fun i => i < 14)), .move 1 (.place laterEnv)] ++
    List.replicate 14 (.move 0 .insert) ++ List.replicate 14 (.move 1 .insert) ++
    [.move 0 (.finish sign), .move 1 (.finish sign)]

/-- Then a commit with the receipts of seven fragments, from the nodes of the second
plan. -/
def halfCommit : List Event :=
  [.request (.commitUpload owner (gen 1)
      ((List.range 7).map (fun i => wire i (i + 7)))
      ((List.range 14).map (fun i => target (i + 1) i i) ++
        (List.range 14).map (fun i => target (i + 15) i ((i + 7) % 14)))),
    .move 2 .commit]

end Sample

/-- The commit marks both rows of each of the seven fragments and finds fourteen
stored rows.  Seven fragments are not enough to read the file back. -/
theorem doublePlan_commits_short :
    (exec (step toySig) System.init (doublePlan ++ halfCommit)).map (fun s =>
      (s.db.versions.map FileVersion.status, s.db.chunkHealth chunk.id,
        s.db.storedFragments chunk.id)) = some ([.committed], 14, 7) ∧
      ¬ EveryStep (step toySig) CommitsAtThreshold System.init
        (doublePlan ++ halfCommit) := by
  decide +kernel

end StoragePlatform
