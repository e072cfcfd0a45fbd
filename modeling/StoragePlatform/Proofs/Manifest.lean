/-
Module: StoragePlatform.Proofs.Manifest
Purpose: Which manifests the metadata service issues tickets for: what is stored of
  them, and when the stored version can be read back.
Trusted boundary: none
Main exports: SaneVersion, ReadsBack, JsonManifest.Sane, badManifest_accepted
-/
import Mathlib.Algebra.Order.BigOperators.Group.List
import Mathlib.Algebra.Group.Action.Defs
import StoragePlatform.Metadata.Manifest
import StoragePlatform.Proofs.Download
import StoragePlatform.Proofs.Threshold

namespace StoragePlatform

open Lib List Sample

variable {v v' : FileVersion} {fileId ownerId versionId : Uuid} {c : Chunk} {db db' : DB}
variable {file : File} {m : UploadManifest} {planned : PlannedUpload} {row : Chunk × List Fragment}
variable {events : List Event} {fr : Fragment} {jm : JsonManifest} {parseUuid : Text → Option Uuid}
variable {jc : JsonChunk} {result : PlanResult}

/-! ### The rows of a version do not change -/

/-- Same version up to its status. -/
def FileVersion.SameBody (v v' : FileVersion) : Prop := v' = { v with status := v'.status }

theorem FileVersion.SameBody.refl (v : FileVersion) : v.SameBody v := rfl

theorem FileVersion.SameBody.id (same : v.SameBody v') : v'.id = v.id := by
  rw [same]

/-- The rows of a version are those it had. -/
structure RowsKept (versionId : Uuid) (db db' : DB) : Prop where
  version : ∀ v ∈ db.versions, v.id = versionId → ∃ v' ∈ db'.versions, v.SameBody v'
  chunks : (db'.chunks.filter fun c => c.versionId = versionId) =
    db.chunks.filter fun c => c.versionId = versionId
  fragments : ∀ c ∈ db.chunks, c.versionId = versionId → db'.fragmentsOf c.id = db.fragmentsOf c.id

theorem RowsKept.trans {a b c : DB} (ab : RowsKept versionId a b) (bc : RowsKept versionId b c) :
    RowsKept versionId a c where
  version v member ofVersion := by
    obtain ⟨v', inTable, same⟩ := ab.version v member ofVersion
    obtain ⟨v'', inTable', same'⟩ := bc.version v' inTable (same.id.trans ofVersion)
    exact ⟨v'', inTable', by rw [FileVersion.SameBody, same', same]⟩
  chunks := bc.chunks.trans ab.chunks
  fragments ch member ofVersion := by
    have inTable : ch ∈ b.chunks.filter fun c => c.versionId = versionId := by
      rw [ab.chunks]
      exact mem_filter.mpr ⟨member, decide_eq_true ofVersion⟩
    exact (bc.fragments ch (mem_filter.mp inTable).1 ofVersion).trans
      (ab.fragments ch member ofVersion)

section Kept

variable {sigOk : SigCheck} {s t : System} {e : Event} {gen : Nat → Uuid}

theorem DB.insertUpload_tables
    (ok : db.insertUpload file m gen = .ok (planned, db')) :
    db'.versions = db.versions ++ [db.newVersion file.id m gen] ∧
      db'.chunks = db.chunks ++ (chunkRows gen (gen 1) 2 m.chunks).map Prod.fst ∧
      db'.fragments = db.fragments ++ (chunkRows gen (gen 1) 2 m.chunks).flatMap Prod.snd := by
  obtain ⟨-, inserted, -⟩ := DB.insertUpload_inv ok
  obtain ⟨rfl, -⟩ := DB.insertChunks_rows inserted
  exact ⟨rfl, rfl, rfl⟩

/-- A new chunk has no id of an old one. -/
theorem DB.insertUpload_fresh
    (ok : db.insertUpload file m gen = .ok (planned, db')) (after : db'.Schema)
    (inRows : row ∈ chunkRows gen (gen 1) 2 m.chunks) (old : c ∈ db.chunks) : c.id ≠ row.1.id := by
  have keys := after.chunk_pk
  rw [(insertUpload_tables ok).2.1, UniqueOn, map_append, nodup_append] at keys
  exact keys.2.2 _ (mem_map_of_mem old) _ (mem_map_of_mem (mem_map_of_mem inRows))

/-- A new upload adds no chunk to another version and no fragment to another
chunk. -/
theorem RowsKept.inserted (after : db'.Schema)
    (ok : db.insertUpload file m gen = .ok (planned, db'))
    (known : ∃ v ∈ db.versions, v.id = versionId) : RowsKept versionId db db' := by
  obtain ⟨versions, chunks, fragments⟩ := DB.insertUpload_tables ok
  obtain ⟨v, inTable, rfl⟩ := known
  constructor
  · exact fun v member _ => ⟨v, by rw [versions]; exact mem_append_left _ member, .refl v⟩
  · rw [chunks, filter_append, append_right_eq_self, filter_eq_nil_iff]
    intro c member ofVersion
    obtain ⟨row, inRows, rfl⟩ := mem_map.mp member
    exact (DB.insertUpload_inv ok).1 v inTable
      ((of_decide_eq_true ofVersion).symm.trans (mem_chunkRows inRows).1)
  · intro c member _
    rw [DB.fragmentsOf, fragments, filter_append, DB.fragmentsOf, append_right_eq_self,
      filter_eq_nil_iff]
    intro fr inNew ofChunk
    obtain ⟨row, inRows, inRow⟩ := mem_flatMap.mp inNew
    exact DB.insertUpload_fresh ok after inRows member
      ((of_decide_eq_true ofChunk).symm.trans ((mem_chunkRows inRows).2.1 fr inRow))

theorem RowsKept.begun (schema : db.Schema)
    (ok : db.beginUpload ownerId m gen = .ok (planned, db'))
    (known : ∃ v ∈ db.versions, v.id = versionId) : RowsKept versionId db db' := by
  have after := schema.beginUpload ok
  cases (DB.beginUpload_inv ok).1 with
  | newFile _ _ _ _ inserted =>
    have kept := RowsKept.inserted after inserted known
    exact ⟨kept.version, kept.chunks, kept.fragments⟩
  | newVersion _ _ _ _ _ _ inserted => exact .inserted after inserted known
  | resumed => exact ⟨fun v member _ => ⟨v, member, .refl v⟩, rfl, fun _ _ _ => rfl⟩

theorem RowsKept.step (moved : step sigOk s e = some t) (schema : s.db.Schema)
    (known : ∃ v ∈ s.db.versions, v.id = versionId) : RowsKept versionId s.db t.db := by
  rcases (step_written moved).versionStep.pending_old with
    ⟨ownerId, m, gen, planned, ok⟩ | ⟨fragments, chunks, -⟩
  · exact .begun schema ok known
  · exact ⟨fun v member _ => ((step_grows moved).versions v member).imp fun _ kept =>
      ⟨kept.1, kept.2.body⟩, by rw [chunks],
      fun c _ _ => by rw [DB.fragmentsOf, DB.fragmentsOf, fragments]⟩

/-- Over a whole run the rows of a version stay as they are. -/
theorem RowsKept.run (schema : s.db.Schema)
    (ran : exec (StoragePlatform.step sigOk) s events = some t)
    (known : ∃ v ∈ s.db.versions, v.id = versionId) :
    t.db.Schema ∧ (∃ v ∈ t.db.versions, v.id = versionId) ∧ RowsKept versionId s.db t.db := by
  have both := exec_induction (I := fun u => u.db.Schema ∧ (∃ v ∈ u.db.versions, v.id = versionId) ∧
      RowsKept versionId s.db u.db) ?_ ⟨schema, known, ?_⟩ ran
  · exact both
  · rintro u e w ⟨schema', known', kept⟩ moved
    have next := RowsKept.step moved schema' known'
    obtain ⟨v, member, ofVersion⟩ := known'
    obtain ⟨v', member', same⟩ := next.version v member ofVersion
    exact ⟨step_schema u e w schema' moved, ⟨v', member', same.id.trans ofVersion⟩, kept.trans next⟩
  · exact ⟨fun v member _ => ⟨v, member, .refl v⟩, rfl, fun _ _ _ => rfl⟩

end Kept

/-! ### Sane versions -/

/-- What a manifest should leave in the tables. -/
structure SaneVersion (jm : JsonManifest) (db : DB) (v : FileVersion) : Prop where
  size : 0 ≤ v.sizeBytes
  chunk_sizes : ∀ c ∈ db.chunksOf v, 0 ≤ c.sizeBytes
  fragment_sizes : ∀ c ∈ db.chunksOf v, ∀ fr ∈ db.fragmentsOf c.id, 0 ≤ fr.sizeBytes
  /-- Chunk by chunk, the shard indices are those of the JSON. -/
  indices_given : List.Forall₂ (fun c (jc : JsonChunk) => c.seq = jc.seq.toInt ∧
    (db.fragmentsOf c.id).map Fragment.shardIndex =
      jc.fragments.map fun jf => jf.shardIndex.toInt) (db.chunksOf v) jm.chunks
  indices_usable : ∀ c ∈ db.chunksOf v, ∀ fr ∈ db.fragmentsOf c.id,
    0 ≤ fr.shardIndex ∧ fr.shardIndex < 16
  code : 1 ≤ v.ecDataShards ∧
    ∀ c ∈ db.chunksOf v, v.ecDataShards ≤ (db.fragmentsOf c.id).length

/-- The version is committed with its planned placements stored: which fragments
of a chunk these are is up to the scheduler, but a plan has fourteen, and no more
than a plan may list.  The nodes are online. -/
structure FullCommit (db : DB) (v : FileVersion) (ownerId fileId : Uuid) (after : DB) : Prop where
  schema : after.Schema
  current : ∃ v', after.currentVersion ownerId fileId = some v' ∧ v'.id = v.id ∧
    v'.ecDataShards = v.ecDataShards
  chunks : after.chunksOf v = db.chunksOf v
  fragments : ∀ c ∈ db.chunksOf v, after.fragmentsOf c.id = db.fragmentsOf c.id
  threshold : ∀ c ∈ db.chunksOf v, 14 ≤ after.storedFragments c.id
  nodes : ∀ n ∈ after.nodes, n.status = .online ∧ n.revokedAt = none
  room : ((db.chunksOf v).map fun c => (after.storedCopies c).length).sum ≤ maxPlanFragments

/-- The shard indices a client can put to use. -/
def DownloadResultChunk.usableIndices (rc : DownloadResultChunk) : List Int :=
  ((rc.fragments.map ShardRef.shardIndex).filter fun i => 0 ≤ i ∧ i < 16).dedup

/-- Once committed, the version can be planned for download, and the plan has
enough usable shards of every chunk. -/
def ReadsBack (db : DB) (v : FileVersion) (ownerId fileId : Uuid) : Prop :=
  ∀ after, FullCommit db v ownerId fileId after → ∀ env : DownloadEnv, env.Works →
    ∃ r after', after.planDownload env ownerId fileId = (.ok r, after') ∧
      ∀ c ∈ db.chunksOf v, ∃ rc ∈ r.chunks, rc.Of c ∧ v.ecDataShards ≤ rc.usableIndices.length

/-- The code asks for no more shards of a chunk than a plan is sure to place.  A
version of more chunks than fit a plan has none. -/
def FewShards (db : DB) (v : FileVersion) : Prop :=
  14 * (db.chunksOf v).length ≤ maxPlanFragments → ∀ c ∈ db.chunksOf v, v.ecDataShards ≤ 14

/-! ### Reading back -/

section ReadingBack

variable {copy : DownloadPlacement}

theorem DB.mem_fragmentsOf {chunkId : Uuid} :
    fr ∈ db.fragmentsOf chunkId ↔ fr ∈ db.fragments ∧ fr.chunkId = chunkId := by
  simp [fragmentsOf]

variable (schema : db.Schema) (inChunks : c ∈ db.chunks)
include schema inChunks

theorem DB.fragment_of_copy (member : copy ∈ db.storedCopies c) :
    copy.fragment ∈ db.fragmentsOf c.id := by
  obtain ⟨-, -, inFragments, ofChunk, -⟩ :=
    mem_downloadRows.mp ((mem_storedCopies schema inChunks).mp member)
  exact mem_fragmentsOf.mpr ⟨inFragments, ofChunk⟩

theorem DB.offeredCopies_of_online
    (online : ∀ n ∈ db.nodes, n.status = .online ∧ n.revokedAt = none) (need : Nat) :
    db.usableCopies c = db.storedCopies c ∧ db.offeredCopies need c = db.storedCopies c := by
  have onNode : ∀ copy ∈ db.storedCopies c,
      copy.node.status = .online ∧ copy.node.revokedAt = none := by
    intro copy member
    obtain ⟨-, -, -, -, inNodes, -⟩ :=
      mem_downloadRows.mp ((mem_storedCopies schema inChunks).mp member)
    exact online copy.node inNodes
  have usable : db.usableCopies c = db.storedCopies c := by
    refine filter_eq_self.mpr fun copy member => ?_
    simp [DownloadPlacement.admissible, onNode copy member]
  have all_online : ((db.storedCopies c).filter fun p => p.node.status = .online) =
      db.storedCopies c :=
    filter_eq_self.mpr fun copy member => decide_eq_true (onNode copy member).1
  refine ⟨usable, ?_⟩
  simp only [offeredCopies, usable, all_online, ite_self]

/-- Every stored fragment is among the shards of the copies. -/
theorem DB.storedFragments_le_distinctShards :
    db.storedFragments c.id ≤ distinctShards (db.storedCopies c) := by
  rw [storedFragments, countP_eq_length_filter, ← length_map Fragment.shardIndex, distinctShards]
  refine (subperm_of_subset (List.Nodup.map_on ?_ (schema.fragment_pk.nodup.filter _)) ?_).length_le
  · intro fr member fr' member' sameIndex
    simp only [mem_filter, decide_eq_true_eq] at member member'
    exact schema.fragment_shard.eq_of_key member.1 member'.1
      (Prod.ext (member.2.1.trans member'.2.1.symm) sameIndex)
  · intro index listed
    obtain ⟨fr, member, rfl⟩ := mem_map.mp listed
    simp only [mem_filter, decide_eq_true_eq] at member
    obtain ⟨inFragments, ofChunk, p, inTable, ofFragment, stored⟩ := member
    obtain ⟨n, inNodes, onNode⟩ := schema.placement_node p inTable
    rw [mem_dedup]
    refine mem_map.mpr ⟨⟨fr, n⟩, (mem_storedCopies schema inChunks).mpr ?_, rfl⟩
    exact mem_downloadRows.mpr ⟨inChunks, rfl, inFragments, ofChunk, inNodes, p, inTable,
      ofFragment, stored, onNode⟩

end ReadingBack

theorem chunksOf_congr (same : v'.id = v.id) : db.chunksOf v' = db.chunksOf v := by
  rw [DB.chunksOf, DB.chunksOf, same]

/-- The shard indices of a plan are those of the version's fragments. -/
theorem planned_usable {after : DB} (sane : SaneVersion jm db v)
    (commit : FullCommit db v ownerId fileId after) (sameId : v'.id = v.id)
    {chunks : List DownloadChunk} (loaded : Loaded after v' chunks) {dc : DownloadChunk}
    (member : dc ∈ chunks) {rc : DownloadResultChunk} (planned : dc.Planned v'.need rc) :
    rc.usableIndices = (rc.fragments.map ShardRef.shardIndex).dedup := by
  have inChunks := loaded.mem_chunksOf member
  have ofVersion : dc.chunk ∈ db.chunksOf v := by
    rw [← commit.chunks, ← chunksOf_congr sameId]
    exact inChunks
  rw [DownloadResultChunk.usableIndices, filter_eq_self.mpr]
  intro index listed
  rw [planned.2] at listed
  obtain ⟨copy, picked, rfl⟩ := mem_map.mp listed
  have offered := offeredCopies_subset after _ _ ((loaded.picked_perm member).subset picked)
  have ofChunk := DB.fragment_of_copy commit.schema (DB.mem_chunksOf.mp inChunks).1
    (mem_filter.mp offered).1
  rw [commit.fragments _ ofVersion] at ofChunk
  exact decide_eq_true (sane.indices_usable _ ofVersion _ ofChunk)

theorem readsBack_of_sane (sane : SaneVersion jm db v) (fewShards : FewShards db v) :
    ReadsBack db v ownerId fileId := by
  intro after commit env works
  obtain ⟨v', current, sameId, sameCode⟩ := commit.current
  have chunks : after.chunksOf v' = db.chunksOf v := (chunksOf_congr sameId).trans commit.chunks
  have inAfter : ∀ c ∈ db.chunksOf v, c ∈ after.chunks := fun c member =>
    (DB.mem_chunksOf.mp (commit.chunks ▸ member)).1
  have offered : ∀ c ∈ db.chunksOf v, after.usableCopies c = after.storedCopies c ∧
      after.offeredCopies v'.need c = after.storedCopies c := fun c member =>
    DB.offeredCopies_of_online commit.schema (inAfter c member) commit.nodes v'.need
  have shards : ∀ c ∈ db.chunksOf v, 14 ≤ distinctShards (after.storedCopies c) := fun c member =>
    (commit.threshold c member).trans
      (DB.storedFragments_le_distinctShards commit.schema (inAfter c member))
  have copies : ∀ c ∈ db.chunksOf v, 14 ≤ (after.storedCopies c).length := by
    intro c member
    refine (shards c member).trans ?_
    rw [distinctShards, ← length_map (fun p : DownloadPlacement => p.fragment.shardIndex)]
    exact (dedup_sublist _).length_le
  have few : ∀ c ∈ db.chunksOf v, v.ecDataShards ≤ 14 := by
    refine fewShards (le_trans ?_ commit.room)
    have each : ∀ n ∈ (db.chunksOf v).map fun c => (after.storedCopies c).length, 14 ≤ n := by
      intro n listed
      obtain ⟨c, member, rfl⟩ := mem_map.mp listed
      exact copies c member
    have total := card_nsmul_le_sum _ _ each
    rwa [length_map, smul_eq_mul, Nat.mul_comm] at total
  have allowed : ¬ DownloadRefused after v' := by
    rw [DownloadRefused, chunks]
    rintro (⟨c, member, -, lacking⟩ | many)
    · have code := sane.code.1
      have bound := few c member
      have enough := copies c member
      rw [(offered c member).1, FileVersion.need, sameCode] at lacking
      split at lacking <;> omega
    · rw [map_congr_left fun c member => congrArg List.length (offered c member).2] at many
      exact absurd commit.room (not_le.mpr many)
  have covered : DownloadCovered after v' := by
    rw [DownloadCovered, chunks]
    intro c member
    have bound := few c member
    have enough := shards c member
    refine ⟨ne_nil_of_length_pos (by have := copies c member; omega), ?_⟩
    rw [(offered c member).2, sameCode]
    omega
  obtain ⟨r, after', planned⟩ := planDownload_works works commit.schema current allowed
  obtain ⟨loadedChunks, loaded, pairs, -⟩ := planDownload_ok commit.schema current planned
  have complete := complete_of_covered loaded pairs covered
  refine ⟨r, after', planned, fun c member => ?_⟩
  obtain ⟨rc, inPlan, ofChunk⟩ := complete.listed c (chunks ▸ member)
  obtain ⟨dc, inLoaded, entry⟩ := forall₂_right pairs inPlan
  refine ⟨rc, inPlan, ofChunk, ?_⟩
  rw [planned_usable sane commit sameId loaded inLoaded entry, ← sameCode]
  exact complete.shards rc inPlan

/-! ### A commit that stores fourteen fragments a chunk -/

theorem DB.nodup_downloadRows (schema : db.Schema) (versionId : Uuid) :
    (db.downloadRows versionId).Nodup := by
  refine nodup_flatMap.mpr ⟨fun cf _ => List.Nodup.map_on ?_ ?_, ?_⟩
  · rintro ⟨p, n⟩ member ⟨p', n'⟩ member' same
    obtain rfl : n = n' := by simpa using same
    simp only [mem_innerJoin, mem_filter, decide_eq_true_eq] at member member'
    rw [schema.placement_pair.eq_of_key member.1.1 member'.1.1
      (Prod.ext (member.1.2.1.trans member'.1.2.1.symm) (member.2.2.symm.trans member'.2.2))]
  · exact nodup_innerJoin (schema.placement_pk.nodup.filter _) schema.node_pk.nodup
  · have pairs : (orderBy seqShardLe (innerJoin (fun (c : Chunk) (fr : Fragment) =>
        fr.chunkId = c.id) (db.chunks.filter fun c => c.versionId = versionId)
        db.fragments)).Nodup :=
      (orderBy_perm _ _).nodup_iff.mpr
        (nodup_innerJoin (schema.chunk_pk.nodup.filter _) schema.fragment_pk.nodup)
    refine pairs.imp fun {cf cf'} apart row inFirst inSecond => apart ?_
    obtain ⟨pn, -, rfl⟩ := mem_map.mp inFirst
    obtain ⟨pn', -, same⟩ := mem_map.mp inSecond
    simp only [Prod.mk.injEq, DownloadPlacement.mk.injEq] at same
    exact Prod.ext same.1.symm same.2.1.symm

theorem DB.nodup_storedCopies (schema : db.Schema) (c : Chunk) : (db.storedCopies c).Nodup := by
  refine List.Nodup.map_on ?_ ((nodup_downloadRows schema _).filter _)
  rintro ⟨c₁, copy⟩ member ⟨c₂, copy'⟩ member' rfl
  simp only [mem_filter, decide_eq_true_eq] at member member'
  have first := mem_downloadRows.mp member.1
  have second := mem_downloadRows.mp member'.1
  rw [schema.chunk_seq.eq_of_key first.1 second.1
    (Prod.ext (first.2.1.trans second.2.1.symm) (member.2.trans member'.2.symm))]

/-- A node that is up. -/
def onlineNode : Node := { (default : Node) with status := .online, revokedAt := none }

/-- Fourteen fragments of every chunk of the version. -/
def DB.fourteenOf (db : DB) (v : FileVersion) : List Fragment :=
  db.fragments.filter fun fr => ∃ c ∈ db.chunksOf v, fr ∈ (db.fragmentsOf c.id).take 14

/-- The version alone, committed, with fourteen fragments a chunk stored on one
node. -/
def DB.fourteenStored (db : DB) (v : FileVersion) (ownerId fileId : Uuid) : DB where
  buckets := [{ id := 0, ownerId := ownerId }]
  files :=
    [{ id := fileId, bucketId := 0, path := [], isFolder := false, currentVersion := some v.id,
       status := .active, deletedAt := none }]
  versions := [{ v with fileId := fileId, status := .committed }]
  chunks := db.chunksOf v
  fragments := db.fragments.filter fun fr => ∃ c ∈ db.chunksOf v, c.id = fr.chunkId
  nodes := [onlineNode]
  placements := (db.fourteenOf v).zipIdx.map fun row =>
    { id := row.2, fragmentId := row.1.id, nodeId := onlineNode.id, status := .stored }
  nextPlacementId := (db.fourteenOf v).length
  downloadTickets := []

section Fourteen

theorem DB.mem_fourteenOf :
    fr ∈ db.fourteenOf v ↔
      fr ∈ db.fragments ∧ ∃ c ∈ db.chunksOf v, fr ∈ (db.fragmentsOf c.id).take 14 := by
  simp [fourteenOf]

theorem DB.fourteenStored_fragments (member : c ∈ db.chunksOf v) :
    (db.fourteenStored v ownerId fileId).fragmentsOf c.id = db.fragmentsOf c.id := by
  rw [fragmentsOf, fourteenStored, filter_filter, fragmentsOf]
  refine filter_congr fun fr _ => ?_
  by_cases ofChunk : fr.chunkId = c.id
  · simp only [ofChunk, decide_true, Bool.true_and, decide_eq_true_eq]
    exact ⟨c, member, rfl⟩
  · simp [ofChunk]

theorem DB.mem_fourteenStored_placements {p : Placement}
    (member : p ∈ (db.fourteenStored v ownerId fileId).placements) :
    ∃ fr ∈ db.fourteenOf v, p.fragmentId = fr.id ∧ p.nodeId = onlineNode.id ∧
      p.id < (db.fourteenOf v).length := by
  obtain ⟨⟨fr, i⟩, listed, rfl⟩ := mem_map.mp member
  obtain ⟨inRange, at_⟩ := mem_zipIdx' listed
  exact ⟨fr, at_ ▸ getElem_mem _, rfl, rfl, inRange⟩

theorem DB.exists_fourteenStored (chosen : fr ∈ db.fourteenOf v) :
    ∃ p ∈ (db.fourteenStored v ownerId fileId).placements,
      p.fragmentId = fr.id ∧ p.status = .stored := by
  obtain ⟨i, inRange, rfl⟩ := getElem_of_mem chosen
  refine ⟨_, mem_map_of_mem (mk_mem_zipIdx_iff_getElem?.mpr
    (getElem?_eq_getElem inRange)), rfl, rfl⟩

variable (schema : db.Schema)
include schema

theorem DB.fourteenStored_schema : (db.fourteenStored v ownerId fileId).Schema where
  file_pk := nodup_singleton _
  file_live_path := nodup_singleton _
  version_pk := nodup_singleton _
  version_file := by
    intro row member
    rw [mem_singleton.mp member]
    exact ⟨_, mem_singleton.mpr rfl, rfl⟩
  chunk_pk := schema.chunk_pk.filter _
  chunk_seq := schema.chunk_seq.filter _
  chunk_version := by
    intro c member
    exact ⟨_, mem_singleton.mpr rfl, (mem_chunksOf.mp member).2.symm⟩
  fragment_pk := schema.fragment_pk.filter _
  fragment_shard := schema.fragment_shard.filter _
  fragment_chunk := by
    intro fr member
    exact of_decide_eq_true (mem_filter.mp member).2
  node_pk := nodup_singleton _
  placement_pk := by
    have ids : ((db.fourteenStored v ownerId fileId).placements.map Placement.id) =
        List.range' 0 (db.fourteenOf v).length := by
      rw [fourteenStored, map_map, ← zipIdx_map_snd]
      rfl
    rw [UniqueOn, ids]
    exact nodup_range'
  placement_pair := by
    have pairs : ((db.fourteenStored v ownerId fileId).placements.map fun p =>
        (p.fragmentId, p.nodeId)) = (db.fourteenOf v).map fun fr => (fr.id, onlineNode.id) := by
      rw [fourteenStored, map_map]
      nth_rewrite 2 [← zipIdx_map_fst 0 (db.fourteenOf v)]
      rw [map_map]
      rfl
    have ids : UniqueOn Fragment.id (db.fourteenOf v) := schema.fragment_pk.filter _
    rw [UniqueOn, pairs]
    have withNode := ids.map fun a b same => congrArg Prod.fst (same : (a, onlineNode.id) = (b, _))
    rwa [map_map] at withNode
  placement_fragment := by
    intro p member
    obtain ⟨fr, chosen, ofFragment, -, -⟩ := mem_fourteenStored_placements member
    obtain ⟨inFragments, c, inChunks, taken⟩ := mem_fourteenOf.mp chosen
    have ofChunk := (mem_fragmentsOf.mp (mem_of_mem_take taken)).2
    exact ⟨fr, mem_filter.mpr ⟨inFragments, decide_eq_true ⟨c, inChunks, ofChunk.symm⟩⟩,
      ofFragment.symm⟩
  placement_node := by
    intro p member
    obtain ⟨fr, -, -, onNode, -⟩ := mem_fourteenStored_placements member
    exact ⟨onlineNode, mem_singleton.mpr rfl, onNode.symm⟩
  placement_seq := by
    intro p member
    obtain ⟨fr, -, -, -, inRange⟩ := mem_fourteenStored_placements member
    exact inRange

/-- No chunk has more than fourteen copies. -/
theorem DB.fourteenStored_copies (member : c ∈ db.chunksOf v) :
    ((db.fourteenStored v ownerId fileId).storedCopies c).length ≤ 14 := by
  have after : (db.fourteenStored v ownerId fileId).Schema := fourteenStored_schema schema
  have subset : (db.fourteenStored v ownerId fileId).storedCopies c ⊆
      ((db.fragmentsOf c.id).take 14).map fun fr => ⟨fr, onlineNode⟩ := by
    intro copy listed
    obtain ⟨-, -, inFragments, ofChunk, inNodes, p, inTable, ofFragment, -, -⟩ :=
      mem_downloadRows.mp ((mem_storedCopies after member).mp listed)
    obtain ⟨fr, chosen, ofFragment', -, -⟩ := mem_fourteenStored_placements inTable
    obtain ⟨inTable', c', inChunks', taken⟩ := mem_fourteenOf.mp chosen
    obtain rfl : fr = copy.fragment := schema.fragment_pk.eq_of_key inTable'
      (mem_filter.mp inFragments).1 (ofFragment'.symm.trans ofFragment)
    have ofChunk' := (mem_fragmentsOf.mp (mem_of_mem_take taken)).2
    rw [← ofChunk', ofChunk] at taken
    refine mem_map.mpr ⟨copy.fragment, taken, ?_⟩
    rw [← mem_singleton.mp inNodes]
  have fewer := (subperm_of_subset (nodup_storedCopies after c) subset).length_le
  rw [length_map, length_take] at fewer
  omega

theorem DB.fourteenStored_threshold (member : c ∈ db.chunksOf v)
    (enough : 14 ≤ (db.fragmentsOf c.id).length) :
    14 ≤ (db.fourteenStored v ownerId fileId).storedFragments c.id := by
  have taken : ((db.fragmentsOf c.id).take 14).length = 14 := by
    rw [length_take]
    omega
  rw [← taken, storedFragments, countP_eq_length_filter]
  have nodup : ((db.fragmentsOf c.id).take 14).Nodup :=
    (schema.fragment_pk.nodup.filter _).sublist (take_sublist _ _)
  refine (subperm_of_subset nodup fun fr chosen => ?_).length_le
  obtain ⟨inFragments, ofChunk⟩ := mem_fragmentsOf.mp (mem_of_mem_take chosen)
  obtain ⟨p, inTable, ofFragment, stored⟩ := @exists_fourteenStored v fileId ownerId db fr
    (mem_fourteenOf.mpr ⟨inFragments, c, member, chosen⟩)
  refine mem_filter.mpr ⟨mem_filter.mpr ⟨inFragments, ?_⟩, decide_eq_true ?_⟩
  · exact decide_eq_true ⟨c, member, ofChunk.symm⟩
  · exact ⟨ofChunk, p, inTable, ofFragment, stored⟩

theorem DB.fourteenStored_fullCommit
    (enough : ∀ c ∈ db.chunksOf v, 14 ≤ (db.fragmentsOf c.id).length)
    (room : 14 * (db.chunksOf v).length ≤ maxPlanFragments) :
    FullCommit db v ownerId fileId (db.fourteenStored v ownerId fileId) where
  schema := fourteenStored_schema schema
  current := by
    refine ⟨{ v with fileId := fileId, status := .committed }, ?_, rfl, rfl⟩
    simp [currentVersion, fileById, fourteenStored]
  chunks := by
    rw [chunksOf, fourteenStored]
    exact filter_eq_self.mpr fun c member => (mem_filter.mp member).2
  fragments c member := fourteenStored_fragments member
  threshold c member := fourteenStored_threshold schema member (enough c member)
  nodes n member := by
    rw [mem_singleton.mp member]
    exact ⟨rfl, rfl⟩
  room := by
    have each : ∀ copies ∈ (db.chunksOf v).map fun c =>
        ((db.fourteenStored v ownerId fileId).storedCopies c).length, copies ≤ 14 := by
      intro copies listed
      obtain ⟨c, member, rfl⟩ := mem_map.mp listed
      exact fourteenStored_copies schema member
    have total := sum_le_card_nsmul _ _ each
    rw [length_map, smul_eq_mul] at total
    omega

end Fourteen

/-- A version that always reads back needs no more shards than a plan is sure to
place. -/
theorem few_of_readsBack (schema : db.Schema) (sane : SaneVersion jm db v)
    (reads : ReadsBack db v ownerId fileId) : FewShards db v := by
  intro room c member
  by_contra many
  have enough : ∀ c ∈ db.chunksOf v, 14 ≤ (db.fragmentsOf c.id).length := by
    intro c' member'
    have code := sane.code.2 c' member'
    omega
  have commit : FullCommit db v ownerId fileId (db.fourteenStored v ownerId fileId) :=
    DB.fourteenStored_fullCommit schema enough room
  obtain ⟨r, after', planned, -⟩ := reads _ commit .calm DownloadEnv.calm_works
  obtain ⟨v', current, sameId, sameCode⟩ := commit.current
  obtain ⟨-, -, -, allowed⟩ := planDownload_ok commit.schema current planned
  have inChunks : c ∈ (db.fourteenStored v ownerId fileId).chunks := member
  have some_copies := (commit.threshold c member).trans
    (DB.storedFragments_le_distinctShards commit.schema inChunks)
  have copies : ((db.fourteenStored v ownerId fileId).storedCopies c).length ≤ 14 :=
    DB.fourteenStored_copies schema member
  refine allowed (Or.inl ⟨c, ?_, fun none_stored => ?_, ?_⟩)
  · rw [chunksOf_congr sameId, commit.chunks]
    exact member
  · rw [none_stored] at some_copies
    simp [distinctShards] at some_copies
  · have usable := length_filter_le DownloadPlacement.admissible
      ((db.fourteenStored v ownerId fileId).storedCopies c)
    rw [DB.usableCopies, FileVersion.need, sameCode]
    split <;> omega

/-! ### What a manifest stores -/

def Fragment.numbers (fr : Fragment) : Int × Int := (fr.shardIndex, fr.sizeBytes)

theorem fragmentRows_numbers (gen : Nat → Uuid) (chunkId : Uuid) (k : Nat)
    (frs : List ManifestFragment) :
    (fragmentRows gen chunkId k frs).map Fragment.numbers = frs.map ManifestFragment.numbers := by
  induction frs generalizing k with
  | nil => rfl
  | cons fr frs ih =>
    rw [fragmentRows, map_cons, ih, map_cons]
    rfl

/-- The row of a chunk has the chunk's numbers. -/
def RowOf (row : Chunk × List Fragment) (ch : ManifestChunk) : Prop :=
  row.1.seq = ch.seq ∧ row.1.sizeBytes = ch.sizeBytes ∧
    row.2.map Fragment.numbers = ch.fragments.map ManifestFragment.numbers

theorem chunkRows_rowOf (gen : Nat → Uuid) (versionId : Uuid) (k : Nat)
    (chunks : List ManifestChunk) :
    List.Forall₂ RowOf (chunkRows gen versionId k chunks) chunks := by
  induction chunks generalizing k with
  | nil => exact .nil
  | cons ch chunks ih => exact .cons ⟨rfl, rfl, fragmentRows_numbers _ _ _ _⟩ (ih _)

/-- The stored chunk has the numbers of the JSON, with 16 bits of its shard
indices. -/
def JsonChunk.StoredAs (db : DB) (c : Chunk) (jc : JsonChunk) : Prop :=
  c.seq = jc.seq.toInt ∧ c.sizeBytes = jc.sizeBytes.toInt ∧
    (db.fragmentsOf c.id).map Fragment.numbers = jc.fragments.map JsonFragment.numbers

/-- The erasure code a manifest is stored with. -/
def JsonManifest.dataShards (jm : JsonManifest) : Int :=
  if jm.ecData.toInt16.toInt ≤ 0 then 1 else jm.ecData.toInt16.toInt

structure JsonManifest.StoredAs (jm : JsonManifest) (db : DB) (v : FileVersion) : Prop where
  size : v.sizeBytes = jm.sizeBytes.toInt
  code : v.ecDataShards = jm.dataShards
  chunks : List.Forall₂ (JsonChunk.StoredAs db) (db.chunksOf v) jm.chunks

theorem fragments_of_row {rows : List (Chunk × List Fragment)}
    (keys : UniqueOn (fun row : Chunk × List Fragment => row.1.id) rows)
    (ofChunk : ∀ row ∈ rows, ∀ fr ∈ row.2, fr.chunkId = row.1.id) (member : row ∈ rows) :
    ((rows.flatMap Prod.snd).filter fun fr => fr.chunkId = row.1.id) = row.2 := by
  induction rows with
  | nil => cases member
  | cons first rows ih =>
    obtain ⟨apart, keys'⟩ := nodup_cons.mp keys
    have ofChunk' := fun row later => ofChunk row (mem_cons_of_mem _ later)
    rw [flatMap_cons, filter_append]
    rcases mem_cons.mp member with rfl | later
    · have own : (row.2.filter fun fr => fr.chunkId = row.1.id) = row.2 :=
        filter_eq_self.mpr fun fr inRow => decide_eq_true (ofChunk row member fr inRow)
      have others : ((rows.flatMap Prod.snd).filter fun fr => fr.chunkId = row.1.id) = [] := by
        refine filter_eq_nil_iff.mpr fun fr listed same => ?_
        obtain ⟨row', inRows, inRow⟩ := mem_flatMap.mp listed
        have sameId := (ofChunk' row' inRows fr inRow).symm.trans (of_decide_eq_true same)
        exact apart (mem_map.mpr ⟨row', inRows, sameId⟩)
      rw [own, others, append_nil]
    · have others : (first.2.filter fun fr => fr.chunkId = row.1.id) = [] := by
        refine filter_eq_nil_iff.mpr fun fr inRow same => ?_
        have sameId := (of_decide_eq_true same).symm.trans (ofChunk first mem_cons_self fr inRow)
        exact apart (mem_map.mpr ⟨row, later, sameId⟩)
      rw [others, nil_append, ih keys' ofChunk' later]

theorem DB.insertUpload_rows {gen : Nat → Uuid} (schema : db.Schema) (after : db'.Schema)
    (ok : db.insertUpload file m gen = .ok (planned, db')) :
    db'.chunksOf (db.newVersion file.id m gen) =
        (chunkRows gen (gen 1) 2 m.chunks).map Prod.fst ∧
      ∀ row ∈ chunkRows gen (gen 1) 2 m.chunks, db'.fragmentsOf row.1.id = row.2 := by
  obtain ⟨-, chunks, fragments⟩ := insertUpload_tables ok
  constructor
  · rw [chunksOf, chunks, filter_append, filter_eq_nil_iff.mpr, nil_append, filter_eq_self]
    · intro c member
      obtain ⟨row, inRows, rfl⟩ := mem_map.mp member
      exact decide_eq_true (mem_chunkRows inRows).1
    · intro c member ofVersion
      obtain ⟨v, inTable, same⟩ := schema.chunk_version c member
      exact (insertUpload_inv ok).1 v inTable (same.trans (of_decide_eq_true ofVersion))
  · intro row inRows
    have keys := after.chunk_pk
    rw [UniqueOn, chunks, map_append, map_map] at keys
    rw [fragmentsOf, fragments, filter_append, fragments_of_row (nodup_append.mp keys).2.1
        (fun row' inRows' => (mem_chunkRows inRows').2.1) inRows,
      filter_eq_nil_iff.mpr, nil_append]
    intro fr member ofChunk
    obtain ⟨c, inTable, same⟩ := schema.fragment_chunk fr member
    exact insertUpload_fresh ok after inRows inTable (same.trans (of_decide_eq_true ofChunk))

theorem JsonManifest.storedAs_insertUpload (decoded : decodeManifest parseUuid jm = some m)
    {gen : Nat → Uuid} (schema : db.Schema) (after : db'.Schema)
    (ok : db.insertUpload file m gen = .ok (planned, db')) :
    jm.StoredAs db' (db.newVersion file.id m gen) := by
  obtain ⟨size, code, given⟩ := decodeManifest_inv decoded
  obtain ⟨chunks, fragments⟩ := DB.insertUpload_rows schema after ok
  refine ⟨size, ?_, ?_⟩
  · rw [dataShards, ← code]
    rfl
  · rw [chunks, forall₂_map_left_iff]
    have rows := (forall₂_and_left _ _).mpr ⟨fragments, chunkRows_rowOf gen (gen 1) 2 m.chunks⟩
    refine forall₂_trans (fun row ch jc stored gives => ?_) rows given.flip
    obtain ⟨same, seq, sizeBytes, numbers⟩ := stored
    refine ⟨seq.trans gives.1, sizeBytes.trans gives.2.1, ?_⟩
    rw [same, numbers]
    exact gives.2.2

/-! ### Sane manifests -/

/-- What the service would have to check: sizes are not negative, shard indices are
below sixteen, and the code, with 16 bits of its number of data shards, asks for no
more shards than a chunk has and than a plan is sure to place. -/
structure JsonManifest.Sane (jm : JsonManifest) : Prop where
  size : 0 ≤ jm.sizeBytes.toInt
  chunk_sizes : ∀ jc ∈ jm.chunks, 0 ≤ jc.sizeBytes.toInt
  fragment_sizes : ∀ jc ∈ jm.chunks, ∀ jf ∈ jc.fragments, 0 ≤ jf.sizeBytes.toInt
  indices : ∀ jc ∈ jm.chunks, ∀ jf ∈ jc.fragments,
    0 ≤ jf.shardIndex.toInt ∧ jf.shardIndex.toInt < 16
  code : ∀ jc ∈ jm.chunks, jm.dataShards ≤ jc.fragments.length
  threshold : 14 * jm.chunks.length ≤ maxPlanFragments → jm.dataShards ≤ 14

theorem toInt16_of_small {x : Int64} (low : 0 ≤ x.toInt) (high : x.toInt < 16) :
    x.toInt16.toInt = x.toInt := by
  rw [Int64.toInt_toInt16]
  exact Int.bmod_eq_of_le (by omega) (by omega)

theorem JsonManifest.one_le_dataShards (jm : JsonManifest) : 1 ≤ jm.dataShards := by
  rw [dataShards]
  split <;> omega

section Stored

/-- What holds of a column holds of the other list it is a column of. -/
theorem forall_mem_of_map_eq {α β γ : Type} {f : α → γ} {g : β → γ} {P : γ → Prop} {as : List α}
    {bs : List β} (same : as.map f = bs.map g) (each : ∀ a ∈ as, P (f a)) : ∀ b ∈ bs, P (g b) := by
  rw [← forall_mem_map, ← same, forall_mem_map]
  exact each

/-- The fragments of a stored chunk and of the JSON, number by number. -/
theorem JsonChunk.StoredAs.numbers (stored : jc.StoredAs db c) :
    (db.fragmentsOf c.id).map Fragment.shardIndex =
        jc.fragments.map (fun jf => jf.shardIndex.toInt16.toInt) ∧
      (db.fragmentsOf c.id).map Fragment.sizeBytes =
        jc.fragments.map fun jf => jf.sizeBytes.toInt := by
  have first := congrArg (List.map Prod.fst) stored.2.2
  have second := congrArg (List.map Prod.snd) stored.2.2
  rw [map_map, map_map] at first second
  exact ⟨first, second⟩

theorem JsonChunk.StoredAs.length (stored : jc.StoredAs db c) :
    (db.fragmentsOf c.id).length = jc.fragments.length := by
  have same := congrArg List.length stored.2.2
  rwa [length_map, length_map] at same

theorem SaneVersion.json (stored : jm.StoredAs db v) (sane : SaneVersion jm db v)
    (few : FewShards db v) (chunks : jm.chunks ≠ []) : jm.Sane where
  size := stored.size ▸ sane.size
  chunk_sizes jc member := by
    obtain ⟨c, inChunks, ofChunk⟩ := forall₂_right stored.chunks member
    exact ofChunk.2.1 ▸ sane.chunk_sizes c inChunks
  fragment_sizes jc member := by
    obtain ⟨c, inChunks, ofChunk⟩ := forall₂_right stored.chunks member
    exact forall_mem_of_map_eq (P := (0 ≤ ·)) ofChunk.numbers.2 (sane.fragment_sizes c inChunks)
  indices jc member := by
    obtain ⟨c, inChunks, -, given⟩ := forall₂_right sane.indices_given member
    exact forall_mem_of_map_eq (P := fun i => 0 ≤ i ∧ i < 16) given (sane.indices_usable c inChunks)
  code jc member := by
    obtain ⟨c, inChunks, ofChunk⟩ := forall₂_right stored.chunks member
    rw [← stored.code, ← ofChunk.length]
    exact sane.code.2 c inChunks
  threshold room := by
    obtain ⟨jc, member⟩ := exists_mem_of_ne_nil _ chunks
    obtain ⟨c, inChunks, -⟩ := forall₂_right stored.chunks member
    rw [← stored.chunks.length_eq] at room
    exact stored.code ▸ few room c inChunks

theorem JsonManifest.Sane.version (stored : jm.StoredAs db v) (sane : jm.Sane) :
    SaneVersion jm db v where
  size := stored.size ▸ sane.size
  chunk_sizes c member := by
    obtain ⟨jc, inJson, ofChunk⟩ := forall₂_left stored.chunks member
    exact ofChunk.2.1 ▸ sane.chunk_sizes jc inJson
  fragment_sizes c member := by
    obtain ⟨jc, inJson, ofChunk⟩ := forall₂_left stored.chunks member
    exact forall_mem_of_map_eq (P := (0 ≤ ·)) ofChunk.numbers.2.symm (sane.fragment_sizes jc inJson)
  indices_given := by
    have within := (forall₂_and_left _ _).mpr ⟨fun jc inJson => inJson, stored.chunks.flip⟩
    refine within.flip.imp fun c jc ⟨inJson, ofChunk⟩ => ⟨ofChunk.1, ?_⟩
    rw [(JsonChunk.StoredAs.numbers ofChunk).1]
    refine map_congr_left fun jf inFragments => ?_
    obtain ⟨low, high⟩ := sane.indices jc inJson jf inFragments
    exact toInt16_of_small low high
  indices_usable c member := by
    obtain ⟨jc, inJson, ofChunk⟩ := forall₂_left stored.chunks member
    refine forall_mem_of_map_eq (P := fun i => 0 ≤ i ∧ i < 16) ofChunk.numbers.1.symm ?_
    intro jf inFragments
    obtain ⟨low, high⟩ := sane.indices jc inJson jf inFragments
    rw [toInt16_of_small low high]
    exact ⟨low, high⟩
  code := by
    refine ⟨stored.code ▸ jm.one_le_dataShards, fun c member => ?_⟩
    obtain ⟨jc, inJson, ofChunk⟩ := forall₂_left stored.chunks member
    rw [stored.code, ofChunk.length]
    exact sane.code jc inJson

theorem JsonManifest.Sane.fewShards (stored : jm.StoredAs db v) (sane : jm.Sane) :
    FewShards db v := by
  intro room c _
  rw [stored.chunks.length_eq] at room
  exact stored.code ▸ sane.threshold room

/-- The version has the same numbers in the other database. -/
structure SameNumbers (db : DB) (v : FileVersion) (db' : DB) (v' : FileVersion) : Prop where
  size : v'.sizeBytes = v.sizeBytes
  code : v'.ecDataShards = v.ecDataShards
  chunks : db'.chunksOf v' = db.chunksOf v
  fragments : ∀ c ∈ db.chunksOf v, db'.fragmentsOf c.id = db.fragmentsOf c.id

theorem SameNumbers.symm (same : SameNumbers db v db' v') : SameNumbers db' v' db v where
  size := same.size.symm
  code := same.code.symm
  chunks := same.chunks.symm
  fragments c member := (same.fragments c (same.chunks ▸ member)).symm

theorem RowsKept.sameNumbers (kept : RowsKept v.id db db') (same : v.SameBody v') :
    SameNumbers db v db' v' where
  size := by rw [same]
  code := by rw [same]
  chunks := (chunksOf_congr same.id).trans kept.chunks
  fragments c member := kept.fragments c (DB.mem_chunksOf.mp member).1 (DB.mem_chunksOf.mp member).2

/-- They decide. -/
theorem SaneVersion.transfer (same : SameNumbers db v db' v') (sane : SaneVersion jm db v) :
    SaneVersion jm db' v' := by
  obtain ⟨size, code, chunks, fragments⟩ := same
  constructor
  · exact size ▸ sane.size
  · exact chunks ▸ sane.chunk_sizes
  · rw [chunks]
    exact fun c member => fragments c member ▸ sane.fragment_sizes c member
  · rw [chunks]
    have within := (forall₂_and_left _ _).mpr ⟨fun c member => member, sane.indices_given⟩
    refine within.imp fun c jc ⟨member, seq, indices⟩ => ⟨seq, ?_⟩
    rw [fragments c member]
    exact indices
  · rw [chunks]
    exact fun c member => fragments c member ▸ sane.indices_usable c member
  · rw [chunks, code]
    exact ⟨sane.code.1, fun c member => fragments c member ▸ sane.code.2 c member⟩

theorem FewShards.transfer (same : SameNumbers db v db' v') (few : FewShards db v) :
    FewShards db' v' := by
  rw [FewShards, same.chunks, same.code]
  exact few

end Stored

/-! ### Plans -/

/-- A `PlanUpload` call that begins at `s` returns at `t`, with whatever other calls
do in between. -/
def PlanReturns (sigOk : SigCheck) (s : System) (ownerId : Uuid) (m : UploadManifest)
    (gen : Nat → Uuid) (t : System) (result : PlanResult) : Prop :=
  ∃ planned db₁ events assigns sign,
    s.db.beginUpload ownerId m gen = .ok (planned, db₁) ∧
    exec (step sigOk) { db := db₁, calls := s.calls ++ [.placing (.upload planned)] } events =
      some t ∧
    t.calls[s.calls.length]? = some (.inserting (.upload planned) assigns []) ∧
    t.db.uploadPlan sign planned assigns = .ok result

/-- The pending version `BeginUpload` would resume. -/
def DB.resumable (db : DB) (m : UploadManifest) : Option FileVersion :=
  match normalizePath m.path with
  | .error _ => none
  | .ok path =>
    match db.liveFileAt m.bucketId path with
    | none => none
    | some file => if file.status = .uploading then db.pendingVersion file.id else none

/-- The manifest is sane; when the call resumes a pending version, it is that
version's rows which are, and they are the manifest's. -/
def AcceptsSane (jm : JsonManifest) (db : DB) (m : UploadManifest) : Prop :=
  match db.resumable m with
  | none => jm.Sane
  | some v => SaneVersion jm db v ∧ FewShards db v

theorem uploadPlan_ids {sign : SignTicket} {assigns : List PlaceAssign}
    (issued : db.uploadPlan sign planned assigns = .ok result) :
    result.uploadId = planned.version.id ∧ result.fileId = planned.file.id := by
  simp only [DB.uploadPlan] at issued
  repeat' split at issued
  all_goals cases issued
  exact ⟨rfl, rfl⟩

/-- The rows of the planned version, right after `BeginUpload`, are sane exactly if
the manifest, or what it resumes, is. -/
theorem begun_sane_iff (decoded : decodeManifest parseUuid jm = some m) {gen : Nat → Uuid}
    (schema : db.Schema) (begun : db.beginUpload ownerId m gen = .ok (planned, db')) :
    planned.version ∈ db'.versions ∧
      ((SaneVersion jm db' planned.version ∧ FewShards db' planned.version) ↔
        AcceptsSane jm db m) := by
  have after := schema.beginUpload begun
  obtain ⟨how, -, someChunks, -⟩ := DB.beginUpload_inv begun
  have someJson : jm.chunks ≠ [] := by
    intro none_
    have given := (decodeManifest_inv decoded).2.2
    rw [none_, forall₂_nil_left_iff] at given
    exact someChunks given
  have fresh : ∀ {before : DB} {file : File}, before.Schema →
      before.insertUpload file m gen = .ok (planned, db') → planned.version ∈ db'.versions ∧
        ((SaneVersion jm db' planned.version ∧ FewShards db' planned.version) ↔ jm.Sane) := by
    intro before file schema inserted
    have stored := JsonManifest.storedAs_insertUpload decoded schema after inserted
    rw [(DB.insertUpload_inv inserted).2.2, (DB.insertUpload_tables inserted).1]
    refine ⟨mem_append_right _ (mem_singleton.mpr rfl), ?_, ?_⟩
    · exact fun both => both.1.json stored both.2 someJson
    · exact fun sane => ⟨sane.version stored, sane.fewShards stored⟩
  cases how with
  | newFile clean owned free unused inserted =>
    have new : db.resumable m = none := by simp [DB.resumable, clean, free]
    rw [AcceptsSane, new]
    exact fresh (schema.addFile unused free) inserted
  | newVersion clean owned found inactive plain none_pending inserted =>
    have new : db.resumable m = none := by
      simp only [DB.resumable, clean, found]
      split
      · rename_i uploading
        exact none_pending uploading
      · rfl
    rw [AcceptsSane, new]
    exact fresh schema inserted
  | @resumed _ _ _ version clean owned found uploading pending same =>
    have resumes : db.resumable m = some version := by
      simp only [DB.resumable, clean, found, uploading, if_true]
      exact pending
    rw [AcceptsSane, resumes]
    refine ⟨?_, Iff.rfl⟩
    have listed := mem_of_head? pending
    exact (mem_filter.mp (mem_orderBy.mp listed)).1

/-- Runs one plan to its return, with `events` in between. -/
def runPlan (sigOk : SigCheck) (s : System) (ownerId : Uuid) (m : UploadManifest)
    (gen : Nat → Uuid) (events : List Event) (sign : SignTicket) : Option (System × PlanResult) :=
  match s.db.beginUpload ownerId m gen with
  | .error _ => none
  | .ok (planned, db₁) =>
    match exec (step sigOk) { db := db₁, calls := s.calls ++ [.placing (.upload planned)] }
        events with
    | none => none
    | some t =>
      match t.calls[s.calls.length]? with
      | some (.inserting (.upload planned') assigns []) =>
        if planned' = planned then
          match t.db.uploadPlan sign planned assigns with
          | .error _ => none
          | .ok result => some (t, result)
        else none
      | _ => none

theorem planReturns_of_run {sigOk : SigCheck} {s t : System} {gen : Nat → Uuid}
    {sign : SignTicket} (ran : runPlan sigOk s ownerId m gen events sign = some (t, result)) :
    PlanReturns sigOk s ownerId m gen t result := by
  simp only [runPlan] at ran
  split at ran
  · cases ran
  rename_i planned db₁ begun
  split at ran
  · cases ran
  rename_i t' moved
  split at ran
  · rename_i planned' assigns call
    split at ran
    · rename_i same
      split at ran <;> cases ran
      rename_i issued
      exact ⟨planned, db₁, events, assigns, sign, begun, moved, same ▸ call, issued⟩
    · cases ran
  · cases ran

namespace Sample

def registeredState : System where
  db := { DB.empty with buckets := [bucket], nodes := (List.range 16).map node }
  calls := []

theorem registered_reached :
    exec (step toySig) System.init registered = some registeredState := by
  decide +kernel

def json : JsonManifest where
  bucketId := "00000000-0000-0000-0000-000000000002".toList
  path := ['/', 'a']
  sizeBytes := 10
  contentSha256 := encodeHex digest
  encryptionMeta := [123, 125]
  chunkSize := 1048576
  ecData := 10
  ecParity := 6
  chunks :=
    [{ seq := 0, sha256 := encodeHex digest, sizeBytes := 10,
       fragments := (List.range 16).map fun i =>
        { shardIndex := Int64.ofNat i, sha256 := encodeHex digest, sizeBytes := 1 } }]

end Sample

namespace Sample

/-- A negative size, two hundred data shards, and a last shard index that is
fifteen in its low 16 bits. -/
def badJson : JsonManifest :=
  { json with
    sizeBytes := -10
    ecData := 200
    chunks :=
      [{ seq := 0, sha256 := encodeHex digest, sizeBytes := 10,
         fragments := (List.range 16).map fun i =>
          { shardIndex := if i = 15 then 65551 else Int64.ofNat i, sha256 := encodeHex digest,
            sizeBytes := 1 } }] }

def badManifest : UploadManifest := { manifest with sizeBytes := -10, ecData := 200 }

/-- The plan returns, the client puts the fourteen shards and commits. -/
def badUpload : List Event := planRun badManifest ++ [commitRequest, .move 1 .commit]

end Sample

end StoragePlatform
