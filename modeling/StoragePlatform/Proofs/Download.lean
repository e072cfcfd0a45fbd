/-
Module: StoragePlatform.Proofs.Download
Purpose: When a download plan covers every chunk of the version with enough
  different shards.
Trusted boundary: none
Main exports: DB.storedCopies, Grouped, loadDownload_grouped, planDownload_complete_iff
-/
import StoragePlatform.Metadata.Download
import StoragePlatform.Proofs.Steps

namespace StoragePlatform

open Lib List Sample

variable {db db' : DB} {c : Chunk} {p copy : DownloadPlacement} {fileId ownerId : Uuid} {f : File}
variable {v : FileVersion} {chunks : List DownloadChunk} {env : DownloadEnv} {ref : ShardRef}
variable {need total : Nat} {copies copies' : List DownloadPlacement} {refs : List ShardRef}
variable {result : List DownloadResultChunk} {r : DownloadResult} {dc : DownloadChunk}

/-! ### Grouping the rows by sequence number -/

/-- The groups the scan loop builds from a list of rows. -/
structure Grouped (rows : List (Chunk × DownloadPlacement)) (groups : List DownloadChunk) :
    Prop where
  placements : ∀ dc ∈ groups,
    dc.placements = (rows.filter fun row => row.1.seq = dc.chunk.seq).map Prod.snd
  first : ∀ dc ∈ groups, ∃ row ∈ rows, row.1 = dc.chunk
  all : ∀ row ∈ rows, ∃ dc ∈ groups, dc.chunk.seq = row.1.seq
  increasing : rows.Pairwise (fun a b => a.1.seq ≤ b.1.seq) →
    groups.Pairwise fun a b => a.chunk.seq < b.chunk.seq

theorem Grouped.nil : Grouped [] [] :=
  ⟨by simp, by simp, by simp, by simp⟩

/-- One row of the loop: it joins its group or starts a new one. -/
theorem Grouped.add {rows : List (Chunk × DownloadPlacement)} {groups : List DownloadChunk}
    (h : Grouped rows groups) (row : Chunk × DownloadPlacement) :
    Grouped (rows ++ [row]) (addDownloadRow groups row) := by
  rw [addDownloadRow]
  split
  · rename_i known
    simp only [any_eq_true, decide_eq_true_eq] at known
    refine ⟨?_, ?_, ?_, ?_⟩
    · intro dc' member
      obtain ⟨dc, inGroups, rfl⟩ := mem_map.mp member
      have old := h.placements dc inGroups
      split
      · rename_i same
        simp [filter_append, old, same]
      · rename_i other
        simp [filter_append, old, Ne.symm other]
    · intro dc' member
      obtain ⟨dc, inGroups, rfl⟩ := mem_map.mp member
      obtain ⟨row', inRows, same⟩ := h.first dc inGroups
      exact ⟨row', mem_append_left _ inRows, by split <;> exact same⟩
    · intro row' member
      have kept : ∀ dc ∈ groups, dc.chunk.seq = row'.1.seq → ∃ dc' ∈ groups.map fun dc =>
          if dc.chunk.seq = row.1.seq then { dc with placements := dc.placements ++ [row.2] }
          else dc, dc'.chunk.seq = row'.1.seq := fun dc inGroups same =>
        ⟨_, mem_map_of_mem inGroups, by split <;> exact same⟩
      rcases mem_append.mp member with old | new
      · obtain ⟨dc, inGroups, same⟩ := h.all row' old
        exact kept dc inGroups same
      · obtain ⟨dc, inGroups, same⟩ := known
        rw [mem_singleton.mp new] at kept ⊢
        exact kept dc inGroups same
    · intro sorted
      refine pairwise_map.mpr ((h.increasing (pairwise_append.mp sorted).1).imp ?_)
      intro a b less
      split <;> split <;> exact less
  · rename_i unknown
    simp only [any_eq_true, decide_eq_true_eq, not_exists, not_and] at unknown
    refine ⟨?_, ?_, ?_, ?_⟩
    · intro dc member
      rcases mem_append_row.mp member with old | rfl
      · have other := unknown dc old
        simp [filter_append, h.placements dc old, Ne.symm other]
      · have none_before : rows.filter (fun r => r.1.seq = row.1.seq) = [] := by
          refine filter_eq_nil_iff.mpr fun r inRows same => ?_
          obtain ⟨dc', inGroups, same'⟩ := h.all r inRows
          exact unknown dc' inGroups (same'.trans (by simpa using same))
        simp [filter_append, none_before]
    · intro dc member
      rcases mem_append_row.mp member with old | rfl
      · obtain ⟨row', inRows, same⟩ := h.first dc old
        exact ⟨row', mem_append_left _ inRows, same⟩
      · exact ⟨row, by simp, rfl⟩
    · intro row' member
      rcases mem_append_row.mp member with old | rfl
      · obtain ⟨dc, inGroups, same⟩ := h.all row' old
        exact ⟨dc, mem_append_left _ inGroups, same⟩
      · exact ⟨_, mem_append_right _ (mem_singleton.mpr rfl), rfl⟩
    · intro sorted
      obtain ⟨before, -, after⟩ := pairwise_append.mp sorted
      refine pairwise_append.mpr ⟨h.increasing before, pairwise_singleton _ _, ?_⟩
      intro dc inGroups new member
      rw [mem_singleton.mp member]
      obtain ⟨row', inRows, same⟩ := h.first dc inGroups
      have upto := after row' inRows row (by simp)
      exact lt_of_le_of_ne (same ▸ upto) (unknown dc inGroups)

theorem grouped_foldl (rows : List (Chunk × DownloadPlacement)) :
    Grouped rows (rows.foldl addDownloadRow []) := by
  induction rows using List.reverseRecOn with
  | nil => exact Grouped.nil
  | append_singleton rows row ih =>
    rw [foldl_append]
    exact ih.add row

/-! ### The download query -/

theorem seqShardLe_total (a b : Chunk × Fragment) :
    seqShardLe a b = true ∨ seqShardLe b a = true := by
  simp only [seqShardLe, decide_eq_true_eq]
  omega

theorem seqShardLe_trans (a b c : Chunk × Fragment) (ab : seqShardLe a b = true)
    (bc : seqShardLe b c = true) : seqShardLe a c = true := by
  simp only [seqShardLe, decide_eq_true_eq] at *
  omega

theorem DB.downloadRows_sorted (db : DB) (versionId : Uuid) :
    (db.downloadRows versionId).Pairwise fun a b => a.1.seq ≤ b.1.seq := by
  refine pairwise_flatMap.mpr ⟨fun cf _ => ?_, ?_⟩
  · refine pairwise_map.mpr (pairwise_of_forall fun _ _ => le_refl _)
  · refine (orderBy_pairwise seqShardLe_total seqShardLe_trans _).imp fun {cf cf'} ordered => ?_
    intro x inFirst y inSecond
    obtain ⟨-, -, rfl⟩ := mem_map.mp inFirst
    obtain ⟨-, -, rfl⟩ := mem_map.mp inSecond
    simp only [seqShardLe, decide_eq_true_eq] at ordered
    change cf.1.seq ≤ cf'.1.seq
    omega

theorem DB.mem_downloadRows {versionId : Uuid} :
    (c, copy) ∈ db.downloadRows versionId ↔
      c ∈ db.chunks ∧ c.versionId = versionId ∧ copy.fragment ∈ db.fragments ∧
        copy.fragment.chunkId = c.id ∧ copy.node ∈ db.nodes ∧ ∃ p ∈ db.placements,
          p.fragmentId = copy.fragment.id ∧ p.status = .stored ∧ copy.node.id = p.nodeId := by
  simp only [downloadRows, mem_flatMap, mem_orderBy, mem_map, Prod.exists, mem_innerJoin,
    mem_filter, decide_eq_true_eq, Prod.mk.injEq]
  constructor
  · rintro ⟨c', fr, ⟨⟨inChunks, ofVersion⟩, inFragments, ofChunk⟩, p, n,
      ⟨⟨inTable, onFragment, isStored⟩, inNodes, onNode⟩, rfl, rfl⟩
    exact ⟨inChunks, ofVersion, inFragments, ofChunk, inNodes, p, inTable, onFragment, isStored,
      onNode⟩
  · rintro ⟨inChunks, ofVersion, inFragments, ofChunk, inNodes, p, inTable, onFragment, isStored,
      onNode⟩
    exact ⟨c, copy.fragment, ⟨⟨inChunks, ofVersion⟩, inFragments, ofChunk⟩, p, copy.node,
      ⟨⟨inTable, onFragment, isStored⟩, inNodes, onNode⟩, rfl, rfl⟩

/-- The stored copies of a chunk, in the order the query returns them. -/
def DB.storedCopies (db : DB) (c : Chunk) : List DownloadPlacement :=
  ((db.downloadRows c.versionId).filter fun row => row.1.seq = c.seq).map Prod.snd

/-- The current version of a file, as `LoadDownload` finds it. -/
def DB.currentVersion (db : DB) (ownerId fileId : Uuid) : Option FileVersion :=
  match db.fileById ownerId fileId with
  | .error _ => none
  | .ok f =>
    match f.currentVersion with
    | none => none
    | some versionId => db.versions.find? fun v => v.id = versionId ∧ v.status = .committed

/-- The chunks `LoadDownload` returns are the version's chunks that have a stored
copy, by sequence number. -/
structure Loaded (db : DB) (v : FileVersion) (chunks : List DownloadChunk) : Prop where
  increasing : chunks.Pairwise fun a b => a.chunk.seq < b.chunk.seq
  mem_iff : ∀ dc, dc ∈ chunks ↔ dc.chunk ∈ db.chunks ∧ dc.chunk.versionId = v.id ∧
    dc.placements = db.storedCopies dc.chunk ∧ db.storedCopies dc.chunk ≠ []

theorem DB.mem_storedCopies (schema : db.Schema) (inChunks : c ∈ db.chunks) :
    copy ∈ db.storedCopies c ↔ (c, copy) ∈ db.downloadRows c.versionId := by
  simp only [storedCopies, mem_map, mem_filter, decide_eq_true_eq, Prod.exists]
  constructor
  · rintro ⟨c', copy', ⟨inRows, same⟩, rfl⟩
    obtain ⟨inChunks', ofVersion, -⟩ := mem_downloadRows.mp inRows
    have : c' = c := schema.chunk_seq.eq_of_key inChunks' inChunks (Prod.ext ofVersion same)
    exact this ▸ inRows
  · exact fun inRows => ⟨c, copy, ⟨inRows, rfl⟩, rfl⟩

theorem loaded_foldl (schema : db.Schema) (v : FileVersion) :
    Loaded db v ((db.downloadRows v.id).foldl addDownloadRow []) := by
  have grouped := grouped_foldl (db.downloadRows v.id)
  refine ⟨grouped.increasing (db.downloadRows_sorted v.id), fun dc => ⟨fun member => ?_, ?_⟩⟩
  · obtain ⟨⟨c, copy⟩, inRows, same⟩ := grouped.first dc member
    obtain ⟨inChunks, ofVersion, -⟩ := DB.mem_downloadRows.mp inRows
    subst same
    have placements : dc.placements = db.storedCopies dc.chunk := by
      rw [DB.storedCopies, ofVersion]
      exact grouped.placements dc member
    refine ⟨inChunks, ofVersion, placements, ne_nil_of_mem (a := copy) ?_⟩
    exact (DB.mem_storedCopies schema inChunks).mpr (ofVersion ▸ inRows)
  · rintro ⟨inChunks, ofVersion, placements, some_copy⟩
    obtain ⟨copy, member⟩ := exists_mem_of_ne_nil _ some_copy
    have inRows := (DB.mem_storedCopies schema inChunks).mp member
    rw [ofVersion] at inRows
    obtain ⟨dc', inGroups, sameSeq⟩ := grouped.all _ inRows
    -- the group with this sequence number is of this chunk
    obtain ⟨⟨c', copy'⟩, inRows', same⟩ := grouped.first dc' inGroups
    obtain ⟨inChunks', ofVersion', -⟩ := DB.mem_downloadRows.mp inRows'
    have sameChunk : dc'.chunk = dc.chunk := by
      subst same
      exact schema.chunk_seq.eq_of_key inChunks' inChunks
        (Prod.ext (ofVersion'.trans ofVersion.symm) sameSeq)
    have samePlacements : dc'.placements = dc.placements := by
      rw [grouped.placements dc' inGroups, placements, DB.storedCopies, ofVersion, sameChunk]
    have : dc' = dc := by
      cases dc'
      cases dc
      simp_all
    exact this ▸ inGroups

/-- The rows `LoadDownload` has found. -/
theorem DB.loadDownload_inv (loaded : db.loadDownload ownerId fileId = .ok (f, v, chunks)) :
    ∃ versionId, db.fileById ownerId fileId = .ok f ∧ f.currentVersion = some versionId ∧
      (db.versions.find? fun v => v.id = versionId ∧ v.status = .committed) = some v ∧
      (db.downloadRows v.id).foldl addDownloadRow [] = chunks := by
  simp only [loadDownload] at loaded
  repeat' split at loaded
  all_goals cases loaded
  exact ⟨_, ‹_›, ‹_›, ‹_›, rfl⟩

theorem DB.loadDownload_ok (schema : db.Schema)
    (loaded : db.loadDownload ownerId fileId = .ok (f, v, chunks)) :
    db.currentVersion ownerId fileId = some v ∧ Loaded db v chunks := by
  obtain ⟨versionId, found, current, isCommitted, rfl⟩ := loadDownload_inv loaded
  simp only [currentVersion, found, current]
  exact ⟨isCommitted, loaded_foldl schema v⟩

theorem DB.loadDownload_of_currentVersion (current : db.currentVersion ownerId fileId = some v) :
    ∃ f chunks, db.loadDownload ownerId fileId = .ok (f, v, chunks) := by
  simp only [currentVersion] at current
  split at current
  · cases current
  · rename_i f found
    split at current
    · cases current
    · rename_i versionId has
      simp only [loadDownload, found, has, current]
      exact ⟨f, _, rfl⟩

/-! ### The loops -/

theorem DB.issueTicket_ok (issued : db.issueTicket env fileId p = .ok (ref, db')) :
    ∃ wire, ref = shardRef p.fragment p.node wire := by
  simp only [issueTicket] at issued
  repeat' split at issued
  all_goals cases issued
  all_goals exact ⟨_, rfl⟩

/-- Planning a download writes tickets of the file and nothing else. -/
def DB.Tickets (db db' : DB) (fileId : Uuid) : Prop :=
  ∃ tickets : List DownloadTicket, (∀ t ∈ tickets, t.fileId = fileId) ∧
    db' = { db with downloadTickets := db.downloadTickets ++ tickets }

theorem DB.Tickets.refl (db : DB) (fileId : Uuid) : db.Tickets db fileId :=
  ⟨[], by simp, by simp⟩

theorem DB.Tickets.trans {db'' : DB} (first : db.Tickets db' fileId)
    (rest : db'.Tickets db'' fileId) : db.Tickets db'' fileId := by
  obtain ⟨tickets, own, rfl⟩ := first
  obtain ⟨more, own', rfl⟩ := rest
  refine ⟨tickets ++ more, fun t member => ?_, by simp⟩
  exact (mem_append.mp member).elim (own t) (own' t)

/-- Issuing a ticket records it, unless its wire does not decode or its nonce is
known. -/
theorem DB.issueTicket_recorded (issued : db.issueTicket env fileId p = .ok (ref, db')) :
    db' = db ∨ ∃ t, issuedTicket env fileId p = some t ∧
      (∀ old ∈ db.downloadTickets, old.nonce ≠ t.nonce) ∧
      db' = { db with downloadTickets := db.downloadTickets ++ [t] } := by
  simp only [issueTicket, insertDownloadTicket] at issued
  split at issued
  · cases issued
  rename_i wire until_ signed
  split at issued
  · cases issued
    exact .inl rfl
  rename_i nonce decoded
  split at issued <;> cases issued
  rename_i inserted
  split at inserted
  · cases inserted
  split at inserted <;> cases inserted
  · exact .inl rfl
  · rename_i fresh
    simp only [any_eq_true, decide_eq_true_eq, not_exists, not_and] at fresh
    exact .inr ⟨_, by simp only [issuedTicket, signed, decoded, Option.map_some], fresh, rfl⟩

/-- The ticket of an issue names the file and the fragment. -/
theorem issuedTicket_some {t : DownloadTicket} (issued : issuedTicket env fileId p = some t) :
    t.fileId = fileId ∧ t.sizeBytes = p.fragment.sizeBytes := by
  simp only [issuedTicket] at issued
  split at issued
  · cases issued
  · obtain ⟨_, _, rfl⟩ := Option.map_eq_some_iff.mp issued
    exact ⟨rfl, rfl⟩

theorem DB.issueTicket_tickets (issued : db.issueTicket env fileId p = .ok (ref, db')) :
    db.Tickets db' fileId := by
  rcases issueTicket_recorded issued with rfl | ⟨t, isTicket, -, rfl⟩
  · exact .refl db' fileId
  · exact ⟨[t], by simp [(issuedTicket_some isTicket).1], rfl⟩

theorem planFragments_tickets (env : DownloadEnv) (fileId : Uuid) (db : DB) (total : Nat)
    (copies : List DownloadPlacement) :
    db.Tickets (planFragments env fileId db total copies).2 fileId := by
  induction copies generalizing db total with
  | nil => exact .refl db fileId
  | cons p rest ih =>
    simp only [planFragments]
    split
    · exact .refl db fileId
    split
    · exact .refl db fileId
    rename_i ref db' issued
    have later := (DB.issueTicket_tickets issued).trans (ih db' (total + 1))
    split <;> rename_i planned <;> rw [planned] at later <;> exact later

theorem planChunks_tickets (env : DownloadEnv) (fileId : Uuid) (need : Nat) (db : DB)
    (total : Nat) (chunks : List DownloadChunk) :
    db.Tickets (planChunks env fileId need db total chunks).2 fileId := by
  induction chunks generalizing db total with
  | nil => exact .refl db fileId
  | cons ch rest ih =>
    simp only [planChunks]
    split
    · exact .refl db fileId
    have here := planFragments_tickets env fileId db total
      (pickDownloadPlacements ch.placements need)
    split
    · rename_i db' planned
      rw [planned] at here
      exact here
    · rename_i refs db' planned
      rw [planned] at here
      have later := here.trans (ih db' (total + (pickDownloadPlacements ch.placements need).length))
      split <;> rename_i more <;> rw [more] at later <;> exact later

/-- The file of a download is the one asked for, and has a current version. -/
theorem DB.loadDownload_file (loaded : db.loadDownload ownerId fileId = .ok (f, v, chunks)) :
    f ∈ db.files ∧ f.id = fileId ∧ ∃ versionId, f.currentVersion = some versionId := by
  obtain ⟨versionId, found, current, -⟩ := loadDownload_inv loaded
  obtain ⟨member, named, -⟩ := fileById_mem found
  exact ⟨member, named, versionId, current⟩

theorem DB.planDownload_tickets (db : DB) (env : DownloadEnv) (ownerId fileId : Uuid) :
    db.Tickets (db.planDownload env ownerId fileId).2 fileId := by
  rw [planDownload]
  split
  · exact .refl db fileId
  rename_i f v chunks loaded
  have own : f.id = fileId := (DB.loadDownload_file loaded).2.1
  have here := planChunks_tickets env f.id v.need db 0 chunks
  rw [own] at here ⊢
  split <;> rename_i planned <;> rw [planned] at here <;> exact here

/-- The shard reference is for this copy. -/
def DownloadPlacement.Made (p : DownloadPlacement) (ref : ShardRef) : Prop :=
  ∃ wire, ref = shardRef p.fragment p.node wire

theorem planFragments_ok (planned : planFragments env fileId db total copies = (.ok refs, db')) :
    List.Forall₂ DownloadPlacement.Made copies refs ∧
      (total ≤ maxPlanFragments → total + copies.length ≤ maxPlanFragments) := by
  induction copies generalizing db total refs with
  | nil =>
    cases planned
    exact ⟨.nil, id⟩
  | cons p rest ih =>
    simp only [planFragments] at planned
    split at planned
    · cases planned
    rename_i below
    split at planned
    · cases planned
    rename_i ref db₁ issued
    split at planned <;> cases planned
    rename_i refs' db₂ continued
    obtain ⟨pairs, bound⟩ := ih continued
    refine ⟨.cons (DB.issueTicket_ok issued) pairs, fun room => ?_⟩
    rw [length_cons]
    omega

/-- The copies the plan takes of a loaded chunk. -/
def DownloadChunk.picked (dc : DownloadChunk) (need : Nat) : List DownloadPlacement :=
  pickDownloadPlacements dc.placements need

/-- An entry of the plan describes this chunk. -/
def DownloadResultChunk.Of (rc : DownloadResultChunk) (c : Chunk) : Prop :=
  rc.seq = c.seq ∧ rc.sha256 = c.sha256 ∧ rc.sizeBytes = c.sizeBytes

/-- A planned chunk is the loaded one with its picked shards. -/
def DownloadChunk.Planned (need : Nat) (dc : DownloadChunk) (rc : DownloadResultChunk) : Prop :=
  rc.Of dc.chunk ∧ rc.fragments.map ShardRef.shardIndex =
    (dc.picked need).map fun p => p.fragment.shardIndex

/-- What a plan that is not refused looks like. -/
theorem planChunks_ok (planned : planChunks env fileId need db total chunks = (.ok result, db')) :
    List.Forall₂ (fun dc rc => DownloadResultChunk.Of rc dc.chunk ∧
      List.Forall₂ DownloadPlacement.Made (dc.picked need) rc.fragments) chunks result ∧
      (∀ dc ∈ chunks, need ≤ (dc.picked need).length) ∧ (total ≤ maxPlanFragments →
        total + (chunks.map fun dc => (dc.picked need).length).sum ≤ maxPlanFragments) := by
  induction chunks generalizing db total result with
  | nil =>
    cases planned
    exact ⟨.nil, by simp, by simp⟩
  | cons dc chunks ih =>
    simp only [planChunks] at planned
    split at planned
    · cases planned
    rename_i enough
    split at planned
    · cases planned
    rename_i refs db₁ tickets
    split at planned <;> cases planned
    rename_i rest db₂ continued
    obtain ⟨shards, bound⟩ := planFragments_ok tickets
    obtain ⟨pairs, needs, totals⟩ := ih continued
    refine ⟨.cons ⟨⟨rfl, rfl, rfl⟩, shards⟩ pairs,
      forall_mem_cons.mpr ⟨not_lt.mp enough, needs⟩, fun room => ?_⟩
    have rest := totals (bound room)
    rw [map_cons, sum_cons]
    simp only [DownloadChunk.picked] at rest ⊢
    omega

/-! ### What a plan is made of -/

/-- The plan is made of this file, this version and these chunks with their copies. -/
structure DownloadResult.MadeOf (r : DownloadResult) (f : File) (v : FileVersion)
    (chunks : List DownloadChunk) : Prop where
  file : r.fileId = f.id
  version : r.versionNo = v.versionNo ∧ r.sizeBytes = v.sizeBytes ∧
    r.contentSha256 = v.contentSha256 ∧ r.encryptionMeta = v.encryptionMeta
  chunks : List.Forall₂ (fun dc rc => DownloadResultChunk.Of rc dc.chunk ∧
    ∀ ref ∈ rc.fragments, ∃ p ∈ dc.placements, ∃ wire, ref = shardRef p.fragment p.node wire)
    chunks r.chunks

theorem pickDownloadPlacements_subset (all : List DownloadPlacement) (need : Nat) :
    pickDownloadPlacements all need ⊆ all := by
  intro p member
  rw [pickDownloadPlacements] at member
  split at member
  · exact (mem_filter.mp (mem_filter.mp member).1).1
  · rcases mem_append.mp member with online | rest
    · exact (mem_filter.mp (mem_filter.mp online).1).1
    · exact (mem_filter.mp (mem_filter.mp rest).1).1

theorem DB.planDownload_made (planned : (db.planDownload env ownerId fileId).1 = .ok r) :
    ∃ f v chunks, db.loadDownload ownerId fileId = .ok (f, v, chunks) ∧ r.MadeOf f v chunks := by
  simp only [planDownload] at planned
  split at planned
  · cases planned
  rename_i f v chunks loaded
  split at planned <;> cases planned
  rename_i listed db₁ loop
  refine ⟨f, v, chunks, loaded, rfl, ⟨rfl, rfl, rfl, rfl⟩, (planChunks_ok loop).1.imp ?_⟩
  rintro dc rc ⟨of, pairs⟩
  refine ⟨of, fun ref member => ?_⟩
  obtain ⟨p, isPicked, made⟩ := forall₂_right pairs member
  exact ⟨p, pickDownloadPlacements_subset _ _ isPicked, made⟩

/-- Surroundings in which nothing fails. -/
structure DownloadEnv.Works (env : DownloadEnv) : Prop where
  signs : ∀ op fragmentId nodeId sha256 cap, ∃ wire until_,
    env.sign op fragmentId nodeId sha256 cap = .ok (wire, until_)
  records : ∀ nonce, env.record nonce = true

def DownloadEnv.calm : DownloadEnv where
  sign _ _ _ _ _ := .ok ([], 0)
  nonce _ := none
  record _ := true

theorem DownloadEnv.calm_works : DownloadEnv.calm.Works :=
  ⟨fun _ _ _ _ _ => ⟨[], 0, rfl⟩, fun _ => rfl⟩

section Works

variable (works : env.Works)
include works

theorem DB.issueTicket_works (db : DB) (fileId : Uuid) (p : DownloadPlacement) :
    ∃ ref db', db.issueTicket env fileId p = .ok (ref, db') := by
  obtain ⟨wire, until_, signed⟩ := works.signs .get p.fragment.id p.node.id p.fragment.sha256
    (toUint64 p.fragment.sizeBytes)
  simp only [issueTicket, signShard, signed]
  split
  · exact ⟨_, _, rfl⟩
  · simp only [insertDownloadTicket, works.records, Bool.true_eq_false, if_false]
    split <;> rename_i inserted
    · split at inserted <;> cases inserted
    · exact ⟨_, _, rfl⟩

theorem planFragments_works (db : DB) (fileId : Uuid)
    (room : total + copies.length ≤ maxPlanFragments) :
    ∃ refs db', planFragments env fileId db total copies = (.ok refs, db') := by
  induction copies generalizing db total with
  | nil => exact ⟨[], db, rfl⟩
  | cons p rest ih =>
    simp only [length_cons] at room
    have room' : (total + 1) + rest.length ≤ maxPlanFragments := by omega
    have below : ¬ maxPlanFragments ≤ total := by omega
    obtain ⟨ref, db₁, issued⟩ := db.issueTicket_works works fileId p
    obtain ⟨refs, db₂, continued⟩ := ih db₁ room'
    simp only [planFragments, if_neg below, issued, continued]
    exact ⟨_, _, rfl⟩

/-- Nothing else refuses a plan when nothing fails. -/
theorem planChunks_works (db : DB) (fileId : Uuid)
    (needs : ∀ dc ∈ chunks, need ≤ (dc.picked need).length)
    (room : total + (chunks.map fun dc => (dc.picked need).length).sum ≤ maxPlanFragments) :
    ∃ result db', planChunks env fileId need db total chunks = (.ok result, db') := by
  induction chunks generalizing db total with
  | nil => exact ⟨[], db, rfl⟩
  | cons dc chunks ih =>
    rw [map_cons, sum_cons] at room
    have enough : ¬ (dc.picked need).length < need := not_lt.mpr (needs dc (by simp))
    have here : total + (dc.picked need).length ≤ maxPlanFragments := by omega
    have there : (total + (dc.picked need).length) +
        (chunks.map fun dc => (dc.picked need).length).sum ≤ maxPlanFragments := by omega
    obtain ⟨refs, db₁, tickets⟩ := planFragments_works works db fileId here
    obtain ⟨rest, db₂, continued⟩ :=
      ih db₁ (fun dc' later => needs dc' (mem_cons_of_mem _ later)) there
    simp only [DownloadChunk.picked] at enough tickets continued
    simp only [planChunks, if_neg enough, tickets, continued]
    exact ⟨_, _, rfl⟩

end Works

/-! ### Complete plans -/

def DB.chunksOf (db : DB) (v : FileVersion) : List Chunk :=
  db.chunks.filter fun c => c.versionId = v.id

/-- Different shards among some copies. -/
def distinctShards (copies : List DownloadPlacement) : Nat :=
  (copies.map fun p => p.fragment.shardIndex).dedup.length

/-- Stored copies of a chunk on admissible nodes. -/
def DB.usableCopies (db : DB) (c : Chunk) : List DownloadPlacement :=
  (db.storedCopies c).filter DownloadPlacement.admissible

/-- The copies a download has to work with: those on online nodes when they
are `need` many, otherwise every usable one. -/
def DB.offeredCopies (db : DB) (need : Nat) (c : Chunk) : List DownloadPlacement :=
  let online := (db.usableCopies c).filter fun p => p.node.status = .online
  if need ≤ online.length then online else db.usableCopies c

/-- What the caller of `PlanDownload` relies on: the chunks of the version, each
once and in order, each with shards to decode it from. -/
structure DownloadComplete (db : DB) (v : FileVersion) (r : DownloadResult) : Prop where
  increasing : r.chunks.Pairwise fun a b => a.seq < b.seq
  listed : ∀ c ∈ db.chunksOf v, ∃ rc ∈ r.chunks, rc.Of c
  ofVersion : ∀ rc ∈ r.chunks, ∃ c ∈ db.chunksOf v, rc.Of c
  shards : ∀ rc ∈ r.chunks,
    v.ecDataShards ≤ (rc.fragments.map ShardRef.shardIndex).dedup.length
  supplied : ∀ c ∈ db.chunksOf v, v.ecDataShards ≤ distinctShards (db.usableCopies c)

/-- The plan is refused whatever the signer does: a chunk with a stored copy has
too few usable ones, or the version has more copies than a plan may list. -/
def DownloadRefused (db : DB) (v : FileVersion) : Prop :=
  (∃ c ∈ db.chunksOf v, db.storedCopies c ≠ [] ∧ (db.usableCopies c).length < v.need) ∨
    maxPlanFragments < ((db.chunksOf v).map fun c => (db.offeredCopies v.need c).length).sum

/-- Every chunk of the version has a stored copy, and the copies on offer are of
`ecDataShards` different shards. -/
def DownloadCovered (db : DB) (v : FileVersion) : Prop :=
  ∀ c ∈ db.chunksOf v, db.storedCopies c ≠ [] ∧
    v.ecDataShards ≤ distinctShards (db.offeredCopies v.need c)
deriving Decidable

theorem distinctShards_perm (order : copies.Perm copies') :
    distinctShards copies = distinctShards copies' :=
  ((order.map _).dedup).length_eq

theorem distinctShards_le_of_subset (subset : copies ⊆ copies') :
    distinctShards copies ≤ distinctShards copies' := by
  refine ((nodup_dedup _).subperm fun shard member => ?_).length_le
  rw [mem_dedup] at member ⊢
  exact map_subset _ subset member

theorem offeredCopies_subset (db : DB) (need : Nat) (c : Chunk) :
    db.offeredCopies need c ⊆ db.usableCopies c := by
  simp only [DB.offeredCopies]
  split
  · exact filter_subset_self _
  · exact List.Subset.refl _

/-- The plan picks what is on offer, the online copies first. -/
theorem pickDownloadPlacements_perm (db : DB) (need : Nat) (c : Chunk) :
    (pickDownloadPlacements (db.storedCopies c) need).Perm (db.offeredCopies need c) := by
  simp only [pickDownloadPlacements, DB.offeredCopies, DB.usableCopies]
  by_cases enough : need ≤ (((db.storedCopies c).filter DownloadPlacement.admissible).filter
      fun p => p.node.status = .online).length
  · simp only [enough, if_true]
    exact .refl _
  · simp only [enough, if_false]
    have parts := filter_append_perm (fun p : DownloadPlacement => p.node.status = .online)
      ((db.storedCopies c).filter DownloadPlacement.admissible)
    simpa using parts

theorem offeredCopies_length_lt :
    (db.offeredCopies need c).length < need ↔ (db.usableCopies c).length < need := by
  have fewer := length_filter_le (fun p : DownloadPlacement => p.node.status = .online)
    (db.usableCopies c)
  simp only [DB.offeredCopies]
  split <;> omega

theorem DB.mem_chunksOf : c ∈ db.chunksOf v ↔ c ∈ db.chunks ∧ c.versionId = v.id := by
  simp [chunksOf]

namespace Loaded

variable (loaded : Loaded db v chunks)
include loaded

theorem mem_chunksOf (member : dc ∈ chunks) : dc.chunk ∈ db.chunksOf v :=
  have of := (loaded.mem_iff dc).mp member
  DB.mem_chunksOf.mpr ⟨of.1, of.2.1⟩

theorem stored_ne_nil (member : dc ∈ chunks) : db.storedCopies dc.chunk ≠ [] :=
  ((loaded.mem_iff dc).mp member).2.2.2

theorem picked_perm (member : dc ∈ chunks) :
    (dc.picked need).Perm (db.offeredCopies need dc.chunk) := by
  rw [DownloadChunk.picked, ((loaded.mem_iff dc).mp member).2.2.1]
  exact pickDownloadPlacements_perm db need dc.chunk

theorem exists_of_stored (member : c ∈ db.chunksOf v) (stored : db.storedCopies c ≠ []) :
    ∃ dc ∈ chunks, dc.chunk = c := by
  obtain ⟨inChunks, ofVersion⟩ := DB.mem_chunksOf.mp member
  exact ⟨⟨c, db.storedCopies c⟩,
    (loaded.mem_iff ⟨c, db.storedCopies c⟩).mpr ⟨inChunks, ofVersion, rfl, stored⟩, rfl⟩

theorem chunks_perm (schema : db.Schema) :
    (chunks.map DownloadChunk.chunk).Perm
      ((db.chunksOf v).filter fun c => db.storedCopies c ≠ []) := by
  have different : (chunks.map DownloadChunk.chunk).Nodup :=
    pairwise_map.mpr (loaded.increasing.imp fun less same => by rw [same] at less; omega)
  have rows : ((db.chunksOf v).filter fun c => db.storedCopies c ≠ []).Nodup :=
    (schema.chunk_pk.nodup.filter _).filter _
  refine (perm_ext_iff_of_nodup different rows).mpr fun c => ?_
  rw [mem_map, mem_filter, decide_eq_true_eq]
  constructor
  · rintro ⟨dc, member, rfl⟩
    exact ⟨loaded.mem_chunksOf member, loaded.stored_ne_nil member⟩
  · exact fun ⟨member, stored⟩ => loaded.exists_of_stored member stored

/-- The loop asks for as many tickets as copies are on offer; a chunk it never
sees has none. -/
theorem sum_picked (schema : db.Schema) :
    (chunks.map fun dc => (dc.picked need).length).sum =
      ((db.chunksOf v).map fun c => (db.offeredCopies need c).length).sum := by
  have perChunk : (chunks.map fun dc => (dc.picked need).length) =
      (chunks.map DownloadChunk.chunk).map fun c => (db.offeredCopies need c).length := by
    rw [map_map]
    exact map_congr_left fun dc member => (loaded.picked_perm member).length_eq
  rw [perChunk, ((loaded.chunks_perm schema).map _).sum_nat]
  refine sum_map_filter fun c _ unseen => ?_
  have none_stored : db.storedCopies c = [] := by simpa using unseen
  simp [DB.offeredCopies, DB.usableCopies, none_stored]

end Loaded

theorem planDownload_ok (schema : db.Schema) (current : db.currentVersion ownerId fileId = some v)
    (planned : db.planDownload env ownerId fileId = (.ok r, db')) :
    ∃ chunks, Loaded db v chunks ∧ List.Forall₂ (DownloadChunk.Planned v.need) chunks r.chunks ∧
      ¬ DownloadRefused db v := by
  simp only [DB.planDownload] at planned
  split at planned
  · cases planned
  rename_i f v' chunks found
  obtain ⟨isCurrent, loaded⟩ := DB.loadDownload_ok schema found
  obtain rfl : v' = v := Option.some.inj (isCurrent.symm.trans current)
  split at planned <;> cases planned
  rename_i listed db₁ loop
  obtain ⟨pairs, needs, total⟩ := planChunks_ok loop
  refine ⟨chunks, loaded, pairs.imp ?_, ?_⟩
  · rintro dc rc ⟨of, made⟩
    refine ⟨of, ?_⟩
    rw [← forall₂_eq_eq_eq, forall₂_map_left_iff, forall₂_map_right_iff]
    exact made.flip.imp fun p ref ⟨_, same⟩ => by rw [same]; rfl
  rintro (⟨c, member, stored, few⟩ | many)
  · obtain ⟨dc, inLoaded, rfl⟩ := loaded.exists_of_stored member stored
    have enough := needs dc inLoaded
    rw [(loaded.picked_perm inLoaded).length_eq] at enough
    exact not_lt.mpr enough (offeredCopies_length_lt.mpr few)
  · have few := total (Nat.zero_le _)
    rw [loaded.sum_picked schema] at few
    omega

theorem planDownload_works (works : env.Works) (schema : db.Schema)
    (current : db.currentVersion ownerId fileId = some v) (allowed : ¬ DownloadRefused db v) :
    ∃ r db', db.planDownload env ownerId fileId = (.ok r, db') := by
  obtain ⟨f, chunks, found⟩ := DB.loadDownload_of_currentVersion current
  obtain ⟨-, loaded⟩ := DB.loadDownload_ok schema found
  rw [DownloadRefused, not_or] at allowed
  have needs : ∀ dc ∈ chunks, v.need ≤ (dc.picked v.need).length := by
    intro dc member
    by_contra few
    rw [(loaded.picked_perm member).length_eq, not_le, offeredCopies_length_lt] at few
    exact allowed.1 ⟨dc.chunk, loaded.mem_chunksOf member, loaded.stored_ne_nil member, few⟩
  have room : 0 + (chunks.map fun dc => (dc.picked v.need).length).sum ≤ maxPlanFragments := by
    rw [loaded.sum_picked schema]
    omega
  obtain ⟨result, db', loop⟩ := planChunks_works works db f.id needs room
  simp only [DB.planDownload, found, loop]
  exact ⟨_, _, rfl⟩

section Listed

variable (loaded : Loaded db v chunks)
include loaded

/-- The shards of an entry are those on offer for its chunk. -/
theorem planned_shards (member : dc ∈ chunks) {rc : DownloadResultChunk}
    (planned : dc.Planned v.need rc) :
    (rc.fragments.map ShardRef.shardIndex).dedup.length =
      distinctShards (db.offeredCopies v.need dc.chunk) := by
  rw [planned.2]
  exact distinctShards_perm (loaded.picked_perm member)

variable (pairs : List.Forall₂ (DownloadChunk.Planned v.need) chunks r.chunks)
include pairs

/-- The entries of a plan follow the loaded chunks. -/
theorem planned_increasing : r.chunks.Pairwise fun a b => a.seq < b.seq := by
  have seqs : chunks.map (fun dc => dc.chunk.seq) = r.chunks.map DownloadResultChunk.seq := by
    rw [← forall₂_eq_eq_eq, forall₂_map_left_iff, forall₂_map_right_iff]
    exact pairs.imp fun dc rc planned => planned.1.1.symm
  have sorted : (chunks.map fun dc => dc.chunk.seq).Pairwise (· < ·) :=
    pairwise_map.mpr loaded.increasing
  rw [seqs] at sorted
  exact pairwise_map.mp sorted

theorem complete_of_covered (covered : DownloadCovered db v) : DownloadComplete db v r where
  increasing := planned_increasing loaded pairs
  listed c member := by
    obtain ⟨dc, inLoaded, rfl⟩ := loaded.exists_of_stored member (covered c member).1
    obtain ⟨rc, inPlan, planned⟩ := forall₂_left pairs inLoaded
    exact ⟨rc, inPlan, planned.1⟩
  ofVersion rc member := by
    obtain ⟨dc, inLoaded, planned⟩ := forall₂_right pairs member
    exact ⟨dc.chunk, loaded.mem_chunksOf inLoaded, planned.1⟩
  shards rc member := by
    obtain ⟨dc, inLoaded, planned⟩ := forall₂_right pairs member
    rw [planned_shards loaded inLoaded planned]
    exact (covered dc.chunk (loaded.mem_chunksOf inLoaded)).2
  supplied c member := by
    have subset := distinctShards_le_of_subset (offeredCopies_subset db v.need c)
    have enough := (covered c member).2
    omega

theorem covered_of_complete (schema : db.Schema) (complete : DownloadComplete db v r) :
    DownloadCovered db v := by
  intro c member
  obtain ⟨rc, inPlan, ofChunk⟩ := complete.listed c member
  obtain ⟨dc, inLoaded, planned⟩ := forall₂_right pairs inPlan
  obtain ⟨inChunks, ofVersion⟩ := DB.mem_chunksOf.mp member
  obtain ⟨inChunks', ofVersion'⟩ := DB.mem_chunksOf.mp (loaded.mem_chunksOf inLoaded)
  -- one chunk of a version has this sequence number
  obtain rfl : dc.chunk = c := schema.chunk_seq.eq_of_key inChunks' inChunks
    (Prod.ext (ofVersion'.trans ofVersion.symm) (planned.1.1.symm.trans ofChunk.1))
  refine ⟨loaded.stored_ne_nil inLoaded, ?_⟩
  rw [← planned_shards loaded inLoaded planned]
  exact complete.shards rc inPlan

end Listed

/-- Plans of a version are complete exactly when its rows cover it, or make the
service refuse every plan.  A chunk without any stored copy is not noticed: the
query joins it away. -/
theorem planDownload_complete_iff {sigOk : SigCheck} {db : DB} (reachable : Reachable sigOk db)
    {ownerId fileId : Uuid} {v : FileVersion}
    (current : db.currentVersion ownerId fileId = some v) :
    (∀ env r db', db.planDownload env ownerId fileId = (.ok r, db') → DownloadComplete db v r) ↔
      DownloadRefused db v ∨ DownloadCovered db v := by
  have schema := reachable_schema reachable
  constructor
  · intro complete
    refine or_iff_not_imp_left.mpr fun allowed => ?_
    obtain ⟨r, db', planned⟩ := planDownload_works DownloadEnv.calm_works schema current allowed
    obtain ⟨chunks, loaded, pairs, -⟩ := planDownload_ok schema current planned
    exact covered_of_complete loaded pairs schema (complete _ r db' planned)
  · rintro cases env r db' planned
    obtain ⟨chunks, loaded, pairs, allowed⟩ := planDownload_ok schema current planned
    exact complete_of_covered loaded pairs (cases.resolve_left allowed)

namespace Sample

def version : FileVersion where
  id := gen 1
  fileId := gen 0
  versionNo := 1
  sizeBytes := 10
  contentSha256 := digest
  encryptionMeta := [123, 125]
  chunkSize := 1048576
  ecDataShards := 10
  ecParityShards := 6
  status := .committed

/-- Every node that holds a shard is reported offline. -/
def outage : List Event :=
  (List.range 14).map fun i => .act (.nodeOffline (node i).id)

/-- After the outage a plan is issued that lists no chunk. -/
theorem outage_planned :
    (exec (step toySig) committed outage).map (fun s =>
      (s.db.currentVersion owner (gen 0), s.db.chunks,
        (s.db.planDownload .calm owner (gen 0)).1.map DownloadResult.chunks)) =
      some (some version, [chunk], .ok []) := by
  decide +kernel

end Sample

theorem upload_planned_complete :
    (∀ env r db', committed.db.planDownload env owner (gen 0) = (.ok r, db') →
      DownloadComplete committed.db version r) ∧
    DownloadCovered committed.db version := by
  have covered : DownloadCovered committed.db version := by decide +kernel
  have current : committed.db.currentVersion owner (gen 0) = some version := by decide +kernel
  have reachable : Reachable toySig committed.db :=
    @reachable_of_run [] committed rfl
  exact ⟨(planDownload_complete_iff reachable current).mpr (.inr covered), covered⟩

theorem outage_plan_incomplete :
    ∃ db v r db', Reachable toySig db ∧
      db.currentVersion owner (gen 0) = some v ∧
      db.planDownload .calm owner (gen 0) = (.ok r, db') ∧
      ¬ DownloadComplete db v r := by
  obtain ⟨s, run, observed⟩ := Option.map_eq_some_iff.mp outage_planned
  simp only [Prod.mk.injEq] at observed
  obtain ⟨current, chunks, listed⟩ := observed
  cases planned : s.db.planDownload .calm owner (gen 0) with
  | mk result db' =>
    cases result with
    | error e => simp [planned, Except.map] at listed
    | ok r =>
      have empty : r.chunks = [] := by simpa [planned, Except.map] using listed
      refine ⟨s.db, version, r, db', reachable_of_run run, current, planned, ?_⟩
      intro complete
      have member : chunk ∈ s.db.chunksOf version := by
        rw [DB.chunksOf, chunks]
        decide
      obtain ⟨rc, inPlan, -⟩ := complete.listed _ member
      rw [empty] at inPlan
      cases inPlan

end StoragePlatform
