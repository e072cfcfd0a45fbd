/-
Module: StoragePlatform.Proofs.Health
Purpose: What the health scan counts and which chunks it misses, and where the
  repair path agrees with it.
Trusted boundary: none
Main exports: DB.CommittedChunk, DB.healthyPlacements, fullChunk_not_repaired
-/
import StoragePlatform.Proofs.Jobs

namespace StoragePlatform

open Lib List Sample

/-! ### Counting joined placements -/

/-- The chunk belongs to a committed version. -/
def DB.CommittedChunk (db : DB) (chunkId : Uuid) : Prop :=
  ∃ c ∈ db.chunks, c.id = chunkId ∧ ∃ v ∈ db.versions, v.id = c.versionId ∧ v.status = .committed

/-- Stored placements of the chunk on nodes that are neither offline nor
quarantined. -/
def DB.healthyPlacements (db : DB) (chunkId : Uuid) : Nat :=
  db.placements.countP fun p =>
    p.status = .stored ∧
      (∃ fr ∈ db.fragments, fr.id = p.fragmentId ∧ fr.chunkId = chunkId) ∧
      (∃ n ∈ db.nodes, n.id = p.nodeId ∧ n.status ≠ .offline ∧ n.status ≠ .quarantined)

section Counting

variable {db : DB}

theorem DB.mem_committedChunks {cv : Chunk × FileVersion} :
    cv ∈ db.committedChunks ↔
      cv.1 ∈ db.chunks ∧ cv.2 ∈ db.versions ∧ cv.2.id = cv.1.versionId ∧
        cv.2.status = .committed := by
  obtain ⟨c, v⟩ := cv
  simp [committedChunks]

theorem DB.committedChunk_iff {chunkId : Uuid} :
    db.CommittedChunk chunkId ↔ ∃ cv ∈ db.committedChunks, cv.1.id = chunkId := by
  constructor
  · rintro ⟨c, inChunks, same, v, inVersions, ofVersion, committed⟩
    exact ⟨(c, v), mem_committedChunks.mpr ⟨inChunks, inVersions, ofVersion, committed⟩, same⟩
  · rintro ⟨⟨c, v⟩, member, same⟩
    obtain ⟨inChunks, inVersions, ofVersion, committed⟩ := mem_committedChunks.mp member
    exact ⟨c, inChunks, same, v, inVersions, ofVersion, committed⟩

theorem DB.committedChunks_eq (schema : db.Schema) {cv cv' : Chunk × FileVersion}
    (member : cv ∈ db.committedChunks) (member' : cv' ∈ db.committedChunks)
    (same : cv.1.id = cv'.1.id) : cv = cv' := by
  obtain ⟨inChunks, inVersions, ofVersion, -⟩ := mem_committedChunks.mp member
  obtain ⟨inChunks', inVersions', ofVersion', -⟩ := mem_committedChunks.mp member'
  have sameChunk : cv.1 = cv'.1 := schema.chunk_pk.eq_of_key inChunks inChunks' same
  have sameVersion : cv.2.id = cv'.2.id := by rw [ofVersion, ofVersion', sameChunk]
  exact Prod.ext sameChunk (schema.version_pk.eq_of_key inVersions inVersions' sameVersion)

/-- Every placement joins one fragment and one node, so a count over the join is a
count over the placements. -/
theorem DB.countP_placementTargets (schema : db.Schema) (count : PlacementTarget → Bool) :
    db.placementTargets.countP count =
      db.placements.countP fun p => db.fragments.any fun fr => fr.id = p.fragmentId &&
        db.nodes.any fun n => n.id = p.nodeId &&
          count { placement := p, fragment := fr, node := n } := by
  rw [placementTargets, countP_map, countP_innerJoin_of_unique schema.node_pk.nodup]
  · rw [placedFragments, countP_innerJoin_of_unique schema.fragment_pk.nodup]
    · rfl
    · intro p _ fr inFragments fr' inFragments' joined joined'
      exact schema.fragment_pk.eq_of_key inFragments inFragments'
        ((of_decide_eq_true joined).trans (of_decide_eq_true joined').symm)
  · intro pf _ n inNodes n' inNodes' joined joined'
    exact schema.node_pk.eq_of_key inNodes inNodes'
      ((of_decide_eq_true joined).trans (of_decide_eq_true joined').symm)

/-- The rows of one committed chunk, without the chunk and version they join. -/
theorem DB.countP_storedOnChunks (schema : db.Schema) {chunkId : Uuid}
    (committed : db.CommittedChunk chunkId) (count : PlacementTarget → Bool) :
    (db.storedOnChunks.countP fun row => row.1.fragment.chunkId = chunkId ∧ count row.1) =
      db.placementTargets.countP fun t =>
        t.placement.status = .stored ∧ t.fragment.chunkId = chunkId ∧ count t := by
  obtain ⟨cv, inCommitted, same⟩ := committedChunk_iff.mp committed
  have nodup : db.committedChunks.Nodup :=
    nodup_innerJoin schema.chunk_pk.nodup schema.version_pk.nodup
  rw [storedOnChunks, countP_innerJoin_of_unique nodup, countP_filter]
  · refine countP_congr fun t _ => ?_
    simp only [any_eq_true, Bool.and_eq_true, decide_eq_true_eq]
    constructor
    · rintro ⟨⟨_, _, _, inChunk, counted⟩, stored⟩
      exact ⟨stored, inChunk, counted⟩
    · rintro ⟨stored, inChunk, counted⟩
      exact ⟨⟨cv, inCommitted, same.trans inChunk.symm, inChunk, counted⟩, stored⟩
  · intro t _ cv inCommitted cv' inCommitted' joined joined'
    exact committedChunks_eq schema inCommitted inCommitted'
      ((of_decide_eq_true joined).trans (of_decide_eq_true joined').symm)

theorem DB.mem_storedOnChunks {row : PlacementTarget × Chunk × FileVersion} :
    row ∈ db.storedOnChunks ↔
      row.1 ∈ db.placementTargets ∧ row.1.placement.status = .stored ∧
        row.2 ∈ db.committedChunks ∧ row.2.1.id = row.1.fragment.chunkId := by
  obtain ⟨t, cv⟩ := row
  simp [storedOnChunks, and_assoc]

/-- The count of the scan is the number of healthy placements. -/
theorem DB.countP_healthyRows (schema : db.Schema) {chunkId : Uuid}
    (committed : db.CommittedChunk chunkId) :
    ((db.storedOnChunks.filter fun row => row.1.node.usable).countP
      fun row => row.2.1.id = chunkId) = db.healthyPlacements chunkId := by
  have byFragment : ((db.storedOnChunks.filter fun row => row.1.node.usable).countP
      fun row => row.2.1.id = chunkId) =
      db.storedOnChunks.countP fun row =>
        row.1.fragment.chunkId = chunkId ∧ row.1.node.usable := by
    rw [countP_filter]
    refine countP_congr fun row member => ?_
    rw [(mem_storedOnChunks.mp member).2.2.2]
    simp
  rw [byFragment, countP_storedOnChunks schema committed fun t => t.node.usable,
    countP_placementTargets schema, healthyPlacements]
  refine countP_congr fun p _ => ?_
  simp only [any_eq_true, Bool.and_eq_true, decide_eq_true_eq, Node.usable]
  constructor
  · rintro ⟨fr, inFragments, joined, n, inNodes, onNode, stored, inChunk, usable⟩
    exact ⟨stored, ⟨fr, inFragments, joined, inChunk⟩, n, inNodes, onNode, usable⟩
  · rintro ⟨stored, ⟨fr, inFragments, joined, inChunk⟩, n, inNodes, onNode, usable⟩
    exact ⟨fr, inFragments, joined, n, inNodes, onNode, stored, inChunk, usable⟩

/-- The scan lists the committed chunks below `min` that have a healthy placement
left. -/
theorem DB.mem_underHealthyChunks (schema : db.Schema) {min : Int} {chunkId : Uuid} :
    chunkId ∈ db.underHealthyChunks min ↔
      db.CommittedChunk chunkId ∧ 0 < db.healthyPlacements chunkId ∧
        (db.healthyPlacements chunkId : Int) < min := by
  rw [underHealthyChunks, mem_groupHaving]
  constructor
  · rintro ⟨⟨row, member, same⟩, below⟩
    have inScan := (mem_filter.mp member).1
    have committed : db.CommittedChunk chunkId :=
      committedChunk_iff.mpr ⟨row.2, (mem_storedOnChunks.mp inScan).2.2.1, same⟩
    rw [countP_healthyRows schema committed] at below
    refine ⟨committed, ?_, of_decide_eq_true below⟩
    rw [← countP_healthyRows schema committed, countP_pos_iff]
    exact ⟨row, member, decide_eq_true same⟩
  · rintro ⟨committed, some_left, below⟩
    rw [← countP_healthyRows schema committed] at some_left below
    obtain ⟨row, member, same⟩ := countP_pos_iff.mp some_left
    exact ⟨⟨row, member, of_decide_eq_true same⟩, decide_eq_true below⟩

end Counting

/-! ### The durability check -/

/-- The scan returns the committed chunks below the bound, and the check passes
exactly when there is none below twelve. -/
structure DurabilityExact (db : DB) : Prop where
  /-- Each chunk below the bound is listed once, and no other one is. -/
  scan : ∀ min : Int, (db.underHealthyChunks min).Nodup ∧
    ∀ chunkId, chunkId ∈ db.underHealthyChunks min ↔
      db.CommittedChunk chunkId ∧ (db.healthyPlacements chunkId : Int) < min
  check : db.checkDurability = .ok () ↔
    ∀ chunkId, db.CommittedChunk chunkId → 12 ≤ db.healthyPlacements chunkId

theorem DB.checkDurability_ok {db : DB} :
    db.checkDurability = .ok () ↔ db.underHealthyChunks minHealthy = [] := by
  rw [checkDurability]
  split
  · rename_i nothing
    simp [nothing]
  · rename_i listed
    simp [listed]

/-- The check is exact on a state exactly when no committed chunk has lost all its
healthy placements: the inner joins give such a chunk no group. -/
theorem durability_exact_iff {db : DB} (schema : db.Schema) :
    DurabilityExact db ↔
      ∀ chunkId, db.CommittedChunk chunkId →
        ∃ p ∈ db.placements, p.status = .stored ∧
          (∃ fr ∈ db.fragments, fr.id = p.fragmentId ∧ fr.chunkId = chunkId) ∧
          (∃ n ∈ db.nodes, n.id = p.nodeId ∧ n.status ≠ .offline ∧ n.status ≠ .quarantined) := by
  have left_iff : ∀ chunkId, 0 < db.healthyPlacements chunkId ↔
      ∃ p ∈ db.placements, p.status = .stored ∧
        (∃ fr ∈ db.fragments, fr.id = p.fragmentId ∧ fr.chunkId = chunkId) ∧
        (∃ n ∈ db.nodes, n.id = p.nodeId ∧ n.status ≠ .offline ∧ n.status ≠ .quarantined) := by
    intro chunkId
    simp only [DB.healthyPlacements, countP_pos_iff, decide_eq_true_eq]
  simp only [← left_iff]
  constructor
  · intro exact_ chunkId committed
    by_contra none_left
    -- with no healthy placement the chunk is below every positive bound
    have listed := ((exact_.scan 1).2 chunkId).mpr ⟨committed, by omega⟩
    exact none_left ((DB.mem_underHealthyChunks schema).mp listed).2.1
  · intro some_left
    have members : ∀ min chunkId, chunkId ∈ db.underHealthyChunks min ↔
        db.CommittedChunk chunkId ∧ (db.healthyPlacements chunkId : Int) < min := by
      intro min chunkId
      rw [DB.mem_underHealthyChunks schema]
      constructor
      · rintro ⟨committed, -, below⟩
        exact ⟨committed, below⟩
      · rintro ⟨committed, below⟩
        exact ⟨committed, some_left chunkId committed, below⟩
    refine ⟨fun min => ⟨nodup_groupHaving _ _ _, members min⟩, ?_⟩
    rw [DB.checkDurability_ok, eq_nil_iff_forall_not_mem]
    constructor
    · intro none_listed chunkId committed
      by_contra below
      exact none_listed chunkId ((members _ _).mpr ⟨committed, by rw [minHealthy]; omega⟩)
    · intro enough chunkId listed
      obtain ⟨committed, below⟩ := (members _ _).mp listed
      have twelve := enough chunkId committed
      rw [minHealthy] at below
      omega

theorem upload_durability_exact : DurabilityExact committed.db := by
  have reachable : Reachable toySig committed.db :=
    @reachable_of_run [] committed rfl
  refine (durability_exact_iff (reachable_schema reachable)).mpr ?_
  rintro chunkId ⟨c, inChunks, rfl, -⟩
  obtain rfl := mem_singleton.mp inChunks
  decide +kernel

namespace Sample

/-- Every node that holds the chunk goes offline. -/
def allOffline : List Event :=
  (List.range 14).map fun i => .act (.nodeOffline (node i).id)

theorem allOffline_unnoticed :
    (exec (step toySig) committed allOffline).map (fun s =>
      (s.db.checkDurability, s.db.healthyPlacements chunk.id, s.db.chunks, s.db.versions)) =
      some (.ok (), 0, committed.db.chunks, committed.db.versions) := by
  decide +kernel

end Sample

/-- The chunk has no copy left, and the check passes. -/
theorem lostChunk_passes_check :
    ∃ db chunkId, Reachable toySig db ∧ db.CommittedChunk chunkId ∧
      db.healthyPlacements chunkId = 0 ∧ chunkId ∉ db.underHealthyChunks 12 ∧
      db.checkDurability = .ok () := by
  obtain ⟨s, run, observed⟩ := Option.map_eq_some_iff.mp allOffline_unnoticed
  simp only [Prod.mk.injEq] at observed
  obtain ⟨passes, none_left, chunks, versions⟩ := observed
  have nothing := DB.checkDurability_ok.mp passes
  refine ⟨s.db, chunk.id, reachable_of_run run, ?_, none_left, ?_, passes⟩
  · rw [DB.CommittedChunk, chunks, versions]
    decide +kernel
  · rw [show (12 : Int) = minHealthy from rfl, nothing]
    exact not_mem_nil

/-! ### The repair path

The scan, `ChunkHealth` and `PlanRepair` each have their own notion of a healthy
copy.  The scan wants a usable node, the other two only look at the row.
-/

/-- The fragment has a stored placement on a node that is neither offline nor
quarantined. -/
def DB.StoredOnUsable (db : DB) (fr : Fragment) : Prop :=
  ∃ p ∈ db.placements, p.fragmentId = fr.id ∧ p.status = .stored ∧
    ∃ n ∈ db.nodes, n.id = p.nodeId ∧ n.status ≠ .offline ∧ n.status ≠ .quarantined
deriving Decidable

/-- `PlanRepair` signs a target for the fragment or hands it to the scheduler. -/
def DB.PlansFor (db : DB) (chunkId : Uuid) (fr : Fragment) : Prop :=
  (∃ n, (fr, n) ∈ repairReused (db.repairFragments chunkId)) ∨
    ∃ need ∈ repairNeeds chunkId (db.repairFragments chunkId), need.fragmentId = fr.id

/-- A scan without errors. -/
structure ScanRun.Calm (run : ScanRun) : Prop where
  scan : run.scanRead = true
  health : ∀ chunkId, run.healthRead chunkId = true
  publish : ∀ chunkId, run.publishes chunkId = .done

/-- The three parts of the repair path act on the chunk. -/
structure RepairAgrees (sigOk : SigCheck) (rs : ReedSolomon) (sha256 : Bytes → Bytes) (db : DB)
    (chunkId : Uuid) : Prop where
  /-- A scan leaves the job accepted, then or within the window before. -/
  published : ∀ run stream, ScanRun.Calm run →
    (db.enqueueUnhealthy run stream).duplicate (run.publishAt chunkId)
      { chunkId := chunkId, healthy := db.chunkHealth chunkId } = true
  /-- The job is not acknowledged before its plan: a lost plan is an error. -/
  taken : ∀ (run : JobRun) stream healthy, run.healthRead = true → run.planHeard = false →
    (db.onJob sigOk rs sha256 run stream { chunkId := chunkId, healthy := healthy }).result =
      .error .plan
  planned : ∀ fr ∈ db.fragmentsOf chunkId, ¬ db.StoredOnUsable fr → db.PlansFor chunkId fr

section Agreement

variable {db : DB} {chunkId : Uuid}

theorem accepted_subset_enqueue (run : ScanRun) (chunks : List Uuid) (stream : JobStream) :
    stream.accepted ⊆ (chunks.foldl (db.enqueueChunk run) stream).accepted := by
  induction chunks generalizing stream with
  | nil => exact List.Subset.refl _
  | cons c chunks ih =>
    rw [foldl_cons]
    refine List.Subset.trans ?_ (ih _)
    rw [DB.enqueueChunk]
    split
    · exact List.Subset.refl _
    · exact JobStream.accepted_subset_publishRepair _ _ _

theorem enqueueUnhealthy_published (listed : chunkId ∈ db.underHealthyChunks repairThreshold)
    (unhealthy : db.chunkHealth chunkId < 16) {run : ScanRun} (calm : run.Calm)
    (stream : JobStream) :
    (db.enqueueUnhealthy run stream).duplicate (run.publishAt chunkId)
      { chunkId := chunkId, healthy := db.chunkHealth chunkId } = true := by
  rw [DB.enqueueUnhealthy, if_neg (by simp [calm.scan])]
  obtain ⟨before, after, split⟩ := append_of_mem listed
  rw [split, foldl_append, foldl_cons]
  generalize before.foldl (db.enqueueChunk run) stream = reached
  have accepted : (db.enqueueChunk run reached chunkId).duplicate (run.publishAt chunkId)
      { chunkId := chunkId, healthy := db.chunkHealth chunkId } = true := by
    rw [DB.enqueueChunk, if_neg (by simp [calm.health, calm.publish])]
    exact JobStream.duplicate_publishRepair _ _ unhealthy
  obtain ⟨entry, member, recent⟩ := any_eq_true.mp accepted
  exact any_eq_true.mpr ⟨entry, accepted_subset_enqueue run after _ member, recent⟩

/-- `DISTINCT ON` prefers a stored row, so it keeps one exactly when there is
one. -/
theorem DB.livePlacement_stored {f : Uuid} :
    (∃ p, db.livePlacement f = some p ∧ p.status = .stored) ↔
      ∃ p ∈ db.placements, p.fragmentId = f ∧ p.status = .stored := by
  constructor
  · rintro ⟨p, kept, stored⟩
    obtain ⟨member, onFragment, -⟩ := livePlacement_some kept
    exact ⟨p, member, onFragment, stored⟩
  · rintro ⟨p, member, onFragment, stored⟩
    have candidate : p ∈ orderBy Placement.preferred
        (db.placements.filter fun p => p.fragmentId = f ∧ p.live) := by
      rw [mem_orderBy, mem_filter]
      exact ⟨member, by simp [onFragment, Placement.live, stored]⟩
    have total : ∀ a b, Placement.preferred a b = true ∨ Placement.preferred b a = true := by
      intro a b
      simp only [Placement.preferred, decide_eq_true_eq]
      omega
    have sorted := orderBy_pairwise total
      (by intro a b c; simp only [Placement.preferred, decide_eq_true_eq]; omega)
      (db.placements.filter fun p => p.fragmentId = f ∧ p.live)
    rw [livePlacement]
    cases ordered : orderBy Placement.preferred
        (db.placements.filter fun p => p.fragmentId = f ∧ p.live) with
    | nil =>
      rw [ordered] at candidate
      cases candidate
    | cons q rest =>
      rw [ordered] at candidate sorted
      refine ⟨q, rfl, ?_⟩
      rcases mem_cons.mp candidate with rfl | later
      · exact stored
      · have before := (pairwise_cons.mp sorted).1 p later
        simp only [Placement.preferred, stored, PlacementStatus.rank, decide_eq_true_eq] at before
        cases status : q.status <;> simp [status] at before ⊢

/-- A fragment is left out of the plan exactly when it has a stored row. -/
theorem plansFor_iff (schema : db.Schema) {fr : Fragment}
    (inChunk : fr ∈ db.fragmentsOf chunkId) :
    db.PlansFor chunkId fr ↔ ¬ ∃ p ∈ db.placements, p.fragmentId = fr.id ∧ p.status = .stored := by
  rw [← DB.livePlacement_stored, DB.PlansFor]
  constructor
  · rintro (⟨n, reused⟩ | ⟨need, needed, ofFragment⟩) ⟨p, kept, stored⟩
    · obtain ⟨-, -, -, -, q, kept', pending, -⟩ := (DB.mem_reused schema).mp reused
      rw [Option.some.inj (kept.symm.trans kept'), pending] at stored
      cases stored
    · obtain ⟨fr', missing, rfl⟩ := mem_map.mp needed
      obtain ⟨-, unplaced⟩ := (DB.mem_missing schema).mp missing
      rw [(unplaced p (by rw [show fr'.id = fr.id from ofFragment, kept])).1] at stored
      cases stored
  · intro unstored
    cases kept : db.livePlacement fr.id with
    | none =>
      right
      have missing := (DB.mem_missing schema).mpr
        ⟨inChunk, fun p kept' => by cases kept.symm.trans kept'⟩
      exact ⟨_, mem_map_of_mem missing, rfl⟩
    | some p =>
      obtain ⟨member, -, live⟩ := DB.livePlacement_some kept
      have pending : p.status = .pending := by
        have either : p.status = .pending ∨ p.status = .stored := by
          simpa [Placement.live] using live
        exact either.resolve_right fun stored => unstored ⟨p, kept, stored⟩
      obtain ⟨n, inNodes, onNode⟩ := schema.placement_node p member
      by_cases usable : n.status ≠ .offline ∧ n.status ≠ .quarantined
      · left
        exact ⟨n, (DB.mem_reused schema).mpr
          ⟨inChunk, inNodes, usable.1, usable.2, p, kept, pending, onNode⟩⟩
      · right
        have missing : fr ∈ repairMissing (db.repairFragments chunkId) := by
          refine (DB.mem_missing schema).mpr ⟨inChunk, fun q kept' => ?_⟩
          obtain rfl := Option.some.inj (kept.symm.trans kept')
          refine ⟨pending, fun m inNodes' onNode' => ?_⟩
          rw [schema.node_pk.eq_of_key inNodes' inNodes (onNode'.trans onNode.symm)]
          rwa [not_and_or, not_not, not_not] at usable
        exact ⟨_, mem_map_of_mem missing, rfl⟩

end Agreement

/-- A delivery that reads the health and then loses the plan. -/
def lostPlanRun : JobRun where
  healthRead := true
  place := { now := 0, alive := fun _ => none, readsOk := true, draw := fun _ => none,
             reserve := fun _ => true }
  sign := signAlways
  planHeard := false
  get := fun _ => none
  arrival := fun _ => 0
  put := fun _ => none
  lostWritten := fun _ => true
  readAt := fun _ => 0
  commitHeard := true
  recheckRead := true
  publishAt := 0
  publishes := .done

/-- The repair path agrees with the scan on a chunk exactly when the chunk has
fewer than sixteen stored rows and none of its fragments is stored only on nodes
the scan does not count. -/
theorem repairAgrees_iff (sigOk : SigCheck) (rs : ReedSolomon) (sha256 : Bytes → Bytes) {db : DB}
    (schema : db.Schema) {chunkId : Uuid} (listed : chunkId ∈ db.underHealthyChunks 16) :
    RepairAgrees sigOk rs sha256 db chunkId ↔
      db.chunkHealth chunkId < 16 ∧
        ∀ fr ∈ db.fragmentsOf chunkId,
          (∃ p ∈ db.placements, p.fragmentId = fr.id ∧ p.status = .stored) →
            db.StoredOnUsable fr := by
  constructor
  · intro agrees
    constructor
    · by_contra healthy
      have result := agrees.taken lostPlanRun .empty 0 rfl rfl
      rw [DB.onJob, if_neg (by simp [lostPlanRun]),
        if_pos (by rw [repairThreshold]; simpa using healthy)] at result
      cases result
    · intro fr inChunk stored
      by_contra unusable
      exact (plansFor_iff schema inChunk).mp (agrees.planned fr inChunk unusable) stored
  · rintro ⟨unhealthy, usable⟩
    refine ⟨fun run stream calm => enqueueUnhealthy_published listed unhealthy calm stream, ?_, ?_⟩
    · intro run stream healthy read unheard
      rw [DB.onJob, if_neg (by simp [read]),
        if_neg (by rw [repairThreshold]; simpa using unhealthy)]
      cases planned : db.planRepair run.place run.sign chunkId with
      | mk result db' => cases result <;> simp [unheard]
    · intro fr inChunk unusable
      exact (plansFor_iff schema inChunk).mpr fun stored => unusable (usable fr inChunk stored)

theorem upload_repairAgrees :
    RepairAgrees toySig toyCode toyHash committed.db chunk.id := by
  have reachable : Reachable toySig committed.db :=
    @reachable_of_run [] committed rfl
  have listed : chunk.id ∈ committed.db.underHealthyChunks 16 := by decide +kernel
  exact (repairAgrees_iff toySig toyCode toyHash (reachable_schema reachable)
    listed).mpr (by decide +kernel)

namespace Sample

/-- The two missing shards are rebuilt on nodes 14 and 15, and then node 0 goes
offline; its placements are not marked yet. -/
def repairedThenOffline : List Event :=
  [.request (.planRepair chunk.id), .move 2 .load, .move 2 (.place (env fun _ => true)),
    .move 2 .insert, .move 2 .insert, .move 2 (.finish sign),
    .request (.commitRepair chunk.id [wire 14 14, wire 15 15]
      [target 15 14 14, target 16 15 15]),
    .move 3 .commit, .act (.updateNode (node 0).id (withStatus .offline))]

def calmScan : ScanRun where
  scanRead := true
  healthRead _ := true
  publishAt _ := 0
  publishes _ := .done

theorem repairedThenOffline_skipped :
    (exec (step toySig) committed repairedThenOffline).map (fun s =>
      (s.db.underHealthyChunks 16, s.db.enqueueUnhealthy calmScan .empty,
        (s.db.onJob toySig toyCode toyHash lostPlanRun .empty
          { chunkId := chunk.id, healthy := 16 }).result)) =
      some ([chunk.id], .empty, .ok ()) := by
  decide +kernel

end Sample

/-- The scan lists the chunk; nothing is published for it, and a job for it would
be acknowledged as recovered. -/
theorem fullChunk_not_repaired :
    ∃ db chunkId, Reachable toySig db ∧ chunkId ∈ db.underHealthyChunks 16 ∧
      db.enqueueUnhealthy calmScan .empty = .empty ∧
      ¬ RepairAgrees toySig toyCode toyHash db chunkId := by
  obtain ⟨s, run, observed⟩ := Option.map_eq_some_iff.mp repairedThenOffline_skipped
  simp only [Prod.mk.injEq] at observed
  obtain ⟨listed, nothing, skipped⟩ := observed
  refine ⟨s.db, chunk.id, reachable_of_run run, by simp [listed], nothing, ?_⟩
  intro agrees
  have result := agrees.taken lostPlanRun .empty 16 rfl rfl
  rw [skipped] at result
  cases result

end StoragePlatform
