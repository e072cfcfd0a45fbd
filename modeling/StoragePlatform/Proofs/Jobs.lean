/-
Module: StoragePlatform.Proofs.Jobs
Purpose: Which deliveries of repair jobs may end with nil: when every plan finds
  a target and no later count was just published, no chunk below the target is
  left without a job.
Trusted boundary: none
Main exports: putTargets_health, commitJob_ok, repairJobs_not_forgotten
-/
import StoragePlatform.Repair.Jobs
import StoragePlatform.Proofs.RepairPlan

namespace StoragePlatform

open Lib List Sample

variable {db db' : DB} {targets : List ShardRef} {run : JobRun} {sha256 : Bytes → Bytes}
variable {shards : List (Option Bytes)} {sigOk : SigCheck} {chunkId : Uuid} {receipts : List Text}
variable {stream : JobStream} {assigns : List PlaceAssign} {plan : RepairPlan}

/-! ### Health along a delivery -/

/-- New rows are not stored, and old ones stay. -/
theorem chunkHealth_le_of_inserted {pairs : List (Uuid × Uuid)} (inserted : Inserted db pairs db')
    (chunkId : Uuid) : db.chunkHealth chunkId ≤ db'.chunkHealth chunkId := by
  obtain ⟨more, appended⟩ := inserted.kept
  have fragments : db'.fragments = db.fragments := by rw [inserted.frame]
  simp only [DB.chunkHealth, DB.placedFragments, fragments, ← appended, innerJoin_append,
    countP_append]
  omega

/-- Losing a row that is not stored does not change the health of a chunk. -/
theorem chunkHealth_markPlacementLost {f n : Uuid}
    (unstored : ∀ p ∈ db.placements, p.fragmentId = f → p.nodeId = n → p.status ≠ .stored)
    (chunkId : Uuid) :
    (db.markPlacementLost f n).2.chunkHealth chunkId = db.chunkHealth chunkId := by
  rw [DB.markPlacementLost_eq]
  refine countP_innerJoin_updateWhere (fun _ _ => rfl) fun p member selected fr _ _ => ?_
  have chosen := of_decide_eq_true selected
  have kept := unstored p member chosen.1 chosen.2.1
  simp [kept]

/-- Storing a pending row of the chunk raises its health. -/
theorem chunkHealth_lt_commit {fragmentIds : List Uuid} {p : Placement} {fr : Fragment}
    (inPlacements : p ∈ db.placements) (inFragments : fr ∈ db.fragments)
    (ofFragment : fr.id = p.fragmentId) (pending : p.status = .pending)
    (listed : p.fragmentId ∈ fragmentIds) :
    db.chunkHealth fr.chunkId < (db.commitRepairPlacements fragmentIds).chunkHealth fr.chunkId := by
  have joined : (db.commitRepairPlacements fragmentIds).placedFragments =
      db.placedFragments.map fun row =>
        (if (row.1.status = .pending ∧ row.1.fragmentId ∈ fragmentIds : Bool) then
          row.1.setStatus .stored else row.1, row.2) := by
    simp only [DB.placedFragments, DB.commitRepairPlacements, markStored_eq]
    apply innerJoin_updateWhere
    exact fun _ _ => rfl
  rw [DB.chunkHealth, DB.chunkHealth, joined, countP_map]
  refine countP_lt_countP ?_ (DB.mem_placedFragments.mpr
    ⟨inPlacements, inFragments, ofFragment⟩) ?_ ?_
  · rintro ⟨q, fr'⟩ - counted
    simp only [decide_eq_true_eq] at counted
    simp [counted.1, counted.2]
  · simp [pending]
  · simp [pending, listed]

/-! ### The transfers -/

/-- No row of a target is stored. -/
def Unstored (db : DB) (targets : List ShardRef) : Prop :=
  ∀ t ∈ targets, ∀ p ∈ db.placements, p.fragmentId = t.fragmentId → p.nodeId = t.nodeId →
    p.status ≠ .stored

theorem Unstored.markPlacementLost (unstored : Unstored db targets) (f n : Uuid) :
    Unstored (db.markPlacementLost f n).2 targets := by
  intro t member p inRows onFragment onNode
  rw [DB.markPlacementLost_eq, mem_updateWhere] at inRows
  rcases inRows with ⟨old, -, -, rfl⟩ | ⟨inRows, -⟩
  · simp
  · exact unstored t member p inRows onFragment onNode

/-- What marking its targets lost keeps, the PUT loop keeps. -/
theorem putTargets_keeps {P : DB → Prop} (holds : P db)
    (lost : ∀ db, P db → ∀ t ∈ targets, P (db.markPlacementLost t.fragmentId t.nodeId).2) :
    P (putTargets run sha256 shards db targets).2 := by
  induction targets generalizing db with
  | nil => exact holds
  | cons tgt rest ih =>
    have later : ∀ db, P db → ∀ t ∈ rest, P (db.markPlacementLost t.fragmentId t.nodeId).2 :=
      fun db kept t member => lost db kept t (mem_cons_of_mem _ member)
    simp only [putTargets]
    split
    · exact holds
    split
    · exact holds
    split
    · split
      · exact ih (lost db holds tgt mem_cons_self) later
      · exact ih holds later
    · have tail := ih holds later
      split <;> rename_i looped <;> rw [looped] at tail <;> exact tail

/-- The PUT loop leaves the stored rows alone. -/
theorem putTargets_health {result : Except JobErr (List Text)} (unstored : Unstored db targets)
    (looped : putTargets run sha256 shards db targets = (result, db')) (chunkId : Uuid) :
    db'.chunkHealth chunkId = db.chunkHealth chunkId := by
  obtain rfl := congrArg Prod.snd looped
  refine (putTargets_keeps (P := fun db' => Unstored db' targets ∧
    db'.chunkHealth chunkId = db.chunkHealth chunkId) ⟨unstored, rfl⟩ ?_).2
  rintro db' ⟨unstored', same⟩ t member
  exact ⟨unstored'.markPlacementLost _ _,
    (chunkHealth_markPlacementLost (unstored' t member) chunkId).trans same⟩

theorem putTargets_schema {result : Except JobErr (List Text)} (schema : db.Schema)
    (looped : putTargets run sha256 shards db targets = (result, db')) : db'.Schema := by
  obtain rfl := congrArg Prod.snd looped
  refine putTargets_keeps schema fun db' schema' t _ => ?_
  rw [DB.markPlacementLost_eq]
  exact schema'.setStatus _ _

/-! ### The commit -/

/-- A commit that accepts a receipt stores a pending row of the chunk. -/
theorem commitRepair_raises {targets : List PlacementTarget}
    (order : targets.Perm (db.pendingTargetsForChunk chunkId)) (some_receipt : receipts ≠ [])
    (committed : db.commitRepair sigOk targets receipts = .ok db') :
    db.chunkHealth chunkId < db'.chunkHealth chunkId := by
  obtain ⟨accepted, matched, rfl⟩ := DB.commitRepair_ok committed
  obtain ⟨wire, isReceipt⟩ := exists_mem_of_ne_nil receipts some_receipt
  obtain ⟨t, kept, accepts, -⟩ := acceptReceipts_all matched wire isReceipt
  obtain ⟨inJoin, chosen⟩ := mem_filter.mp (order.mem_iff.mp (mem_of_mem_byFragment kept))
  obtain ⟨inPlacements, inFragments, -, ofFragment, -⟩ := DB.mem_placementTargets.mp inJoin
  obtain ⟨ofChunk, pending⟩ := of_decide_eq_true chosen
  rw [← ofChunk]
  exact chunkHealth_lt_commit inPlacements inFragments ofFragment pending (ofFragment ▸ accepts)

/-- A job that ends with nil after its commit has raised the health of its chunk,
to the target or to a count it publishes. -/
theorem commitJob_ok (some_receipt : receipts ≠ [])
    (returned : (db.commitJob sigOk run stream chunkId receipts).result = .ok ()) :
    let after := db.commitJob sigOk run stream chunkId receipts
    repairThreshold ≤ after.db.chunkHealth chunkId ∨
      db.chunkHealth chunkId < after.db.chunkHealth chunkId ∧
        after.db.chunkHealth chunkId < repairThreshold ∧
        after.stream = stream.publishRepair run.publishAt
          { chunkId := chunkId, healthy := after.db.chunkHealth chunkId } := by
  simp only [DB.commitJob] at returned ⊢
  split at returned
  · cases returned
  rename_i db' committed
  have raised := commitRepair_raises (orderBy_perm _ _) some_receipt committed
  split at returned
  · cases returned
  rename_i heard
  split at returned
  · cases returned
  rename_i rechecked
  simp only [if_neg heard, if_neg rechecked]
  split at returned
  · rename_i below
    rw [if_pos below]
    cases published : run.publishes with
    | done => exact .inr ⟨raised, below, rfl⟩
    | unheard => simp [published] at returned
    | failed => simp [published] at returned
  · rename_i enough
    rw [if_neg enough]
    exact .inl (Nat.not_lt.mp enough)

theorem commitJob_schema (schema : db.Schema) :
    (db.commitJob sigOk run stream chunkId receipts).db.Schema := by
  simp only [DB.commitJob]
  split
  · exact schema
  rename_i db' committed
  obtain ⟨accepted, -, rfl⟩ := DB.commitRepair_ok committed
  have kept := schema.markStored accepted
  repeat' split
  all_goals exact kept

/-! ### The plan -/

theorem planRepair_schema {env : PlaceEnv} {sign : SignTicket} {result : Except StoreErr RepairPlan}
    (schema : db.Schema) (planning : db.planRepair env sign chunkId = (result, db')) :
    db'.Schema := by
  simp only [DB.planRepair, DB.planLoaded] at planning
  repeat' split at planning
  all_goals cases planning
  all_goals first | exact schema | exact schema.insertPlacements ‹_›

section Planned

variable {env : PlaceEnv}

/-- The targets of a plan are shards that are not stored where they are sent. -/
theorem Planned.unstored (schema : db.Schema)
    (planned : Planned db env chunkId assigns targets db') : Unstored db' targets := by
  have inserted := insertPlacements_inserted planned.inserted
  intro t member q inRows onFragment onNode
  obtain ⟨fr, n, ofFragment, ofNode, reused | placed⟩ := planned.mem_target member
  · -- the pair has one row, and it was read as pending
    obtain ⟨-, -, -, -, p, live, pending, sameNode⟩ := (DB.mem_reused schema).mp reused
    obtain ⟨inPlacements, onFragment', -⟩ := DB.livePlacement_some live
    have same : q = p := (inserted.schema schema).placement_pair.eq_of_key inRows
      (inserted.kept.subset inPlacements)
      (Prod.ext (onFragment.trans (onFragment'.trans ofFragment).symm)
        (onNode.trans (sameNode.symm.trans ofNode).symm))
    rw [same, pending]
    decide
  · rcases inserted.added q inRows with old | ⟨pending, -, -⟩
    · -- a stored row would make the node an occupant
      intro stored
      obtain ⟨missing, inAssigns⟩ := mem_repairPlaced placed
      obtain ⟨inTable, ofChunk⟩ := mem_filter.mp ((DB.mem_missing schema).mp missing).1
      obtain ⟨m, inNodes, onNode'⟩ := schema.placement_node q old
      let held : PlacementTarget := { placement := q, fragment := fr, node := m }
      have listed : held ∈ db.placementTargets := DB.mem_placementTargets.mpr
        ⟨old, inTable, inNodes, ofFragment.trans onFragment.symm, onNode'⟩
      exact ((planned.assigned schema).2.1 _ inAssigns).not_holding listed
        (of_decide_eq_true ofChunk)
        (by simp [held, Placement.live, stored]) (onNode'.trans (onNode.trans ofNode.symm))
    · rw [pending]
      decide

end Planned

/-! ### When a plan has a target -/

instance (db : DB) (fr : Fragment) (n : Node) : Decidable (db.AwaitedOn fr n) :=
  decidable_of_iff (n ∈ db.nodes ∧ n.status ≠ .offline ∧ n.status ≠ .quarantined ∧
    ∃ p ∈ (db.livePlacement fr.id).toList, p.status = .pending ∧ n.id = p.nodeId)
    (by simp [DB.AwaitedOn])

instance (db : DB) (fr : Fragment) : Decidable (db.Unplaced fr) :=
  decidable_of_iff (∀ p ∈ (db.livePlacement fr.id).toList, p.status = .pending ∧
    ∀ n ∈ db.nodes, n.id = p.nodeId → n.status = .offline ∨ n.status = .quarantined)
    (by simp [DB.Unplaced])

/-- The scheduler finds a node for the first missing fragment: the draw works, and
a live node is eligible. -/
def DB.FindsNode (db : DB) (env : PlaceEnv) (chunkId : Uuid) : Prop :=
  (env.draw 0).isSome ∧ ∃ m ∈ db.liveNodes env,
    eligible env.now (seedUse (db.listOccupants [chunkId]) chunkId) m = true
deriving Decidable

/-- A fragment of the chunk waits for a usable node, or one has to be placed and
there is a node for it. -/
def DB.PlanFindsTarget (db : DB) (env : PlaceEnv) (chunkId : Uuid) : Prop :=
  (∃ fr ∈ db.fragmentsOf chunkId, ∃ n ∈ db.nodes, db.AwaitedOn fr n) ∨
    (∃ fr ∈ db.fragmentsOf chunkId, db.Unplaced fr) ∧ db.FindsNode env chunkId
deriving Decidable

theorem place_ne_nil {env : PlaceEnv} {needs : List PlaceNeed}
    (ofChunk : ∀ need ∈ needs, need.chunkId = chunkId) (some_need : needs ≠ [])
    (finds : db.FindsNode env chunkId) (placed : db.place env needs = .ok assigns) :
    assigns ≠ [] := by
  obtain ⟨drawn, m, inLive, admitted⟩ := finds
  replace placed := (DB.place_loop placed).2
  rw [DB.listOccupants_of_chunk ofChunk some_need] at placed
  cases needs with
  | nil => exact absurd rfl some_need
  | cons need needs =>
    obtain rfl := ofChunk need mem_cons_self
    have seed : usedInChunk (db.listOccupants [need.chunkId]) [] need.chunkId =
        seedUse (db.listOccupants [need.chunkId]) need.chunkId := rfl
    have candidate : m ∈ (db.liveNodes env).filter
        (eligible env.now (seedUse (db.listOccupants [need.chunkId]) need.chunkId)) :=
      mem_filter.mpr ⟨inLive, admitted⟩
    obtain ⟨i, draw⟩ := Option.isSome_iff_exists.mp drawn
    obtain ⟨last, isLast⟩ := Option.isSome_iff_exists.mp
      (getLast?_isSome.mpr (ne_nil_of_mem candidate))
    simp only [placeLoop, seed, pick, draw, isLast, Option.map_eq_map, Option.map_some] at placed
    split at placed
    · cases placed
    split at placed <;> cases placed
    exact cons_ne_nil _ _

theorem Planned.targets_ne_nil (schema : db.Schema) {env : PlaceEnv}
    (planned : Planned db env chunkId assigns targets db') (finds : db.PlanFindsTarget env chunkId)
    : targets ≠ [] := by
  have exhibited : ∃ fr n, (fr, n) ∈ repairReused (db.repairFragments chunkId) ∨
      (fr, n) ∈ repairPlaced (db.repairFragments chunkId) assigns := by
    rcases finds with ⟨fr, inChunk, n, -, awaited⟩ | ⟨⟨fr, inChunk, unplaced⟩, node⟩
    · exact ⟨fr, n, .inl ((DB.mem_reused schema).mpr ⟨inChunk, awaited⟩)⟩
    · rcases planned.ran with ⟨nothing, -⟩ | ⟨needed, placed⟩
      · exact absurd unplaced ((repairMissing_eq_nil schema).mp nothing fr inChunk)
      · have some_need : repairNeeds chunkId (db.repairFragments chunkId) ≠ [] :=
          fun none => needed (repairNeeds_eq_nil.mp none)
        obtain ⟨a, inAssigns⟩ := exists_mem_of_ne_nil _
          (place_ne_nil repairNeeds_chunk some_need node placed)
        obtain ⟨fr', missing, sameId⟩ := mem_map.mp
          ((planned.assigned schema).2.2.subset (mem_map_of_mem inAssigns))
        have assigned : (assignedPairs assigns).reverse.find? (fun pair => pair.1 = fr'.id) ≠
            none := by
          intro none
          have absent := find?_eq_none.mp none (a.fragmentId, a.node)
            (mem_reverse.mpr (mem_map.mpr ⟨a, inAssigns, rfl⟩))
          simp [sameId] at absent
        obtain ⟨pair, found⟩ := Option.ne_none_iff_exists'.mp assigned
        refine ⟨fr', pair.2, .inr (mem_filterMap.mpr ⟨fr', missing, ?_⟩)⟩
        simp [lastNode, found]
  obtain ⟨fr, n, shard⟩ := exhibited
  obtain ⟨t, member, -⟩ := planned.target_of shard
  exact ne_nil_of_mem member

/-! ### One delivery -/

/-- What has to hold of a delivery: another job for the chunk waits, or the chunk is
at the target, or its plan has a target and no count between the present one and
the target was published within the duplicate window. -/
def JobCovered (s : JobLoop) (e : JobEvent) (_ : JobLoop) : Prop :=
  match e with
  | .deliver job run =>
    (∃ other ∈ s.stream.jobs.erase job, other.chunkId = job.chunkId) ∨
    repairThreshold ≤ s.system.db.chunkHealth job.chunkId ∨
    s.system.db.PlanFindsTarget run.place job.chunkId ∧
      ∀ healthy ∈ List.range repairThreshold,
        s.system.db.chunkHealth job.chunkId < healthy →
        s.stream.duplicate run.publishAt { chunkId := job.chunkId, healthy := healthy } = false
  | _ => True

section Delivery

variable {rs : ReedSolomon} {job : RepairJob}

theorem runPlan_schema (schema : db.Schema) :
    (db.runPlan sigOk rs sha256 run stream chunkId plan).db.Schema := by
  simp only [DB.runPlan]
  split
  · exact schema
  split
  · exact schema
  split
  · exact schema
  split
  · rename_i looped
    exact putTargets_schema schema looped
  · rename_i looped
    have put := putTargets_schema schema looped
    split
    · exact put
    · exact commitJob_schema put

theorem onJob_schema (schema : db.Schema) :
    (db.onJob sigOk rs sha256 run stream job).db.Schema := by
  simp only [DB.onJob]
  split
  · exact schema
  split
  · exact schema
  split
  · rename_i returned
    exact planRepair_schema schema returned
  · rename_i returned
    have planned := planRepair_schema schema returned
    split
    · exact planned
    · exact runPlan_schema planned

/-- The stream after a delivery is the one before it, or that with one more
publish for the chunk. -/
def Republished (run : JobRun) (stream : JobStream) (chunkId : Uuid) (after : JobStream) : Prop :=
  after = stream ∨ ∃ healthy,
    after = stream.publishRepair run.publishAt { chunkId := chunkId, healthy := healthy }

theorem commitJob_stream :
    Republished run stream chunkId (db.commitJob sigOk run stream chunkId receipts).stream := by
  simp only [DB.commitJob]
  repeat' split
  all_goals first | exact .inl rfl | exact .inr ⟨_, rfl⟩

theorem runPlan_stream :
    Republished run stream chunkId
      (db.runPlan sigOk rs sha256 run stream chunkId plan).stream := by
  simp only [DB.runPlan]
  repeat' split
  all_goals first | exact .inl rfl | exact commitJob_stream

theorem onJob_stream :
    Republished run stream job.chunkId (db.onJob sigOk rs sha256 run stream job).stream := by
  simp only [DB.onJob]
  repeat' split
  all_goals first | exact .inl rfl | exact runPlan_stream

/-- A delivery that ends with nil finds or leaves its chunk at the target, or its
plan had no target, or it raised the health of the chunk to a count it publishes. -/
theorem onJob_ok (schema : db.Schema)
    (returned : (db.onJob sigOk rs sha256 run stream job).result = .ok ()) :
    let after := db.onJob sigOk rs sha256 run stream job
    repairThreshold ≤ after.db.chunkHealth job.chunkId ∨
      db.chunkHealth job.chunkId < repairThreshold ∧
        ¬ db.PlanFindsTarget run.place job.chunkId ∨
      db.chunkHealth job.chunkId < after.db.chunkHealth job.chunkId ∧
        after.db.chunkHealth job.chunkId < repairThreshold ∧
        after.stream = stream.publishRepair run.publishAt
          { chunkId := job.chunkId, healthy := after.db.chunkHealth job.chunkId } := by
  simp only [DB.onJob] at returned ⊢
  split at returned
  · cases returned
  rename_i read
  rw [if_neg read]
  split at returned
  · rename_i healthy
    rw [if_pos healthy]
    exact .inl healthy
  rename_i below
  rw [if_neg below]
  split at returned
  · cases returned
  rename_i plan db' planning
  obtain ⟨-, assigns, planned⟩ := planRepair_planned planning
  split at returned
  · cases returned
  rename_i heard
  simp only [if_neg heard]
  simp only [DB.runPlan] at returned ⊢
  split at returned
  · rename_i none
    exact .inr (.inl ⟨Nat.not_le.mp below,
      fun finds => planned.targets_ne_nil schema finds none⟩)
  rename_i some_target
  rw [if_neg some_target]
  split at returned
  · cases returned
  rename_i shards fetched
  split at returned
  · cases returned
  rename_i work rebuilt
  split at returned
  · cases returned
  rename_i receipts db₂ put
  split at returned
  · cases returned
  rename_i some_receipt
  simp only [if_neg some_receipt]
  -- the health only rises: rows are added, none that is stored is lost, one is stored
  have kept : db.chunkHealth job.chunkId ≤ db₂.chunkHealth job.chunkId := by
    have inserted := insertPlacements_inserted planned.inserted
    rw [putTargets_health (planned.unstored schema) put]
    exact chunkHealth_le_of_inserted inserted job.chunkId
  rcases commitJob_ok some_receipt returned with reached | ⟨raised, short, published⟩
  · exact .inl reached
  · exact .inr (.inr ⟨kept.trans_lt raised, short, published⟩)

end Delivery

/-- A published job is in the stream unless it was dropped as a duplicate. -/
theorem JobStream.mem_publishRepair {now : Time} {job : RepairJob}
    (unhealthy : job.healthy < repairThreshold) (fresh : stream.duplicate now job = false) :
    (stream.publishRepair now job).jobs = stream.jobs ++ [job] := by
  have subject : prioritySubject job.healthy ≠ none :=
    fun none => absurd (prioritySubject_eq_none.mp none) (Nat.not_le.mpr unhealthy)
  simp only [publishRepair]
  split
  · rename_i none
    exact absurd none subject
  · rw [fresh]
    rfl

theorem JobStream.jobs_publishRepair (stream : JobStream) (now : Time) (job : RepairJob) :
    (stream.publishRepair now job).jobs = stream.jobs ∨
      (stream.publishRepair now job).jobs = stream.jobs ++ [job] := by
  simp only [publishRepair]
  split
  · exact .inl rfl
  · split
    · exact .inl rfl
    · exact .inr rfl

/-! ### The loop -/

section Loop

variable {sigOk : SigCheck} {rs : ReedSolomon} {sha256 : Bytes → Bytes}

theorem jobStep_schema (s : JobLoop) (e : JobEvent) (t : JobLoop) (schema : s.system.db.Schema)
    (moved : jobStep sigOk rs sha256 s e = some t) : t.system.db.Schema := by
  cases e with
  | deliver job run =>
    simp only [jobStep] at moved
    split at moved <;> cases moved
    exact onJob_schema schema
  | others e =>
    simp only [jobStep] at moved
    split at moved <;> cases moved
    rename_i system stepped
    exact step_schema _ _ _ schema stepped
  | publish job now =>
    cases moved
    exact schema
  | dropped job =>
    simp only [jobStep] at moved
    split at moved <;> cases moved
    exact schema

/-- One delivery that meets the condition forgets nothing. -/
theorem jobStep_covered (s : JobLoop) (e : JobEvent) (t : JobLoop) (schema : s.system.db.Schema)
    (moved : jobStep sigOk rs sha256 s e = some t) (covered : JobCovered s e t) :
    NotForgotten sigOk rs sha256 s e t := by
  cases e with
  | others e => trivial
  | publish job now => trivial
  | dropped job => trivial
  | deliver job run =>
    intro returned
    simp only [jobStep, returned] at moved
    split at moved
    swap
    · cases moved
    rename_i waiting
    cases moved
    -- the acknowledged message is one of the old jobs, so a published one stays
    have acked : ∀ more, (s.stream.jobs ++ more).erase job = s.stream.jobs.erase job ++ more :=
      fun more => erase_append_left _ waiting
    rcases covered with ⟨other, inStream, sameChunk⟩ | healthy | ⟨finds, fresh⟩
    · refine .inr ⟨other, ?_, sameChunk⟩
      simp only [JobStream.remove]
      have told : Republished run s.stream job.chunkId
          (s.system.db.onJob sigOk rs sha256 run s.stream job).stream := onJob_stream
      rcases told with same | ⟨h, same⟩
      · rw [same]
        exact inStream
      · rw [same]
        rcases s.stream.jobs_publishRepair run.publishAt ⟨job.chunkId, h⟩ with old | new
        · rw [old]
          exact inStream
        · rw [new, acked]
          exact mem_append_left _ inStream
    · rcases onJob_ok schema returned with reached | ⟨below, -⟩ | ⟨raised, short, -⟩
      · exact .inl reached
      · omega
      · omega
    · rcases onJob_ok schema returned with reached | ⟨-, nothing⟩ | ⟨raised, short, published⟩
      · exact .inl reached
      · exact absurd finds nothing
      · have appended := JobStream.mem_publishRepair short (fresh _ (mem_range.mpr short) raised)
        have left := mem_append_right (s.stream.jobs.erase job) (mem_singleton_self
          (RepairJob.mk job.chunkId ((s.system.db.onJob sigOk rs sha256 run s.stream job).db
            |>.chunkHealth job.chunkId)))
        rw [← acked, ← appended, ← published] at left
        exact .inr ⟨_, left, rfl⟩

/-- In every run whose deliveries meet the condition, from any reachable state, a
job that is acknowledged leaves its chunk at the target or with another job. -/
theorem repairJobs_not_forgotten {s : JobLoop} (reachable : Reachable sigOk s.system.db)
    (events : List JobEvent)
    (covered : EveryStep (jobStep sigOk rs sha256) JobCovered s events) :
    EveryStep (jobStep sigOk rs sha256) (NotForgotten sigOk rs sha256) s events :=
  EveryStep.of_inv (I := fun s => s.system.db.Schema)
    (fun s e t schema moved _ => jobStep_schema s e t schema moved)
    (fun s e t schema moved good => jobStep_covered s e t schema moved good)
    (reachable_schema reachable) covered

end Loop

/-! ### Two runs -/

instance (s : JobLoop) (e : JobEvent) (t : JobLoop) : Decidable (JobCovered s e t) :=
  match e with
  | .deliver _ _ => inferInstanceAs
      (Decidable (_ ∨ _ ∨ _ ∧ ∀ healthy ∈ List.range repairThreshold, _ → _))
  | .others _ | .publish _ _ | .dropped _ => inferInstanceAs (Decidable True)

namespace Sample

/-- Stands in for the erasure code in worked runs: every shard is one zero byte. -/
def toyCode : ReedSolomon where
  split data := .ok [data]
  join _ _ := .ok []
  encode shards := .ok shards
  reconstruct shards := .ok (shards.map fun _ => some [0])

def toyHash : Bytes → Bytes := fun _ => digest

/-- A delivery in which every call succeeds, with the given nodes up. -/
def jobRun (up : Nat → Bool) : JobRun where
  healthRead := true
  place := env up
  sign := sign
  planHeard := true
  get _ := some [0]
  arrival _ := 0
  put t := some (wire t.shardIndex.toNat (t.nodeId.toNat - 100))
  lostWritten _ := true
  readAt _ := 0
  commitHeard := true
  recheckRead := true
  publishAt := 1
  publishes := .done

def job : RepairJob where
  chunkId := chunk.id
  healthy := 14

/-- After the upload, with an empty stream. -/
def idle : JobLoop where
  system := committed
  stream := .empty

/-- The startup scan publishes the job of the sample chunk, and it is delivered. -/
def jobEvents (up : Nat → Bool) : List JobEvent := [.publish job 0, .deliver job (jobRun up)]

/-- With the fourteen holders up and no other node, the job is acknowledged. -/
theorem stuckJob_acknowledged :
    let published := idle.stream.publishRepair 0 job
    let run := jobRun fun i => i < 14
    ((idle.system.db.onJob toySig toyCode toyHash run published job).result,
      (jobStep toySig toyCode toyHash { idle with stream := published } (.deliver job run)).map
        fun t => (t.system.db.chunkHealth chunk.id, t.stream.jobs)) =
      (.ok (), some (14, [])) := by
  decide +kernel

end Sample

/-- All nodes are up: the two missing shards are rebuilt and stored. -/
theorem jobEvents_not_forgotten :
    EveryStep (jobStep toySig toyCode toyHash)
      (NotForgotten toySig toyCode toyHash) idle
      (jobEvents fun _ => true) := by
  have reachable : Reachable toySig idle.system.db :=
    @reachable_of_run [] committed rfl
  exact repairJobs_not_forgotten reachable (jobEvents fun _ => true) (by decide +kernel)

/-- No node is left to place on: the plan is empty, the job is acknowledged, and the
chunk stays at 14 of 16 without a job. -/
theorem stuckJob_forgotten :
    Reachable toySig idle.system.db ∧
      ¬ EveryStep (jobStep toySig toyCode toyHash)
        (NotForgotten toySig toyCode toyHash) idle
        (jobEvents fun i => i < 14) := by
  refine ⟨@reachable_of_run [] committed rfl, fun all => ?_⟩
  obtain ⟨returned, after⟩ := Prod.mk.inj stuckJob_acknowledged
  obtain ⟨t, moved, observed⟩ := Option.map_eq_some_iff.mp after
  obtain ⟨health, jobs⟩ := Prod.mk.inj observed
  rcases ((all _ rfl).2 t moved).1 returned with reached | ⟨other, inStream, -⟩
  · have below : t.system.db.chunkHealth chunk.id < repairThreshold := by
      rw [health]
      decide
    exact absurd reached (Nat.not_le.mpr below)
  · rw [jobs] at inStream
    cases inStream

end StoragePlatform
