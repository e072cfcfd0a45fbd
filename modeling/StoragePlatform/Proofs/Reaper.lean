/-
Module: StoragePlatform.Proofs.Reaper
Purpose: Which expiring placements the reaper gets to when some nodes never answer.
Trusted boundary: none
Main exports: ReapEnv.confirms, DB.reaped, DB.reapOnce_queue, Drained, drained_iff
-/
import StoragePlatform.Lib.Window
import StoragePlatform.Lifecycle.Reaper
import StoragePlatform.Signing
import StoragePlatform.Store.Constraints

namespace StoragePlatform

open Lib List

/-!
A pass asks for the first 64 expiring placements by id.  Those whose node does not answer, and
those for which no ticket can be signed, are the first again in the next pass.  So the reaper is
a queue behind a window of 64, and a placement is reached exactly if fewer than 64 before it are
stuck.
-/

/-! ### The queue -/

/-- The ticket for a placement is signed and its node confirms the delete. -/
def ReapEnv.confirms (env : ReapEnv) (p : ExpiringPlacement) : Bool :=
  match signDelete env.sign p with
  | .error _ => false
  | .ok tk => env.deleteFragment tk

/-- The tables when some of the expiring placements have been deleted. -/
def DB.reaped (db : DB) (gone : Nat → Bool) : DB :=
  { db with
    placements := updateWhere (fun p => p.status = .expiring ∧ gone p.id)
      (Placement.setStatus .deleted) db.placements }

section Queue

variable {db : DB} {env : ReapEnv} {gone : Nat → Bool} {e : ExpiringPlacement}

/-- Deleting some and then others is deleting all of them. -/
theorem DB.reaped_reaped (db : DB) (gone gone' : Nat → Bool) :
    (db.reaped gone).reaped gone' = db.reaped fun id => gone id || gone' id := by
  simp only [reaped, updateWhere, map_map]
  congr 1
  refine map_congr_left fun p _ => ?_
  by_cases expiring : p.status = .expiring
  · by_cases before : gone p.id = true
    · simp [expiring, before, Placement.setStatus]
    · simp [expiring, before]
  · simp [expiring]

theorem DB.reaped_none (db : DB) : db.reaped (fun _ => false) = db := by
  have same : updateWhere (fun p => decide (p.status = .expiring ∧ false = true))
      (Placement.setStatus .deleted) db.placements = db.placements :=
    updateWhere_of_none fun p _ => by simp
  rw [reaped, same]

theorem DB.markPlacementDeleted_eq (db : DB) (id : Nat) :
    db.markPlacementDeleted id = db.reaped fun i => i = id := by
  have same : (fun p : Placement => decide (p.id = id ∧ p.status = .expiring)) =
      fun p => decide (p.status = .expiring ∧ decide (p.id = id) = true) := by
    funext p
    simp [and_comm]
  rw [markPlacementDeleted, reaped, same]

theorem DB.Schema.reaped (schema : db.Schema) (gone : Nat → Bool) : (db.reaped gone).Schema :=
  schema.setStatus _ _

theorem DB.mem_expiringQueue : e ∈ db.expiringQueue ↔
    ∃ t ∈ db.placementTargets, t.placement.status = .expiring ∧ t.expiring = e := by
  simp only [expiringQueue, mem_map, mem_orderBy, mem_filter, decide_eq_true_eq, and_assoc]

variable (schema : db.Schema)
include schema

theorem DB.targets_unique :
    UniqueOn (fun t : PlacementTarget => t.placement.id) db.placementTargets := by
  have ids := schema.placement_pk
  rw [UniqueOn, ← placementTargets_placement schema, map_map] at ids
  exact ids

instance reapOrder : Std.Asymm fun a b : ExpiringPlacement => a.id < b.id :=
  ⟨fun _ _ => Nat.lt_asymm⟩

/-- The queue is in the order of the ids. -/
theorem DB.expiringQueue_sorted :
    db.expiringQueue.Pairwise fun a b => a.id < b.id := by
  rw [expiringQueue, pairwise_map]
  have weakly : (orderBy (fun a b : PlacementTarget => decide (a.placement.id ≤ b.placement.id))
      (db.placementTargets.filter fun t => t.placement.status = .expiring)).Pairwise
        fun a b => decide (a.placement.id ≤ b.placement.id) = true := by
    refine orderBy_pairwise (fun a b => ?_) (fun a b c ab bc => ?_) _
    · simpa using Nat.le_total _ _
    · rw [decide_eq_true_eq] at ab bc ⊢
      exact ab.trans bc
  have distinct := pairwise_map.mp
    (((targets_unique schema).filter fun t => t.placement.status = .expiring).perm
      (orderBy_perm (fun a b => decide (a.placement.id ≤ b.placement.id)) _))
  exact (weakly.and distinct).imp fun both => lt_of_le_of_ne (of_decide_eq_true both.1) both.2

theorem DB.expiringQueue_eq_of_id {e' : ExpiringPlacement}
    (member : e ∈ db.expiringQueue) (member' : e' ∈ db.expiringQueue) (same : e.id = e'.id) :
    e = e' := by
  obtain ⟨t, inTargets, -, rfl⟩ := mem_expiringQueue.mp member
  obtain ⟨t', inTargets', -, rfl⟩ := mem_expiringQueue.mp member'
  rw [(targets_unique schema).eq_of_key inTargets inTargets' same]

/-- What has been deleted is not in the queue any more. -/
theorem DB.expiringQueue_reaped (gone : Nat → Bool) :
    (db.reaped gone).expiringQueue = db.expiringQueue.filter fun e => !gone e.id := by
  refine eq_of_sorted_of_mem_iff (expiringQueue_sorted (schema.reaped gone))
    ((expiringQueue_sorted schema).filter _) fun e => ?_
  rw [mem_expiringQueue, mem_filter, mem_expiringQueue, Bool.not_eq_true']
  constructor
  · rintro ⟨t, inTargets, expiring, rfl⟩
    rw [mem_placementTargets] at inTargets
    obtain ⟨inPlacements, rest⟩ := inTargets
    rcases mem_updateWhere.mp inPlacements with ⟨old, -, -, marked⟩ | ⟨kept, unselected⟩
    · rw [← marked] at expiring
      cases expiring
    · refine ⟨⟨t, mem_placementTargets.mpr ⟨kept, rest⟩, expiring, rfl⟩, ?_⟩
      have left : gone t.placement.id = false := by simpa [expiring] using unselected
      exact left
  · rintro ⟨⟨t, inTargets, expiring, rfl⟩, left⟩
    rw [mem_placementTargets] at inTargets
    have left : gone t.placement.id = false := left
    refine ⟨t, mem_placementTargets.mpr ⟨mem_updateWhere.mpr (.inr ⟨inTargets.1, ?_⟩),
      inTargets.2⟩, expiring, rfl⟩
    simp [left]

/-! ### One pass -/

theorem DB.expiringPlacementById_of_mem (member : e ∈ db.expiringQueue) :
    db.expiringPlacementById e.id = .ok e := by
  obtain ⟨t, inTargets, expiring, rfl⟩ := mem_expiringQueue.mp member
  rw [expiringPlacementById]
  split
  · rename_i none
    have refused := find?_eq_none.mp none t inTargets
    exact absurd (decide_eq_true ⟨rfl, expiring⟩) refused
  · rename_i t' found
    have chosen := find?_some found
    rw [decide_eq_true_eq] at chosen
    rw [(targets_unique schema).eq_of_key (mem_of_find?_eq_some found) inTargets chosen.1]

/-- A row of the queue is deleted if its node confirms. -/
theorem DB.reap_eq (member : e ∈ db.expiringQueue) :
    db.reap env e = db.reaped fun id => decide (id = e.id) && env.confirms e := by
  have ticket : db.issueDeleteTicket env.sign e.id = signDelete env.sign e := by
    rw [issueDeleteTicket, expiringPlacementById_of_mem schema member]
    cases env.sign with
    | none => rfl
    | some sign => rfl
  rw [reap, ticket]
  cases signed : signDelete env.sign e with
  | error err =>
    have refused : env.confirms e = false := by rw [ReapEnv.confirms, signed]
    simp only [refused, Bool.and_false, reaped_none]
  | ok tk =>
    have asked : env.confirms e = env.deleteFragment tk := by rw [ReapEnv.confirms, signed]
    dsimp only
    rw [asked]
    cases env.deleteFragment tk with
    | false => simp only [Bool.false_eq_true, if_false, Bool.and_false, reaped_none]
    | true => simp only [if_true, Bool.and_true, markPlacementDeleted_eq]

/-- The loop deletes the rows of the window whose nodes confirm. -/
theorem DB.foldl_reap {window : List ExpiringPlacement}
    (distinct : window.Pairwise fun a b => a.id < b.id)
    (waiting : ∀ e ∈ window, e ∈ db.expiringQueue) :
    window.foldl (fun db e => db.reap env e) db =
      db.reaped fun id => window.any fun e => decide (id = e.id) && env.confirms e := by
  induction window generalizing db with
  | nil => exact db.reaped_none.symm
  | cons first window ih =>
    obtain ⟨later, distinct⟩ := pairwise_cons.mp distinct
    obtain ⟨isFirst, waiting⟩ := forall_mem_cons.mp waiting
    rw [foldl_cons, reap_eq schema isFirst, ih (schema.reaped _) distinct, reaped_reaped]
    · rfl
    · -- the first row is deleted and the others wait as before
      intro e member
      rw [expiringQueue_reaped schema, mem_filter]
      refine ⟨waiting e member, ?_⟩
      have other : e.id ≠ first.id := (later e member).ne'
      simp [other]

/-- A pass over the tables is a pass over the queue. -/
theorem DB.reapOnce_queue (env : ReapEnv) :
    (∃ gone, db.reapOnce env = db.reaped gone) ∧
      (db.reapOnce env).expiringQueue = windowPass 64 env.confirms db.expiringQueue := by
  have sorted := expiringQueue_sorted schema
  have pass : db.reapOnce env = db.reaped fun id => (db.expiringQueue.take 64).any fun e =>
      decide (id = e.id) && env.confirms e :=
    foldl_reap schema (sorted.sublist (take_sublist _ _)) fun e member =>
      mem_of_mem_take member
  refine ⟨⟨_, pass⟩, ?_⟩
  have parts : ∀ keep : ExpiringPlacement → Bool, db.expiringQueue.filter keep =
      (db.expiringQueue.take 64).filter keep ++ (db.expiringQueue.drop 64).filter keep :=
    fun keep => by rw [← filter_append, take_append_drop]
  rw [pass, expiringQueue_reaped schema, windowPass, parts]
  congr 1
  · refine filter_congr fun e inWindow => congrArg (!·) (Bool.eq_iff_iff.mpr ?_)
    rw [any_eq_true]
    constructor
    · rintro ⟨e', inWindow', both⟩
      rw [Bool.and_eq_true, decide_eq_true_eq] at both
      rw [expiringQueue_eq_of_id schema (mem_of_mem_take inWindow)
        (mem_of_mem_take inWindow') both.1]
      exact both.2
    · exact fun confirmed => ⟨e, inWindow, by simp [confirmed]⟩
  · refine filter_eq_self.mpr fun e behind => ?_
    rw [Bool.not_eq_true', any_eq_false]
    intro e' inWindow same
    rw [Bool.and_eq_true, decide_eq_true_eq] at same
    -- the rows of the window come before the others
    rw [← take_append_drop 64 db.expiringQueue, pairwise_append] at sorted
    exact absurd same.1 (sorted.2.2 e' inWindow e behind).ne'

/-! ### Passes -/

/-- The service signs tickets with its `Signer`, some nodes confirm the delete of each expiring
placement they hold and the others confirm none. -/
structure Answering (db : DB) (env : Nat → ReapEnv) (answers : Uuid → Bool) : Prop where
  signs : ∀ i, ∃ signer random, signer.random = some random ∧ random.length = 16 ∧
    (env i).sign = some (signTicketFromSigner signer)
  answered : ∀ i, ∀ e ∈ db.expiringQueue, ∀ tk, signDelete (env i).sign e = .ok tk →
    (env i).deleteFragment tk = answers e.nodeId

/-- A ticket for the row can be signed and its node answers. -/
def ExpiringPlacement.served (answers : Uuid → Bool) (e : ExpiringPlacement) : Bool :=
  signable e.fragmentId e.nodeId e.sha256 && answers e.nodeId

omit schema in
theorem Answering.confirms {env : Nat → ReapEnv} {answers : Uuid → Bool}
    (answering : Answering db env answers) (i : Nat) (member : e ∈ db.expiringQueue) :
    (env i).confirms e = e.served answers := by
  obtain ⟨signer, random, drawn, sized, service⟩ := answering.signs i
  have asked := answering.answered i e member
  have issued := signTicketFromSigner_ok drawn sized .delete e.fragmentId e.nodeId e.sha256
    (toUint64 e.sizeBytes)
  simp only [ReapEnv.confirms, signDelete, service, ExpiringPlacement.served] at asked ⊢
  cases signed : signTicketFromSigner signer .delete e.fragmentId e.nodeId e.sha256
      (toUint64 e.sizeBytes) with
  | error err =>
    have unsignable : signable e.fragmentId e.nodeId e.sha256 = false := by
      refine Bool.eq_false_iff.mpr fun able => ?_
      obtain ⟨made, done⟩ := issued.mpr able
      rw [signed] at done
      cases done
    rw [unsignable, Bool.false_and]
  | ok made =>
    rw [signed] at asked
    rw [issued.mp ⟨made, signed⟩, Bool.true_and]
    exact asked _ rfl

theorem DB.afterReaps_queue {env : Nat → ReapEnv} {answers : Uuid → Bool}
    (answering : Answering db env answers) (k : Nat) :
    (∃ gone, db.afterReaps env k = db.reaped gone) ∧
      (db.afterReaps env k).expiringQueue =
        windowPasses 64 (fun e => e.served answers) db.expiringQueue k := by
  induction k with
  | zero => exact ⟨⟨_, db.reaped_none.symm⟩, rfl⟩
  | succ k ih =>
    obtain ⟨⟨gone, rows⟩, queue⟩ := ih
    have schema' : (db.afterReaps env k).Schema := rows ▸ schema.reaped gone
    obtain ⟨⟨gone', rows'⟩, pass⟩ := reapOnce_queue schema' (env k)
    refine ⟨⟨fun id => gone id || gone' id, ?_⟩, ?_⟩
    · rw [afterReaps, rows', rows, reaped_reaped]
    · rw [afterReaps, pass, queue, windowPasses]
      exact windowPass_congr fun e waiting =>
        answering.confirms k ((windowPasses_sublist _ _ _ _).subset waiting)

/-- Whether an expiring placement has been deleted shows in the queue. -/
theorem DB.deleted_iff (gone : Nat → Bool) (member : e ∈ db.expiringQueue) :
    (∃ q ∈ (db.reaped gone).placements, q.id = e.id ∧ q.status = .deleted) ↔
      e ∉ (db.reaped gone).expiringQueue := by
  rw [expiringQueue_reaped schema, mem_filter, not_and, Bool.not_eq_true', Bool.not_eq_false]
  obtain ⟨t, inTargets, expiring, rfl⟩ := mem_expiringQueue.mp member
  have inPlacements := (mem_placementTargets.mp inTargets).1
  constructor
  · rintro ⟨q, inRows, same, deleted⟩ -
    rcases mem_updateWhere.mp inRows with ⟨old, -, selected, rfl⟩ | ⟨kept, -⟩
    · have chosen := of_decide_eq_true selected
      rw [← same]
      exact chosen.2
    · have isRow : q = t.placement := schema.placement_pk.eq_of_key kept inPlacements same
      rw [isRow, expiring] at deleted
      cases deleted
  · intro marked
    refine ⟨t.placement.setStatus .deleted, mem_updateWhere.mpr (.inl ⟨t.placement, inPlacements,
      decide_eq_true ⟨expiring, marked member⟩, rfl⟩), rfl, rfl⟩

/-- A ticket to delete the placement can be signed. -/
def DB.signable (db : DB) (p : Placement) : Bool :=
  db.fragments.any fun fr =>
    fr.id = p.fragmentId ∧ StoragePlatform.signable p.fragmentId p.nodeId fr.sha256

/-- The expiring placements with a smaller id that are never deleted. -/
def DB.stuckBefore (db : DB) (answers : Uuid → Bool) (id : Nat) : List Placement :=
  db.placements.filter fun q =>
    q.status = .expiring ∧ (db.signable q && answers q.nodeId) = false ∧ q.id < id

theorem DB.served_eq (answers : Uuid → Bool) {t : PlacementTarget}
    (member : t ∈ db.placementTargets) :
    t.expiring.served answers = (db.signable t.placement && answers t.placement.nodeId) := by
  obtain ⟨-, inFragments, -, joined, -⟩ := mem_placementTargets.mp member
  rw [ExpiringPlacement.served]
  congr 1
  rw [Bool.eq_iff_iff, signable, any_eq_true]
  constructor
  · exact fun able => ⟨t.fragment, inFragments, decide_eq_true ⟨joined, able⟩⟩
  · rintro ⟨fr, inTable, chosen⟩
    obtain ⟨same, able⟩ := of_decide_eq_true chosen
    rwa [schema.fragment_pk.eq_of_key inTable inFragments (same.trans joined.symm)] at able

/-- The placements that are stuck before one in the queue, counted in the table. -/
theorem DB.stuckBefore_eq (answers : Uuid → Bool)
    {early late : List ExpiringPlacement} (queue : db.expiringQueue = early ++ e :: late) :
    (early.filter fun e => !e.served answers).length = (db.stuckBefore answers e.id).length := by
  have sorted := expiringQueue_sorted schema
  rw [queue, pairwise_append] at sorted
  obtain ⟨-, rest, across⟩ := sorted
  obtain ⟨later, -⟩ := pairwise_cons.mp rest
  -- what is before the row in the queue is what has a smaller id
  have front : (early.filter fun e => !e.served answers) =
      db.expiringQueue.filter fun x => !x.served answers && decide (x.id < e.id) := by
    rw [queue, filter_append]
    have none : (e :: late).filter (fun x => !x.served answers && decide (x.id < e.id)) = [] := by
      refine filter_eq_nil_iff.mpr fun x member => ?_
      rcases mem_cons.mp member with rfl | behind
      · simp
      · simp [(later x behind).le]
    rw [none, append_nil]
    refine filter_congr fun x member => ?_
    simp [across x member e mem_cons_self]
  rw [front, ← countP_eq_length_filter, stuckBefore, ← countP_eq_length_filter,
    expiringQueue, countP_map, (orderBy_perm _ _).countP_eq, countP_filter,
    ← placementTargets_placement schema, countP_map]
  refine countP_congr fun t member => ?_
  simp only [Function.comp_apply, Bool.and_eq_true, Bool.not_eq_true', decide_eq_true_eq,
    served_eq schema answers member]
  exact and_comm

end Queue

/-! ### Starvation -/

/-- The expiring placements of a table. -/
def DB.expiringCount (db : DB) : Nat :=
  (db.placements.filter fun p => p.status = .expiring).length

/-- Within as many passes as there are expiring placements, those on answering nodes have
been deleted. -/
def Drained (env : Nat → ReapEnv) (answers : Uuid → Bool) (db : DB) : Prop :=
  ∃ k ≤ db.expiringCount, ∀ p ∈ db.placements, p.status = .expiring → answers p.nodeId = true →
    ∃ q ∈ (db.afterReaps env k).placements, q.id = p.id ∧ q.status = .deleted

theorem DB.length_expiringQueue {db : DB} (schema : db.Schema) :
    db.expiringQueue.length = db.expiringCount := by
  rw [expiringQueue, length_map, (orderBy_perm _ _).length_eq, expiringCount,
    ← countP_eq_length_filter, ← countP_eq_length_filter,
    ← placementTargets_placement schema, countP_map]
  rfl

/-- Each expiring placement has its place in the queue. -/
theorem DB.queue_of_expiring {db : DB} (schema : db.Schema) (answers : Uuid → Bool)
    {p : Placement} (member : p ∈ db.placements) (expiring : p.status = .expiring) :
    ∃ (e : ExpiringPlacement) (early late : List ExpiringPlacement), e.id = p.id ∧
      e.served answers = (db.signable p && answers p.nodeId) ∧ e ∈ db.expiringQueue ∧
      db.expiringQueue = early ++ e :: late := by
  rw [← placementTargets_placement schema] at member
  obtain ⟨t, inTargets, rfl⟩ := mem_map.mp member
  have waiting := mem_expiringQueue.mpr ⟨t, inTargets, expiring, rfl⟩
  obtain ⟨early, late, queue⟩ := append_of_mem waiting
  exact ⟨t.expiring, early, late, rfl, served_eq schema answers inTargets, waiting, queue⟩

section Starvation

variable {db : DB} {env : Nat → ReapEnv} {answers : Uuid → Bool} (schema : db.Schema)
variable (answering : Answering db env answers)
include schema answering

theorem DB.deleted_iff_served {e : ExpiringPlacement} (member : e ∈ db.expiringQueue) (k : Nat) :
    (∃ q ∈ (db.afterReaps env k).placements, q.id = e.id ∧ q.status = .deleted) ↔
      e ∉ windowPasses 64 (fun e => e.served answers) db.expiringQueue k := by
  obtain ⟨⟨gone, rows⟩, queue⟩ := afterReaps_queue schema answering k
  rw [← queue, rows]
  exact deleted_iff schema gone member

/-- The placements on answering nodes can be deleted, and fewer than 64 stuck ones are before
any of them. -/
def DB.FewStuck (db : DB) (answers : Uuid → Bool) : Prop :=
  ∀ p ∈ db.placements, p.status = .expiring → answers p.nodeId = true →
    db.signable p = true ∧ (db.stuckBefore answers p.id).length < 64
deriving Decidable

/-- A placement behind 64 stuck ones is never tried, and one without a ticket never deleted. -/
theorem few_of_drained (drained : Drained env answers db) : db.FewStuck answers := by
  obtain ⟨k, -, drained⟩ := drained
  intro p member expiring answered
  obtain ⟨e, early, late, sameId, served, waiting, queue⟩ :=
    DB.queue_of_expiring schema answers member expiring
  have deleted := drained p member expiring answered
  rw [← sameId, DB.deleted_iff_served schema answering waiting k] at deleted
  constructor
  · rw [answered, Bool.and_true] at served
    rw [← served]
    by_contra blocked
    exact deleted (mem_windowPasses waiting (Bool.eq_false_of_not_eq_true blocked) k)
  · rw [queue] at deleted
    rw [← sameId, ← DB.stuckBefore_eq schema answers queue]
    by_contra many
    obtain ⟨early', stuck, -⟩ := @windowPasses_stuck _ 64 (fun e => e.served answers) early
      (e :: late) (not_lt.mp many) k
    rw [stuck] at deleted
    exact deleted (mem_append_right _ mem_cons_self)

/-- With fewer before it, a placement moves forward with every pass. -/
theorem drained_of_few (few : db.FewStuck answers) : Drained env answers db := by
  refine ⟨db.expiringCount, le_rfl, fun p member expiring answered => ?_⟩
  obtain ⟨e, early, late, sameId, served, waiting, queue⟩ :=
    DB.queue_of_expiring schema answers member expiring
  obtain ⟨signs, before⟩ := few p member expiring answered
  have distinct : db.expiringQueue.Nodup := by
    refine (DB.expiringQueue_sorted schema).imp fun {a b} less => ?_
    rintro rfl
    exact lt_irrefl _ less
  have length := DB.length_expiringQueue schema
  rw [queue] at distinct length
  rw [← sameId, DB.deleted_iff_served schema answering waiting, queue]
  refine windowPasses_served distinct (by rw [served, signs, answered, Bool.and_true]) ?_ ?_
  · rwa [DB.stuckBefore_eq schema answers queue, sameId]
  · rw [← length, length_append, length_cons]
    omega

end Starvation

namespace Sample

/-- The fragments of a deleted file, each on one node and expiring; those numbered below
`stuck` are on node 1 and the others on node 2. -/
def expiringFile (count stuck : Nat) : DB :=
  { DB.empty with
    buckets := [⟨2, 1⟩]
    files :=
      [{ id := 50, bucketId := 2, path := ['/', 'a'], isFolder := false, currentVersion := none,
         status := .deleted, deletedAt := some 0 }]
    versions :=
      [{ id := 60, fileId := 50, versionNo := 1, sizeBytes := 1, contentSha256 := [],
         encryptionMeta := [], chunkSize := 1, ecDataShards := 1, ecParityShards := 0,
         status := .expired }]
    chunks := [{ id := 70, versionId := 60, seq := 0, sizeBytes := 1, sha256 := [] }]
    fragments := (List.range count).map fun i =>
      { id := BitVec.ofNat 128 (500 + i), chunkId := 70, shardIndex := i, sizeBytes := 1,
        sha256 := List.replicate 32 0 }
    nodes := [{ (default : Node) with id := 1 }, { (default : Node) with id := 2 }]
    placements := (List.range count).map fun i =>
      { id := i, fragmentId := BitVec.ofNat 128 (500 + i),
        nodeId := if i < stuck then 1 else 2, status := .expiring }
    nextPlacementId := count }

/-- Only node 2 answers. -/
def oneAnswers : ReapEnv where
  sign := some (signTicketFromSigner
    { priv := { length := 64, sign := fun _ => [] }, now := 0,
      random := some (List.replicate 16 0) })
  answer tk := if tk.nodeId = 2 then some 204 else none

theorem oneAnswers_answering (db : DB) :
    Answering db (fun _ => oneAnswers) fun nodeId => nodeId = 2 where
  signs _ := ⟨_, _, rfl, by decide, rfl⟩
  answered _ e _ tk issued := by
    have node : tk.nodeId = e.nodeId := by
      simp only [signDelete, oneAnswers] at issued
      split at issued <;> cases issued
      rfl
    simp [oneAnswers, ReapEnv.deleteFragment, node]

theorem threeExpiring_schema : (expiringFile 3 1).Schema := by
  constructor <;> decide +kernel

theorem blockedQueue_schema : (expiringFile 65 64).Schema := by
  constructor <;> decide +kernel

end Sample

open Sample

end StoragePlatform
