/-
Module: StoragePlatform.Proofs.RepairPlan
Purpose: For which states every repair plan is honoured.
Trusted boundary: none
Main exports: Inserted, Planned, planRepair_planned, planRepair_honoured_iff
-/
import StoragePlatform.Proofs.RepairCommit
import StoragePlatform.Proofs.Scheduling

namespace StoragePlatform

open Lib List Sample

variable {db db' : DB} {f chunkId : Uuid} {n : Node} {pairs : List (Uuid × Uuid)} {p : Placement}
variable {rf : RepairFragment} {frags : List RepairFragment} {fr : Fragment}
variable {assigns : List PlaceAssign} {ch : Chunk} {t : ShardRef}

/-!
`PlanRepair` signs a PUT ticket for each assignment of the scheduler.  The rows
that `CommitRepair` later reads are those `InsertPlacements` left behind, and that
statement does nothing when the pair already has a row.  The two lists agree only
for some states; this module says for which.
-/

/-! ### The rows a plan leaves behind -/

/-- What `InsertPlacements` does to the table: nothing is changed, the new rows
are pending and for pairs that had none, and every pair has a row in the end. -/
structure Inserted (db : DB) (pairs : List (Uuid × Uuid)) (db' : DB) : Prop where
  frame : db' = { db with
    placements := db'.placements, nextPlacementId := db'.nextPlacementId }
  kept : db.placements <+: db'.placements
  added : ∀ p ∈ db'.placements, p ∈ db.placements ∨
    p.status = .pending ∧ (p.fragmentId, p.nodeId) ∈ pairs ∧
      ∀ q ∈ db.placements, (q.fragmentId, q.nodeId) ≠ (p.fragmentId, p.nodeId)
  present : ∀ pair ∈ pairs, ∃ p ∈ db'.placements, (p.fragmentId, p.nodeId) = pair
  schema : db.Schema → db'.Schema

theorem Inserted.nil (db : DB) : Inserted db [] db :=
  ⟨rfl, prefix_refl _, fun _ old => .inl old, by simp, fun h => h⟩

/-- One statement in front of the rest. -/
theorem Inserted.cons {db₁ : DB} {n : Uuid}
    (first : db.insertPlacement f n = .ok db₁) (rest : Inserted db₁ pairs db') :
    Inserted db ((f, n) :: pairs) db' := by
  have now := DB.insertPlacement_ok first
  have rows : db.placements <+: db₁.placements ∧
      (∀ p ∈ db₁.placements, p ∈ db.placements ∨ p.status = .pending ∧
        (p.fragmentId, p.nodeId) = (f, n) ∧
          ∀ q ∈ db.placements, (q.fragmentId, q.nodeId) ≠ (f, n)) ∧
      ∃ p ∈ db₁.placements, (p.fragmentId, p.nodeId) = (f, n) := by
    simp only [DB.insertPlacement] at first
    split at first
    · cases first
    split at first
    · rename_i taken
      simp only [any_eq_true, decide_eq_true_eq] at taken
      cases first
      obtain ⟨p, member, onFragment, onNode⟩ := taken
      exact ⟨prefix_refl _, fun _ old => .inl old, p, member, by rw [onFragment, onNode]⟩
    · rename_i free
      simp only [any_eq_true, decide_eq_true_eq, not_exists, not_and] at free
      cases first
      refine ⟨prefix_append _ _, fun p member => ?_,
        _, mem_append_right _ (mem_singleton.mpr rfl), rfl⟩
      rcases mem_append_row.mp member with old | rfl
      · exact .inl old
      · refine .inr ⟨rfl, rfl, fun q inRows same => ?_⟩
        exact free q inRows (Prod.mk.inj same).1 (Prod.mk.inj same).2
  obtain ⟨kept, added, present⟩ := rows
  refine ⟨?_, kept.trans rest.kept, fun p member => ?_, ?_, ?_⟩
  · rw [rest.frame, now]
  · rcases rest.added p member with old | ⟨pending, inPairs, new⟩
    · rcases added p old with old | ⟨pending, same, new⟩
      · exact .inl old
      · exact .inr ⟨pending, by simp [same], by rw [same]; exact new⟩
    · exact .inr ⟨pending, mem_cons_of_mem _ inPairs, fun q inRows => new q (kept.subset inRows)⟩
  · intro pair member
    rcases mem_cons.mp member with rfl | later
    · obtain ⟨p, inRows, same⟩ := present
      exact ⟨p, rest.kept.subset inRows, same⟩
    · exact rest.present pair later
  · exact fun h => rest.schema (h.insertPlacement first)

theorem insertPlacements_inserted (inserted : db.insertPlacements pairs = (.ok (), db')) :
    Inserted db pairs db' := by
  induction pairs generalizing db with
  | nil =>
    cases inserted
    exact Inserted.nil _
  | cons pair pairs ih =>
    simp only [DB.insertPlacements] at inserted
    split at inserted
    · cases inserted
    · rename_i db₁ first
      exact Inserted.cons first (ih inserted)

/-- The statements succeed when the fragments and nodes exist. -/
theorem insertPlacements_total
    (known : ∀ pair ∈ pairs, (∃ fr ∈ db.fragments, fr.id = pair.1) ∧
      ∃ n ∈ db.nodes, n.id = pair.2) :
    ∃ db', db.insertPlacements pairs = (.ok (), db') := by
  induction pairs generalizing db with
  | nil => exact ⟨db, rfl⟩
  | cons pair pairs ih =>
    obtain ⟨fragment, node⟩ := known pair mem_cons_self
    cases first : db.insertPlacement pair.1 pair.2 with
    | error e =>
      simp only [DB.insertPlacement] at first
      split at first
      · rename_i unknown
        simp only [any_eq_true, decide_eq_true_eq] at unknown
        rcases unknown with noFragment | noNode
        · exact absurd fragment noFragment
        · exact absurd node noNode
      · split at first <;> cases first
    | ok db₁ =>
      obtain ⟨db', rest⟩ := @ih db₁ (by
        rw [DB.insertPlacement_ok first]
        exact fun pair' later => known pair' (mem_cons_of_mem _ later))
      exact ⟨db', by simp only [DB.insertPlacements, first, rest]⟩

/-! ### The fragments of a chunk, as the plan sees them -/

def DB.fragmentsOf (db : DB) (chunkId : Uuid) : List Fragment :=
  db.fragments.filter fun fr => fr.chunkId = chunkId

/-- The fragment is not stored, and its oldest pending row is on a node that
repairs still write to. -/
def DB.AwaitedOn (db : DB) (fr : Fragment) (n : Node) : Prop :=
  n ∈ db.nodes ∧ n.status ≠ .offline ∧ n.status ≠ .quarantined ∧
    ∃ p, db.livePlacement fr.id = some p ∧ p.status = .pending ∧ n.id = p.nodeId

/-- The fragment is not stored, and its oldest pending row, if it has one, is on
a node that is offline or quarantined. -/
def DB.Unplaced (db : DB) (fr : Fragment) : Prop :=
  ∀ p, db.livePlacement fr.id = some p → p.status = .pending ∧
    ∀ n ∈ db.nodes, n.id = p.nodeId → n.status = .offline ∨ n.status = .quarantined

theorem DB.livePlacement_some (found : db.livePlacement f = some p) :
    p ∈ db.placements ∧ p.fragmentId = f ∧ p.live = true := by
  have member := mem_of_mem_head? (Option.mem_def.mpr found)
  rw [mem_orderBy, mem_filter] at member
  exact ⟨member.1, of_decide_eq_true member.2⟩

theorem DB.mem_repairFragments :
    rf ∈ db.repairFragments chunkId ↔ ∃ fr ∈ db.fragmentsOf chunkId,
      rf = { fragment := fr
             placement := db.livePlacement fr.id
             node := (db.livePlacement fr.id).bind fun p =>
               db.nodes.find? fun n => n.id = p.nodeId } := by
  simp only [repairFragments, mem_map, mem_orderBy, fragmentsOf]
  exact exists_congr fun fr => and_congr_right fun _ => eq_comm

theorem DB.repairFragments_unique (schema : db.Schema) (chunkId : Uuid) :
    UniqueOn (fun rf : RepairFragment => rf.fragment.id) (db.repairFragments chunkId) := by
  have sorted : UniqueOn Fragment.id (orderBy (fun a b => a.id.toNat ≤ b.id.toNat)
      (db.fragments.filter fun fr => fr.chunkId = chunkId)) :=
    (schema.fragment_pk.filter _).perm (orderBy_perm _ _)
  rw [UniqueOn, repairFragments, map_map]
  exact sorted

/-- The node row of a placement, by its foreign key. -/
theorem DB.find_node (schema : db.Schema) (member : p ∈ db.placements) :
    ∃ n ∈ db.nodes, n.id = p.nodeId ∧ db.nodes.find? (fun n => n.id = p.nodeId) = some n := by
  cases found : db.nodes.find? fun n => n.id = p.nodeId with
  | none =>
    obtain ⟨n, inNodes, onNode⟩ := schema.placement_node p member
    have absent := find?_eq_none.mp found n inNodes
    simp [onNode] at absent
  | some n =>
    have onNode := find?_some found
    exact ⟨n, mem_of_find?_eq_some found, of_decide_eq_true onNode, rfl⟩

/-- The uses of a fragment of the chunk, by its rows. -/
theorem use_cases (schema : db.Schema) (member : rf ∈ db.repairFragments chunkId) :
    (∀ n, rf.use = .reuse n ↔ db.AwaitedOn rf.fragment n) ∧
      (rf.use = .missing ↔ db.Unplaced rf.fragment) := by
  obtain ⟨fr, -, rfl⟩ := DB.mem_repairFragments.mp member
  cases live : db.livePlacement fr.id with
  | none => simp [RepairFragment.use, DB.AwaitedOn, DB.Unplaced, live]
  | some p =>
    obtain ⟨inPlacements, -, isLive⟩ := DB.livePlacement_some live
    obtain ⟨n, inNodes, onNode, found⟩ := DB.find_node schema inPlacements
    have only : ∀ m ∈ db.nodes, m.id = p.nodeId → m = n := fun m inNodes' onNode' =>
      schema.node_pk.eq_of_key inNodes' inNodes (onNode'.trans onNode.symm)
    simp only [RepairFragment.use, Option.bind_some, found, DB.AwaitedOn, DB.Unplaced, live,
      Option.some.injEq, exists_eq_left', forall_eq']
    have pendingOrStored : p.status = .pending ∨ p.status = .stored := by
      simpa [Placement.live] using isLive
    grind

theorem mem_repairReused :
    (fr, n) ∈ repairReused frags ↔ ∃ rf ∈ frags, rf.fragment = fr ∧ rf.use = .reuse n := by
  simp only [repairReused, mem_filterMap]
  refine exists_congr fun rf => and_congr_right fun _ => ?_
  cases rf.use <;> simp

theorem mem_repairMissing :
    fr ∈ repairMissing frags ↔ ∃ rf ∈ frags, rf.fragment = fr ∧ rf.use = .missing := by
  simp only [repairMissing, mem_filterMap]
  refine exists_congr fun rf => and_congr_right fun _ => ?_
  cases rf.use <;> simp

/-- The fragments a plan reads again from a pending row. -/
theorem DB.mem_reused (schema : db.Schema) :
    (fr, n) ∈ repairReused (db.repairFragments chunkId) ↔
      fr ∈ db.fragmentsOf chunkId ∧ db.AwaitedOn fr n := by
  rw [mem_repairReused]
  constructor
  · rintro ⟨rf, inFrags, rfl, use⟩
    obtain ⟨fr, inChunk, rfl⟩ := mem_repairFragments.mp inFrags
    exact ⟨inChunk, ((use_cases schema inFrags).1 n).mp use⟩
  · rintro ⟨inChunk, awaited⟩
    have inFrags := mem_repairFragments.mpr ⟨fr, inChunk, rfl⟩
    exact ⟨_, inFrags, rfl, ((use_cases schema inFrags).1 n).mpr awaited⟩

/-- The fragments a plan places anew. -/
theorem DB.mem_missing (schema : db.Schema) :
    fr ∈ repairMissing (db.repairFragments chunkId) ↔
      fr ∈ db.fragmentsOf chunkId ∧ db.Unplaced fr := by
  rw [mem_repairMissing]
  constructor
  · rintro ⟨rf, inFrags, rfl, use⟩
    obtain ⟨fr, inChunk, rfl⟩ := mem_repairFragments.mp inFrags
    exact ⟨inChunk, (use_cases schema inFrags).2.mp use⟩
  · rintro ⟨inChunk, unplaced⟩
    have inFrags := mem_repairFragments.mpr ⟨fr, inChunk, rfl⟩
    exact ⟨_, inFrags, rfl, (use_cases schema inFrags).2.mpr unplaced⟩

/-- No fragment of the chunk is both. -/
theorem DB.reused_ne_missing (schema : db.Schema) {fr' : Fragment}
    (reused : (fr, n) ∈ repairReused (db.repairFragments chunkId))
    (missing : fr' ∈ repairMissing (db.repairFragments chunkId)) : fr.id ≠ fr'.id := by
  intro same
  obtain ⟨inChunk, inNodes, online, trusted, p, live, -, onNode⟩ := (mem_reused schema).mp reused
  obtain ⟨inChunk', unplaced⟩ := (mem_missing schema).mp missing
  obtain rfl := schema.fragment_pk.eq_of_key (mem_filter.mp inChunk).1 (mem_filter.mp inChunk').1
    same
  exact ((unplaced p live).2 n inNodes onNode).elim online trusted

theorem repairMissing_ids :
    ((repairMissing frags).map Fragment.id).Sublist (frags.map fun rf => rf.fragment.id) := by
  refine map_filterMap_sublist (fun rf fr isMissing => ?_) _
  split at isMissing <;> cases isMissing
  rfl

theorem mem_repairPlaced (placed : (fr, n) ∈ repairPlaced frags assigns) :
    fr ∈ repairMissing frags ∧ { fragmentId := fr.id, node := n } ∈ assigns := by
  simp only [repairPlaced, mem_filterMap, Option.map_eq_some_iff, Prod.mk.injEq] at placed
  obtain ⟨fr', missing, n', found, rfl, rfl⟩ := placed
  refine ⟨missing, ?_⟩
  simp only [lastNode, Option.map_eq_some_iff] at found
  obtain ⟨⟨f, m⟩, found, rfl⟩ := found
  have here := mem_of_find?_eq_some found
  have same := find?_some found
  simp only [mem_reverse, assignedPairs, mem_map, Prod.mk.injEq] at here
  obtain ⟨a, inAssigns, rfl, rfl⟩ := here
  rw [← of_decide_eq_true same]
  exact inAssigns

/-! ### Inversion of the plan -/

/-- What the plan got from the scheduler: nothing was missing, or `Place` answered. -/
def DB.Assigned (db : DB) (env : PlaceEnv) (chunkId : Uuid) (assigns : List PlaceAssign) : Prop :=
  repairMissing (db.repairFragments chunkId) = [] ∧ assigns = [] ∨
    repairMissing (db.repairFragments chunkId) ≠ [] ∧
      db.place env (repairNeeds chunkId (db.repairFragments chunkId)) = .ok assigns

/-- What a successful `PlanRepair` did: the assignments it got, the rows it left
and the pairs it signed tickets for. -/
structure Planned (db : DB) (env : PlaceEnv) (chunkId : Uuid) (assigns : List PlaceAssign)
    (targets : List ShardRef) (db' : DB) : Prop where
  ran : db.Assigned env chunkId assigns
  inserted : db.insertPlacements (placementRows assigns) = (.ok (), db')
  signed : targets.map (fun t => (t.fragmentId, t.nodeId)) =
    (repairReused (db.repairFragments chunkId) ++
      repairPlaced (db.repairFragments chunkId) assigns).map fun s => (s.1.id, s.2.id)

theorem DB.repairChunk_id (found : db.repairChunk chunkId = .ok ch) : ch.id = chunkId := by
  simp only [repairChunk] at found
  split at found <;> cases found
  rename_i cv first
  have row := find?_some first
  exact (of_decide_eq_true row).1

theorem repairNeeds_eq_nil : repairNeeds chunkId frags = [] ↔ repairMissing frags = [] := by
  simp [repairNeeds]

theorem repairPlaced_nil (frags : List RepairFragment) : repairPlaced frags [] = [] := by
  simp [repairPlaced, lastNode, assignedPairs]

theorem signAll_pairs {sign : SignTicket} {op : TicketOp} {shards : List (Fragment × Node)}
    {refs : List ShardRef} (signed : signAll sign op shards = .ok refs) :
    refs.map (fun t => (t.fragmentId, t.nodeId)) = shards.map fun s => (s.1.id, s.2.id) := by
  have keys := congrArg (List.map Prod.snd) (signAll_ok signed)
  simpa [map_map, Function.comp_def] using keys

theorem planRepair_planned {env : PlaceEnv} {sign : SignTicket} {plan : RepairPlan}
    (planned : db.planRepair env sign chunkId = (.ok plan, db')) :
    (∃ ch, db.repairChunk chunkId = .ok ch) ∧
      ∃ assigns, Planned db env chunkId assigns plan.targets db' := by
  simp only [DB.planRepair] at planned
  split at planned
  · cases planned
  rename_i ch found
  obtain rfl := DB.repairChunk_id found
  refine ⟨⟨ch, found⟩, ?_⟩
  simp only [DB.planLoaded] at planned
  split at planned
  · cases planned
  · cases planned
  rename_i sources reused signedSources signedReused
  split at planned
  · rename_i nothing
    cases planned
    refine ⟨[], .inl ⟨repairNeeds_eq_nil.mp nothing, rfl⟩, rfl, ?_⟩
    rw [repairPlaced_nil, append_nil]
    exact signAll_pairs signedReused
  · rename_i needed
    split at planned
    · cases planned
    rename_i assigns placed
    split at planned
    · cases planned
    rename_i inserted
    split at planned <;> cases planned
    rename_i refs signedPlaced
    refine ⟨assigns, .inr ⟨fun none => needed (repairNeeds_eq_nil.mpr none), placed⟩,
      inserted, ?_⟩
    simp only [repairPlan, map_append, signAll_pairs signedReused, signAll_pairs signedPlaced]

/-- A signer that never fails. -/
def signAlways : SignTicket := fun _ _ _ _ _ => .ok ([], 0)

theorem signAll_always (op : TicketOp) (shards : List (Fragment × Node)) :
    ∃ refs, signAll signAlways op shards = .ok refs := by
  induction shards with
  | nil => exact ⟨[], rfl⟩
  | cons shard shards ih =>
    obtain ⟨refs, signed⟩ := ih
    refine ⟨shardRef shard.1 shard.2 [] :: refs, ?_⟩
    simp [signAll, signShard, signAlways, signed]

/-- Any outcome of `Place` leads to a plan. -/
theorem planRepair_yields {env : PlaceEnv} (schema : db.Schema)
    (found : db.repairChunk chunkId = .ok ch)
    (ran : db.Assigned env chunkId assigns) :
    ∃ plan db', db.planRepair env signAlways chunkId = (.ok plan, db') ∧
      Planned db env chunkId assigns plan.targets db' := by
  have returns : ∃ plan db', db.planRepair env signAlways chunkId = (.ok plan, db') := by
    obtain rfl := DB.repairChunk_id found
    obtain ⟨sources, signedSources⟩ :=
      signAll_always .get (repairSources (db.repairFragments ch.id))
    obtain ⟨reused, signedReused⟩ :=
      signAll_always .put (repairReused (db.repairFragments ch.id))
    simp only [DB.planRepair, found, DB.planLoaded, signedSources, signedReused]
    rcases ran with ⟨nothing, -⟩ | ⟨needed, placed⟩
    · rw [if_pos (repairNeeds_eq_nil.mpr nothing)]
      exact ⟨_, _, rfl⟩
    · rw [if_neg fun none => needed (repairNeeds_eq_nil.mp none), placed]
      have known : ∀ pair ∈ placementRows assigns, (∃ fr ∈ db.fragments, fr.id = pair.1) ∧
          ∃ n ∈ db.nodes, n.id = pair.2 := by
        intro pair member
        obtain ⟨a, inAssigns, rfl⟩ := mem_map.mp member
        obtain ⟨isNeeded, inNodes⟩ := DB.place_mem schema placed a inAssigns
        simp only [repairNeeds, map_map, mem_map] at isNeeded
        obtain ⟨fr, missing, same⟩ := isNeeded
        have inChunk := ((DB.mem_missing schema).mp missing).1
        exact ⟨⟨fr, (mem_filter.mp inChunk).1, same⟩, a.node, inNodes, rfl⟩
      obtain ⟨db', inserted⟩ := insertPlacements_total known
      obtain ⟨refs, signedPlaced⟩ :=
        signAll_always .put (repairPlaced (db.repairFragments ch.id) assigns)
      simp only [inserted, signedPlaced]
      exact ⟨_, _, rfl⟩
  obtain ⟨plan, db', planned⟩ := returns
  obtain ⟨-, assigns', inner⟩ := planRepair_planned planned
  refine ⟨plan, db', planned, ?_⟩
  have same : assigns' = assigns := by
    rcases ran with ⟨nothing, rfl⟩ | ⟨needed, placed⟩
    · rcases inner.ran with ⟨-, none⟩ | ⟨needed, -⟩
      · exact none
      · exact absurd nothing needed
    · rcases inner.ran with ⟨nothing, -⟩ | ⟨-, placed'⟩
      · exact absurd nothing needed
      · rw [placed] at placed'
        exact (Except.ok.inj placed').symm
  rw [← same]
  exact inner

section Planned

variable {env : PlaceEnv} {targets : List ShardRef}

theorem repairNeeds_chunk : ∀ need ∈ repairNeeds chunkId frags, need.chunkId = chunkId := by
  intro need member
  obtain ⟨fr, -, rfl⟩ := mem_map.mp member
  rfl

variable (planned : Planned db env chunkId assigns targets db')
include planned

/-- What is known of the assignments: different missing fragments, on nodes the
caps admit; and `Place` did not give up. -/
theorem Planned.assigned (schema : db.Schema) :
    (repairMissing (db.repairFragments chunkId) = [] ∨ db.Schedulable) ∧
      (∀ a ∈ assigns, db.Placeable chunkId env.now a.node) ∧
      (assigns.map PlaceAssign.fragmentId).Sublist
        ((repairMissing (db.repairFragments chunkId)).map Fragment.id) := by
  rcases planned.ran with ⟨nothing, rfl⟩ | ⟨-, placed⟩
  · exact ⟨.inl nothing, by simp, by simp⟩
  · obtain ⟨schedulable, placeable, fewer⟩ := DB.place_placeable schema repairNeeds_chunk placed
    refine ⟨.inr schedulable, placeable, ?_⟩
    simpa [repairNeeds, map_map, Function.comp_def] using fewer

theorem Planned.mem_target (member : t ∈ targets) :
    ∃ fr n, fr.id = t.fragmentId ∧ n.id = t.nodeId ∧
      ((fr, n) ∈ repairReused (db.repairFragments chunkId) ∨
        (fr, n) ∈ repairPlaced (db.repairFragments chunkId) assigns) := by
  have key : (t.fragmentId, t.nodeId) ∈ targets.map fun t => (t.fragmentId, t.nodeId) :=
    mem_map_of_mem member
  rw [planned.signed, mem_map] at key
  obtain ⟨⟨fr, n⟩, inShards, same⟩ := key
  exact ⟨fr, n, (Prod.mk.inj same).1, (Prod.mk.inj same).2, mem_append.mp inShards⟩

theorem Planned.target_of (shard : (fr, n) ∈ repairReused (db.repairFragments chunkId) ∨
      (fr, n) ∈ repairPlaced (db.repairFragments chunkId) assigns) :
    ∃ t ∈ targets, t.fragmentId = fr.id ∧ t.nodeId = n.id := by
  have key : (fr.id, n.id) ∈ (repairReused (db.repairFragments chunkId) ++
      repairPlaced (db.repairFragments chunkId) assigns).map fun s => (s.1.id, s.2.id) :=
    mem_map.mpr ⟨(fr, n), mem_append.mpr shard, rfl⟩
  rw [← planned.signed, mem_map] at key
  obtain ⟨t, member, same⟩ := key
  exact ⟨t, member, (Prod.mk.inj same).1, (Prod.mk.inj same).2⟩

/-- No fragment is a target twice. -/
theorem Planned.distinct (schema : db.Schema) : UniqueOn ShardRef.fragmentId targets := by
  have unique := DB.repairFragments_unique schema chunkId
  have ids : targets.map ShardRef.fragmentId =
      (repairReused (db.repairFragments chunkId)).map (fun s => s.1.id) ++
        (repairPlaced (db.repairFragments chunkId) assigns).map fun s => s.1.id := by
    have keys := congrArg (List.map Prod.fst) planned.signed
    simpa [map_map, Function.comp_def] using keys
  rw [UniqueOn, ids, nodup_append]
  refine ⟨?_, ?_, ?_⟩
  · refine List.Nodup.sublist (map_filterMap_sublist (fun rf s reused => ?_) _) unique
    split at reused <;> cases reused
    rfl
  · have missing := List.Nodup.sublist repairMissing_ids unique
    refine List.Nodup.sublist (map_filterMap_sublist (fun fr s placed => ?_) _) missing
    obtain ⟨n, -, rfl⟩ := Option.map_eq_some_iff.mp placed
    rfl
  · intro f inReused f' inPlaced
    obtain ⟨⟨fr, n⟩, reused, rfl⟩ := mem_map.mp inReused
    obtain ⟨⟨fr', n'⟩, placed, rfl⟩ := mem_map.mp inPlaced
    exact DB.reused_ne_missing schema reused (mem_repairPlaced placed).1

theorem Planned.targetsOf (schema : db.Schema) : TargetsOf db' chunkId targets := by
  refine ⟨planned.distinct schema, fun t member => ?_⟩
  rw [(insertPlacements_inserted planned.inserted).frame]
  obtain ⟨fr, n, ofFragment, onNode, shard⟩ := planned.mem_target member
  obtain ⟨inChunk, inNodes⟩ : fr ∈ db.fragmentsOf chunkId ∧ n ∈ db.nodes := by
    rcases shard with reused | placed
    · obtain ⟨inChunk, awaited⟩ := (DB.mem_reused schema).mp reused
      exact ⟨inChunk, awaited.1⟩
    · obtain ⟨missing, inAssigns⟩ := mem_repairPlaced placed
      have online := ((planned.assigned schema).2.1 _ inAssigns).1
      exact ⟨((DB.mem_missing schema).mp missing).1, DB.mem_listOnlineNodes online⟩
  obtain ⟨inTable, ofChunk⟩ := mem_filter.mp inChunk
  exact ⟨fr, inTable, n, inNodes, ofFragment, of_decide_eq_true ofChunk, onNode⟩

end Planned

/-! ### The condition -/

/-- The placement rows of the chunk are such that every plan is honoured.  Where
a plan is possible at all, a fragment that waits for a node waits for no other;
and a fragment that has to be placed is pending nowhere and has no row, in
whatever status, on a node the scheduler may choose. -/
structure RepairReady (db : DB) (chunkId : Uuid) : Prop where
  awaited : (∀ fr ∈ db.fragmentsOf chunkId, ¬ db.Unplaced fr) ∨ db.Schedulable →
    ∀ fr ∈ db.fragmentsOf chunkId, ∀ n, db.AwaitedOn fr n →
      ∀ p ∈ db.placements, p.fragmentId = fr.id → p.status = .pending → p.nodeId = n.id
  unplaced : ∀ fr ∈ db.fragmentsOf chunkId, db.Unplaced fr →
    ∀ now n, db.Placeable chunkId now n →
      ∀ p ∈ db.placements, p.fragmentId = fr.id → p.nodeId ≠ n.id ∧ p.status ≠ .pending

theorem repairMissing_eq_nil (schema : db.Schema) :
    repairMissing (db.repairFragments chunkId) = [] ↔
      ∀ fr ∈ db.fragmentsOf chunkId, ¬ db.Unplaced fr := by
  simp [eq_nil_iff_forall_not_mem, DB.mem_missing schema]

section Ready

variable {env : PlaceEnv} {targets : List ShardRef} (schema : db.Schema)
variable (planned : Planned db env chunkId assigns targets db')
variable (condition : RepairReady db chunkId)
include schema planned condition

/-- A fragment that is read again from its pending row. -/
theorem ready_of_reused (ofFragment : fr.id = t.fragmentId) (onNode : n.id = t.nodeId)
    (reused : (fr, n) ∈ repairReused (db.repairFragments chunkId)) : TargetReady db' t := by
  have inserted := insertPlacements_inserted planned.inserted
  obtain ⟨inChunk, awaited⟩ := (DB.mem_reused schema).mp reused
  obtain ⟨-, -, -, p, live, pending, sameNode⟩ := awaited
  obtain ⟨inPlacements, onFragment, -⟩ := DB.livePlacement_some live
  refine ⟨⟨p, inserted.kept.subset inPlacements, onFragment.trans ofFragment,
    sameNode.symm.trans onNode, pending⟩, fun q member ofFragment' pending' => ?_⟩
  rcases inserted.added q member with old | ⟨-, inRows, -⟩
  · rw [← onNode]
    exact condition.awaited ((planned.assigned schema).1.imp_left (repairMissing_eq_nil schema).mp)
      fr inChunk n ((DB.mem_reused schema).mp reused).2 q old (ofFragment'.trans ofFragment.symm)
      pending'
  · -- only missing fragments get new rows
    obtain ⟨a, inAssigns, same⟩ := mem_map.mp inRows
    obtain ⟨fr', missing, sameId⟩ := mem_map.mp
      ((planned.assigned schema).2.2.subset (mem_map_of_mem inAssigns))
    exact absurd ((ofFragment.trans ofFragment'.symm).trans
      ((Prod.mk.inj same).1.symm.trans sameId.symm)) (DB.reused_ne_missing schema reused missing)

/-- A fragment that was placed anew. -/
theorem ready_of_placed (ofFragment : fr.id = t.fragmentId) (onNode : n.id = t.nodeId)
    (placed : (fr, n) ∈ repairPlaced (db.repairFragments chunkId) assigns) : TargetReady db' t := by
  have inserted := insertPlacements_inserted planned.inserted
  obtain ⟨missing, inAssigns⟩ := mem_repairPlaced placed
  obtain ⟨-, placeable, fewer⟩ := planned.assigned schema
  obtain ⟨inChunk, unplaced⟩ := (DB.mem_missing schema).mp missing
  have clear := condition.unplaced fr inChunk unplaced env.now n (placeable _ inAssigns)
  refine ⟨?_, fun q member ofFragment' pending => ?_⟩
  · obtain ⟨p, member, same⟩ := inserted.present (fr.id, n.id) (mem_map.mpr ⟨_, inAssigns, rfl⟩)
    obtain ⟨onFragment, sameNode⟩ := Prod.mk.inj same
    rcases inserted.added p member with old | ⟨pending, -, -⟩
    · exact absurd sameNode (clear p old onFragment).1
    · exact ⟨p, member, onFragment.trans ofFragment, sameNode.trans onNode, pending⟩
  · rcases inserted.added q member with old | ⟨-, inRows, -⟩
    · exact absurd pending (clear q old (ofFragment'.trans ofFragment.symm)).2
    · -- each fragment is assigned once
      obtain ⟨a, inAssigns', same⟩ := mem_map.mp inRows
      have unique : UniqueOn PlaceAssign.fragmentId assigns :=
        List.Nodup.sublist (fewer.trans repairMissing_ids)
          (DB.repairFragments_unique schema chunkId)
      have sameAssign : a = { fragmentId := fr.id, node := n } :=
        unique.eq_of_key inAssigns' inAssigns
          ((Prod.mk.inj same).1.trans (ofFragment'.trans ofFragment.symm))
      rw [← (Prod.mk.inj same).2, sameAssign]
      exact onNode

theorem ready_of_condition : ∀ t ∈ targets, TargetReady db' t := by
  intro t member
  obtain ⟨fr, n, ofFragment, onNode, reused | placed⟩ := planned.mem_target member
  · exact ready_of_reused schema planned condition ofFragment onNode reused
  · exact ready_of_placed schema planned condition ofFragment onNode placed

end Ready

/-! ### Its necessity -/

section Necessity

variable (schema : db.Schema) (found : db.repairChunk chunkId = .ok ch)
variable (ready : ∀ env plan db', db.planRepair env signAlways chunkId = (.ok plan, db') →
  ∀ t ∈ plan.targets, TargetReady db' t)
include schema found ready

/-- If every plan leaves its targets ready, so does the one where `Place` finds
nothing. -/
theorem awaited_of_ready
    (possible : (∀ fr ∈ db.fragmentsOf chunkId, ¬ db.Unplaced fr) ∨ db.Schedulable)
    (inChunk : fr ∈ db.fragmentsOf chunkId) (awaited : db.AwaitedOn fr n)
    (member : p ∈ db.placements) (onFragment : p.fragmentId = fr.id)
    (pending : p.status = .pending) : p.nodeId = n.id := by
  obtain ⟨env, ran⟩ : ∃ env, db.Assigned env chunkId [] := by
    by_cases nothing : repairMissing (db.repairFragments chunkId) = []
    · exact ⟨.solo 0 0 fun _ => none, .inl ⟨nothing, rfl⟩⟩
    · have schedulable := possible.resolve_left fun all =>
        nothing ((repairMissing_eq_nil schema).mpr all)
      obtain ⟨env, placed⟩ := DB.place_nothing schema schedulable
        (repairNeeds chunkId (db.repairFragments chunkId))
      exact ⟨env, .inr ⟨nothing, placed⟩⟩
  obtain ⟨plan, db', returned, planned⟩ := planRepair_yields schema found ran
  obtain ⟨t, inTargets, ofFragment, onNode⟩ := planned.target_of
    (.inl ((DB.mem_reused schema).mpr ⟨inChunk, awaited⟩))
  have alone := (ready env plan db' returned t inTargets).alone p
    ((insertPlacements_inserted planned.inserted).kept.subset member)
  exact (alone (onFragment.trans ofFragment.symm) pending).trans onNode

/-- And so does the one where `Place` chooses a given node for a given
fragment. -/
theorem unplaced_of_ready (inChunk : fr ∈ db.fragmentsOf chunkId) (unplaced : db.Unplaced fr)
    {now : Time} (placeable : db.Placeable chunkId now n) (member : p ∈ db.placements)
    (onFragment : p.fragmentId = fr.id) : p.nodeId ≠ n.id ∧ p.status ≠ .pending := by
  have missing := (DB.mem_missing schema).mpr ⟨inChunk, unplaced⟩
  obtain ⟨env, placed⟩ := DB.place_alone schema placeable repairNeeds_chunk (mem_map_of_mem missing)
  obtain ⟨plan, db', returned, planned⟩ := planRepair_yields schema found
    (.inr ⟨ne_nil_of_mem missing, placed⟩)
  have inPlaced : (fr, n) ∈ repairPlaced (db.repairFragments chunkId)
      [{ fragmentId := fr.id, node := n }] := by
    rw [repairPlaced, mem_filterMap]
    exact ⟨fr, missing, by simp [lastNode, assignedPairs]⟩
  obtain ⟨t, inTargets, ofFragment, onNode⟩ := planned.target_of (.inr inPlaced)
  have inserted := insertPlacements_inserted planned.inserted
  obtain ⟨⟨q, inRows, ofFragment', onNode', pending⟩, alone⟩ :=
    ready env plan db' returned t inTargets
  have elsewhere : p.nodeId ≠ n.id := by
    intro same
    rcases inserted.added q inRows with old | ⟨-, -, new⟩
    · -- an old pending row would make the node an occupant
      obtain ⟨m, inNodes, onNode''⟩ := schema.placement_node q old
      obtain ⟨inTable, ofChunk⟩ := mem_filter.mp inChunk
      have held := DB.mem_placementTargets (t := { placement := q, fragment := fr, node := m })
        |>.mpr ⟨old, inTable, inNodes, (ofFragment'.trans ofFragment).symm, onNode''⟩
      exact placeable.not_holding held (of_decide_eq_true ofChunk)
        (by simp [Placement.live, pending])
        (onNode''.trans (onNode'.trans onNode))
    · exact new p member (Prod.ext (onFragment.trans (ofFragment'.trans ofFragment).symm)
        (same.trans (onNode'.trans onNode).symm))
  refine ⟨elsewhere, fun pending' => elsewhere ?_⟩
  exact (alone p (inserted.kept.subset member) (onFragment.trans ofFragment.symm)
    pending').trans onNode

end Necessity

/-- Every plan for a chunk is honoured if the rows of the chunk are ready for it, and only
if they are, as long as the nodes can sign receipts for its fragments. -/
theorem planRepair_honoured_iff {sigOk : SigCheck} {db : DB} (reachable : Reachable sigOk db)
    (chunkId : Uuid) :
    ((∀ ch, db.repairChunk chunkId = .ok ch → RepairReady db chunkId) →
      ∀ env sign plan db', db.planRepair env sign chunkId = (.ok plan, db') →
        PlanHonoured sigOk db' chunkId plan) ∧
    (Signable sigOk db chunkId →
      (∀ env sign plan db', db.planRepair env sign chunkId = (.ok plan, db') →
        PlanHonoured sigOk db' chunkId plan) →
      ∀ ch, db.repairChunk chunkId = .ok ch → RepairReady db chunkId) := by
  have schema := reachable_schema reachable
  constructor
  · intro condition env sign plan db' returned
    obtain ⟨⟨ch, found⟩, assigns, planned⟩ := planRepair_planned returned
    exact honoured_of_ready ((insertPlacements_inserted planned.inserted).schema schema)
      (planned.targetsOf schema) (ready_of_condition schema planned (condition ch found))
  · intro signable honoured ch found
    have ready : ∀ env plan db', db.planRepair env signAlways chunkId = (.ok plan, db') →
        ∀ t ∈ plan.targets, TargetReady db' t := by
      intro env plan db' returned
      obtain ⟨-, assigns, planned⟩ := planRepair_planned returned
      have inserted := insertPlacements_inserted planned.inserted
      refine ready_of_honoured (inserted.schema schema) ?_ (planned.targetsOf schema)
        (honoured env signAlways plan db' returned)
      rw [inserted.frame]
      exact signable
    exact
      { awaited := fun possible fr inChunk n awaited p member onFragment pending =>
          awaited_of_ready schema found ready possible inChunk awaited member onFragment pending
        unplaced := fun fr inChunk unplaced now n placeable p member onFragment =>
          unplaced_of_ready schema found ready inChunk unplaced placeable member onFragment }

namespace Sample

theorem wire_verified (i j : Nat) :
    ∃ r, verifyReceipt toySig (wire i j) (node j).publicKey (node j).id (fragment i).id
      (fragment i).sha256 (toUint64 (fragment i).sizeBytes) = .ok r := by
  let r : Receipt :=
    { nodeId := (node j).id, fragmentId := (fragment i).id, sha256 := digest, size := 1,
      storedAt := 0, nonce := [], raw := [] }
  have sized : r.WellSized := ⟨by simp [r, digest], by simp [r], by simp [r], by simp [r],
    .inl rfl⟩
  exact ⟨_, verifyReceipt_signed sized (by simp [node]) (by simp [node]) (by simp [toySig])⟩

theorem committed_signable : Signable toySig committed.db chunk.id := by
  intro fr inFragments _ n inNodes
  obtain ⟨i, -, rfl⟩ := mem_map.mp inFragments
  obtain ⟨j, -, rfl⟩ := mem_map.mp inNodes
  exact ⟨wire i j, wire_verified i j⟩

/-- After the upload every row is stored, and the two other fragments have none. -/
theorem committed_ready : RepairReady committed.db chunk.id := by
  have stored : ∀ p ∈ committed.db.placements, p.status = .stored ∧
      (committed.db.livePlacement p.fragmentId).map Placement.status = some .stored := by
    decide +kernel
  constructor
  · intro _ fr _ n _ p member _ pending
    rw [(stored p member).1] at pending
    cases pending
  · intro fr _ unplaced now n _ p member onFragment
    obtain ⟨q, live, isStored⟩ := Option.map_eq_some_iff.mp (onFragment ▸ (stored p member).2)
    rw [(unplaced q live).1] at isStored
    cases isStored

/-- Node 0 with another status. -/
def withStatus (status : NodeStatus) : NodeUpdate where
  endpoint := []
  capacityBytes := 100
  usedBytes := 0
  status := status
  certExpiresAt := none
  probationUntil := none
  revokedAt := none

/-- Node 0 goes offline, loses its placements and comes back. -/
def nodeReturns : List Event :=
  [.act (.updateNode (node 0).id (withStatus .offline)), .act (.nodeOffline (node 0).id),
    .act (.updateNode (node 0).id (withStatus .online))]

/-- Only node 0 answers the scheduler.  The plan sends fragment 0 to it once more,
and the row stays lost. -/
theorem nodeReturns_planned :
    (exec (step toySig) committed nodeReturns).map (fun s =>
      let planned := s.db.planRepair (env fun i => i = 0) sign chunk.id
      (planned.1.map fun plan => plan.targets.map fun t => (t.fragmentId, t.nodeId),
        planned.2.placements.filter fun p =>
          p.fragmentId = (fragment 0).id ∧ p.nodeId = (node 0).id)) =
      some (.ok [((fragment 0).id, (node 0).id)], [placement 1 0 0 .lost]) := by
  decide +kernel

end Sample

theorem upload_repair_honoured :
    (∀ env sign plan db',
      committed.db.planRepair env sign chunk.id = (.ok plan, db') →
      PlanHonoured toySig db' chunk.id plan) ∧
    RepairReady committed.db chunk.id ∧
    Signable toySig committed.db chunk.id := by
  have reachable : Reachable toySig committed.db :=
    @reachable_of_run [] committed rfl
  exact ⟨(planRepair_honoured_iff reachable chunk.id).1 fun _ _ => committed_ready,
    committed_ready, committed_signable⟩

theorem returnedNode_target_not_pending :
    ∃ db env sign plan db' t, Reachable toySig db ∧
      db.planRepair env sign chunk.id = (.ok plan, db') ∧
      t ∈ plan.targets ∧ ¬ db'.PlacedAs .pending t := by
  obtain ⟨s, run, observed⟩ := Option.map_eq_some_iff.mp nodeReturns_planned
  simp only [Prod.mk.injEq] at observed
  obtain ⟨listed, rows⟩ := observed
  cases planned : s.db.planRepair (Sample.env fun i => i = 0) Sample.sign chunk.id with
  | mk result db' =>
    cases result with
    | error e => simp [planned, Except.map] at listed
    | ok plan =>
      rw [planned] at listed rows
      simp only [Except.map, Except.ok.injEq] at listed
      have key : ((fragment 0).id, (node 0).id) ∈
          plan.targets.map fun t => (t.fragmentId, t.nodeId) := by simp [listed]
      obtain ⟨t, member, same⟩ := mem_map.mp key
      obtain ⟨ofFragment, onNode⟩ := Prod.mk.inj same
      refine ⟨s.db, _, _, plan, db', t, reachable_of_run run, planned, member, ?_⟩
      rintro ⟨p, inRows, onFragment, onNode', pending⟩
      have row : p ∈ [placement 1 0 0 .lost] := by
        rw [← rows]
        exact mem_filter.mpr ⟨inRows, by
          simp [onFragment, onNode', ofFragment, onNode]⟩
      rw [mem_singleton.mp row] at pending
      cases pending

end StoragePlatform
