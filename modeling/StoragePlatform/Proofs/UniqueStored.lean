/-
Module: StoragePlatform.Proofs.UniqueStored
Purpose: When every fragment has at most one stored copy, and what the chunk
  health then counts.
Trusted boundary: none
Main exports: UniqueStored, RowOp.Clear, one_stored_copy_iff, RowOp.Alone, one_copy_of_alone
-/
import StoragePlatform.Proofs.Steps

namespace StoragePlatform

open Lib Sample

/-! ### The property -/

/-- No fragment has two stored rows. -/
def UniqueStored (rows : List Placement) : Prop :=
  ∀ p ∈ rows, ∀ q ∈ rows, p.status = .stored → q.status = .stored →
    p.fragmentId = q.fragmentId → p = q

/-- The shard indices of a chunk's stored rows, one entry a row. -/
def DB.storedShards (db : DB) (chunkId : Uuid) : List Int :=
  (db.placedFragments.filter fun pf => pf.2.chunkId = chunkId ∧ pf.1.status = .stored).map
    fun pf => pf.2.shardIndex

/-- At most one stored copy a fragment, so that the health of a chunk is the
number of its stored shards. -/
def OneStoredCopy (s : System) : Prop :=
  UniqueStored s.db.placements ∧
    ∀ chunkId, s.db.chunkHealth chunkId = (s.db.storedShards chunkId).dedup.length

theorem nodup_storedShards {db : DB} (schema : db.Schema) (unique : UniqueStored db.placements)
    (chunkId : Uuid) : (db.storedShards chunkId).Nodup := by
  refine List.Nodup.map_on ?_
    ((nodup_innerJoin schema.placement_pk.nodup schema.fragment_pk.nodup).filter _)
  rintro ⟨p, fr⟩ inFirst ⟨q, gr⟩ inSecond sameShard
  simp only [List.mem_filter, decide_eq_true_eq] at inFirst inSecond
  obtain ⟨joined, inChunk, isStored⟩ := inFirst
  obtain ⟨joined', inChunk', isStored'⟩ := inSecond
  have first := DB.mem_placedFragments.mp joined
  have second := DB.mem_placedFragments.mp joined'
  -- a chunk has one fragment a shard index, and the fragment one stored row
  have fragment : fr = gr := schema.fragment_shard.eq_of_key first.2.1 second.2.1
    (Prod.ext (inChunk.trans inChunk'.symm) sameShard)
  have placement : p = q := unique p first.1 q second.1 isStored isStored'
    (by rw [← first.2.2, ← second.2.2, fragment])
  rw [fragment, placement]

theorem chunkHealth_eq_storedShards {db : DB} (schema : db.Schema)
    (unique : UniqueStored db.placements) (chunkId : Uuid) :
    db.chunkHealth chunkId = (db.storedShards chunkId).dedup.length := by
  rw [(nodup_storedShards schema unique chunkId).dedup, DB.storedShards, List.length_map,
    DB.chunkHealth, List.countP_eq_length_filter]

/-! ### The step -/

/-- The rows an operation makes stored belong to fragments without a stored row,
and to different fragments. -/
def RowOp.Clear (op : RowOp) (rows : List Placement) : Prop :=
  ∀ p ∈ rows, op.stores p = true → ∀ q ∈ rows, q.fragmentId = p.fragmentId →
    q.status = .stored ∨ op.stores q = true → q = p

/-- The step makes no second stored copy: neither the transaction of a commit nor
the restore of a returning node finds another one of the fragment. -/
def FlipsClear (s : System) (e : Event) (_ : System) : Prop :=
  (rowOp s e).Clear s.db.placements

/-- An operation that makes a row stored leaves the stored rows alone. -/
theorem RowOp.after_of_stores {op : RowOp} {p q : Placement} (chosen : op.stores p = true)
    (isStored : q.status = .stored ∨ op.stores q = true) : op.after q = some .stored := by
  cases op with
  | store fragmentIds => rcases isStored with h | h <;> simp_all [RowOp.after, RowOp.stores]
  | restore ids => rcases isStored with h | h <;> simp_all [RowOp.after, RowOp.stores]
  | _ => simp [RowOp.stores] at chosen

theorem UniqueStored.clear {next : Nat} {op : RowOp} {rows : List Placement}
    (keys : UniqueOn Placement.id rows) (h : UniqueStored (op.apply next rows)) :
    op.Clear rows := by
  intro p member chosen q member' sameFragment isStored
  have becomes : ∀ r ∈ rows, r.status = .stored ∨ op.stores r = true →
      r.setStatus .stored ∈ op.apply next rows := fun r inRows stored =>
    RowOp.mem_apply.mpr (.inl ⟨r, inRows, RowOp.after_of_stores chosen stored, rfl⟩)
  have same := h _ (becomes q member' isStored) _ (becomes p member (.inr chosen)) rfl rfl
    sameFragment
  have sameId : q.id = p.id := by simpa using congrArg Placement.id same
  exact keys.eq_of_key member' member sameId

theorem UniqueStored.apply {next : Nat} {op : RowOp} {rows : List Placement}
    (h : UniqueStored rows) (clear : op.Clear rows) : UniqueStored (op.apply next rows) := by
  intro p' member q' member' isStored isStored' sameFragment
  have origin : ∀ r' ∈ op.apply next rows, r'.status = .stored →
      ∃ r ∈ rows, r.setStatus .stored = r' ∧ (r.status = .stored ∨ op.stores r = true) := by
    intro r' inNew stored
    rcases RowOp.mem_apply.mp inNew with ⟨r, inRows, becomes, same⟩ | added
    · rw [stored] at becomes same
      exact ⟨r, inRows, same, (RowOp.after_stored.mp becomes).imp And.left id⟩
    · cases op with
      | insert f n => rw [List.mem_singleton.mp added] at stored; cases stored
      | _ => cases added
  obtain ⟨p, inRows, rfl, fromP⟩ := origin p' member isStored
  obtain ⟨q, inRows', rfl, fromQ⟩ := origin q' member' isStored'
  have same : p = q := by
    rcases fromP with p_stored | p_new
    · rcases fromQ with q_stored | q_new
      · exact h p inRows q inRows' p_stored q_stored sameFragment
      · exact clear q inRows' q_new p inRows sameFragment (.inl p_stored)
    · exact (clear p inRows p_new q inRows' sameFragment.symm fromQ).symm
  rw [same]

/-! ### The run -/

/-- A run keeps one stored copy a fragment exactly if no commit and no restore
makes a second one. -/
theorem one_stored_copy_iff (sigOk : SigCheck) (events : List Event) :
    EveryState (step sigOk) OneStoredCopy System.init events ↔
      EveryStep (step sigOk) FlipsClear System.init events := by
  refine EveryState.iff_everyStep
    (I := fun s => s.db.Schema ∧ UniqueStored s.db.placements) ?_ ?_ ?_ ?_
  · intro s inside
    exact ⟨inside.2, chunkHealth_eq_storedShards inside.1 inside.2⟩
  · intro s e t inside moved after
    have unique := after.1
    rw [step_placements moved] at unique
    exact unique.clear inside.1.placement_pk
  · intro s e t inside moved clear
    refine ⟨step_schema s e t inside.1 moved, ?_⟩
    rw [step_placements moved]
    exact inside.2.apply clear
  · exact ⟨DB.Schema.empty, fun p member => by cases member⟩

/-! ### One live copy at a time -/

/-- No row is inserted or restored for a fragment that has another row pending or stored. -/
def RowOp.Alone (op : RowOp) (rows : List Placement) : Prop :=
  match op with
  | .insert f _ => ∀ p ∈ rows, p.fragmentId = f → p.live = false
  | .restore _ => ∀ p ∈ rows, op.stores p = true → ∀ q ∈ rows, q.fragmentId = p.fragmentId →
      q.live = true ∨ op.stores q = true → q = p
  | _ => True

def UniqueLive (rows : List Placement) : Prop :=
  ∀ p ∈ rows, ∀ q ∈ rows, p.live = true → q.live = true → p.fragmentId = q.fragmentId → p = q

theorem RowOp.after_live {op : RowOp} {p : Placement} {status : PlacementStatus}
    (becomes : op.after p = some status) (live : (p.setStatus status).live = true) :
    p.live = true ∨ op.stores p = true := by
  cases op <;>
    simp only [after, stores, Placement.live, Placement.held, Placement.setStatus] at * <;> grind

namespace UniqueLive

variable {next : Nat} {op : RowOp} {rows : List Placement}

theorem same_row (h : UniqueLive rows) (alone : op.Alone rows) {p q : Placement} (member : p ∈ rows)
    (member' : q ∈ rows) (before : p.live = true ∨ op.stores p = true)
    (before' : q.live = true ∨ op.stores q = true) (same : p.fragmentId = q.fragmentId) :
    p = q := by
  cases op with
  | restore ids =>
    rcases before with live | chosen
    · rcases before' with live' | chosen'
      · exact h p member q member' live live' same
      · exact alone q member' chosen' p member same (.inl live)
    · exact (alone p member chosen q member' same.symm before').symm
  | _ =>
    refine h p member q member' (before.elim id ?_) (before'.elim id ?_) same <;>
      simp +contextual [RowOp.stores, Placement.live]

theorem clear (h : UniqueLive rows) (alone : op.Alone rows) : op.Clear rows :=
  fun _ member chosen _ member' same stored => h.same_row alone member' member
    (stored.imp_left fun isStored => by simp [Placement.live, isStored]) (.inr chosen) same

theorem apply (h : UniqueLive rows) (alone : op.Alone rows) : UniqueLive (op.apply next rows) := by
  intro p' inNew q' inNew' live live' same
  have origin : ∀ r' ∈ op.apply next rows, r'.live = true →
      (∃ r ∈ rows, ∃ status, op.after r = some status ∧ r' = r.setStatus status ∧
        (r.live = true ∨ op.stores r = true)) ∨ r' ∈ op.added next := by
    intro r' member isLive
    refine (RowOp.mem_apply.mp member).imp_left ?_
    rintro ⟨r, inRows, becomes, isNew⟩
    exact ⟨r, inRows, _, becomes, isNew.symm, RowOp.after_live becomes (isNew ▸ isLive)⟩
  -- a new row is for a fragment without a live one
  have apart : ∀ r' ∈ op.added next, ∀ r ∈ rows, r.fragmentId = r'.fragmentId →
      ¬ (r.live = true ∨ op.stores r = true) := by
    intro r' added r member ofFragment
    cases op with
    | insert f n =>
      rw [List.mem_singleton.mp added] at ofFragment
      simp [alone r member ofFragment, RowOp.stores]
    | _ => cases added
  rcases origin p' inNew live with ⟨p, inRows, status, becomes, rfl, before⟩ | added
  · rcases origin q' inNew' live' with ⟨q, inRows', status', becomes', rfl, before'⟩ | added'
    · obtain rfl := h.same_row alone inRows inRows' before before' same
      rw [Option.some.inj (becomes.symm.trans becomes')]
    · exact absurd before (apart q' added' p inRows same)
  · rcases origin q' inNew' live' with ⟨q, inRows', _, -, rfl, before'⟩ | added'
    · exact absurd before' (apart p' added q inRows' same.symm)
    · cases op with
      | insert f n => exact (List.mem_singleton.mp added).trans (List.mem_singleton.mp added').symm
      | _ => cases added

end UniqueLive

/-- The causal form: a run has one stored copy a fragment if nothing is inserted or restored
for a fragment while another copy of it is pending or stored. -/
theorem one_copy_of_alone (sigOk : SigCheck) (events : List Event)
    (alone : EveryStep (step sigOk) (fun s e _ => (rowOp s e).Alone s.db.placements)
      System.init events) :
    EveryState (step sigOk) OneStoredCopy System.init events := by
  refine EveryState.mono (P := fun s => s.db.Schema ∧ UniqueLive s.db.placements) ?_
    (EveryState.of_step ?_ ⟨DB.Schema.empty, fun p member => by cases member⟩ alone)
  · intro s inside
    have unique : UniqueStored s.db.placements := fun p member q member' stored stored' =>
      inside.2 p member q member' (by simp [Placement.live, stored])
        (by simp [Placement.live, stored'])
    exact ⟨unique, chunkHealth_eq_storedShards inside.1 unique⟩
  · intro s e t inside moved good
    refine ⟨step_schema s e t inside.1 moved, ?_⟩
    rw [step_placements moved]
    exact inside.2.apply good

namespace Sample

/-- A node with a shard goes offline and its shard is planned onto node 14.  The
node returns, proves that it still has the shard, and gets its row back; then the
repair commits. -/
def flap : List Event :=
  [.act (.nodeOffline (node 0).id),
    .request (.planRepair chunk.id), .move 2 .load,
    .move 2 (.place (env fun i => i = 14)), .move 2 .insert,
    .request (.nodeOnline (node 0).id), .move 3 (.revalidate fun _ => true), .move 3 .restore,
    .request (.commitRepair chunk.id [wire 0 14] [target 15 0 14]), .move 4 .commit]

/-- The placements after the flap: shard 0 is stored twice. -/
def doubled : List Placement :=
  ((List.range 14).map fun i => placement (i + 1) i i .stored) ++ [placement 15 0 14 .stored]

theorem flap_doubled :
    (exec (step toySig) committed flap).map (fun s => s.db.placements) = some doubled := by
  decide +kernel

end Sample

/-- Restoring the returned node's copy while its repair is pending ends with two
stored copies. -/
theorem flap_stores_two_copies :
    ¬ EveryState (step toySig) OneStoredCopy System.init (upload ++ flap) := by
  intro all
  obtain ⟨s, run, placements⟩ := Option.map_eq_some_iff.mp flap_doubled
  have last := all.last (by rw [exec_append, upload_committed]; exact run)
  have unique := last.1
  rw [placements] at unique
  have same := unique (placement 1 0 0 .stored) (by decide)
    (placement 15 0 14 .stored) (by decide) rfl rfl rfl
  exact absurd (congrArg Placement.id same) (by decide)

end StoragePlatform
