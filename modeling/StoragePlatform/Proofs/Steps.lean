/-
Module: StoragePlatform.Proofs.Steps
Purpose: What one step of the system can do: an inversion of `step` into the
  store statement it runs, and from it the constraints, the placement operation
  and the frame of every step.
Trusted boundary: none
Main exports: rowOp, Written, step_written, step_placements, step_schema, step_inv
-/
import StoragePlatform.System
import StoragePlatform.PlacementTable

namespace StoragePlatform

open Lib List

variable {s : System} {e : Event} {f n ownerId versionId : Uuid} {stored : List Uuid} {db db' : DB}
variable {err : StoreErr} {result : File × FileVersion} {call call' : Call} {m : Move} {a : Action}
variable {opened : PlannedUpload}

/-! ### The placement operation of an event -/

/-- `CommitUpload` reaches its UPDATEs and is not rolled back. -/
def DB.uploadCommits (db : DB) (ownerId versionId : Uuid) (stored : List Uuid) : Bool :=
  match db.scanVersion ownerId versionId with
  | .error _ => false
  | .ok (_, v) =>
    v.status = .pending ∧
      { db with placements := markStored stored db.placements }.shortChunks versionId = []

/-- The INSERT finds its fragment and node and no row for the pair. -/
def DB.insertAdds (db : DB) (fragmentId nodeId : Uuid) : Bool :=
  (db.fragments.any fun fr => fr.id = fragmentId) ∧ (db.nodes.any fun n => n.id = nodeId) ∧
    ¬ db.placements.any fun p => p.fragmentId = fragmentId ∧ p.nodeId = nodeId

def DB.hasFragment (db : DB) (p : Placement) : Bool :=
  db.fragments.any fun fr => fr.id = p.fragmentId

def moveOp (db : DB) : Call → Move → RowOp
  | .inserting _ _ ((fragmentId, nodeId) :: _), .insert =>
    if db.insertAdds fragmentId nodeId then .insert fragmentId nodeId else .keep
  | .uploadFailed planned, .abort =>
    if planned.resume then .keep
    else .purge fun p => db.fragmentOfVersion planned.version.id p.fragmentId
  | .committing (.upload ownerId versionId) _ _ stored, .commit =>
    if db.uploadCommits ownerId versionId stored then .store stored else .keep
  | .committing .repair _ _ stored, .commit => .store stored
  | .flapRestoring restore _, .restore => .restore restore
  | .flapExpiring expire, .expire => .expire fun p => p.status = .lost ∧ p.id ∈ expire
  | .deleting f, .delete _ => .expire (db.placementOf f.inDelete)
  | _, _ => .keep

def actOp (db : DB) : Action → RowOp
  | .nodeOffline nodeId => .lose fun p => p.nodeId = nodeId ∧ db.hasFragment p
  | .placementLost fragmentId nodeId =>
    .lose fun p => p.fragmentId = fragmentId ∧ p.nodeId = nodeId ∧ db.hasFragment p
  | .confirmDeleted placementId => .reap placementId
  | _ => .keep

/-- The operation on the placement table an event stands for. -/
def rowOp (s : System) : Event → RowOp
  | .request _ => .keep
  | .move i m =>
    match s.calls[i]? with
    | none => .keep
    | some call => moveOp s.db call m
  | .act a => actOp s.db a

theorem moveOp_crash (db : DB) (call : Call) : moveOp db call .crash = .keep := by
  unfold moveOp
  split <;> simp_all

theorem moveOp_fail (db : DB) (call : Call) : moveOp db call .fail = .keep := by
  unfold moveOp
  split <;> simp_all

/-- Only an INSERT step of a plan adds a row. -/
theorem rowOp_insert (op : rowOp s e = .insert f n) :
    s.db.insertAdds f n = true ∧ ∃ i plan assigns todo, e = .move i .insert ∧
      s.calls[i]? = some (.inserting plan assigns ((f, n) :: todo)) := by
  cases e with
  | request r => simp [rowOp] at op
  | act a => cases a <;> simp [rowOp, actOp] at op
  | move i m =>
    simp only [rowOp] at op
    split at op
    · cases op
    rename_i call current
    unfold moveOp at op
    split at op
    · rename_i plan assigns f' n' todo
      split at op <;> cases op
      rename_i adds
      exact ⟨adds, i, plan, assigns, todo, rfl, current⟩
    all_goals first | cases op | (split at op <;> cases op)

/-- Only the transaction of a commit call marks rows stored by fragment. -/
theorem rowOp_store (op : rowOp s e = .store stored) :
    ∃ i kind wires targets, e = .move i .commit ∧
      s.calls[i]? = some (.committing kind wires targets stored) := by
  cases e with
  | request r => simp [rowOp] at op
  | act a => cases a <;> simp [rowOp, actOp] at op
  | move i m =>
    simp only [rowOp] at op
    split at op
    · cases op
    rename_i call current
    unfold moveOp at op
    split at op
    case h_3 ownerId versionId wires targets fids =>
      split at op <;> cases op
      exact ⟨i, _, wires, targets, rfl, current⟩
    case h_4 wires targets fids =>
      cases op
      exact ⟨i, _, wires, targets, rfl, current⟩
    all_goals first | cases op | (split at op <;> cases op)

/-! ### The two statements that may have no effect -/

theorem DB.insertPlacement_error (refused : db.insertPlacement f n = .error err) :
    db.insertAdds f n = false := by
  simp only [insertPlacement] at refused
  simp only [insertAdds]
  split at refused
  · grind
  · split at refused <;> cases refused

theorem DB.insertPlacement_ok (inserted : db.insertPlacement f n = .ok db') :
    db' = { db with
      placements := (if db.insertAdds f n then RowOp.insert f n else .keep).apply
        db.nextPlacementId db.placements
      nextPlacementId := db.nextPlacementId + 1 } := by
  simp only [insertPlacement] at inserted
  split at inserted
  · cases inserted
  rename_i present
  rw [not_or, Decidable.not_not, Decidable.not_not] at present
  split at inserted
  · rename_i taken
    have adds : db.insertAdds f n = false := by simp only [insertAdds, taken]; simp
    cases inserted
    simp [adds]
  · rename_i free
    have adds : db.insertAdds f n = true := by simp only [insertAdds, present, free]; simp
    cases inserted
    simp [adds]

theorem DB.commitUpload_error (refused : db.commitUpload ownerId versionId stored = .error err) :
    db.uploadCommits ownerId versionId stored = false := by
  cases found : db.scanVersion ownerId versionId with
  | error e => simp only [uploadCommits, found]
  | ok row =>
    obtain ⟨f, v⟩ := row
    simp only [commitUpload, found] at refused
    simp only [uploadCommits, found]
    split at refused
    · cases refused
    · grind

theorem DB.commitUpload_ok
    (committed : db.commitUpload ownerId versionId stored = .ok (result, db')) :
    db'.placements =
      (if db.uploadCommits ownerId versionId stored then RowOp.store stored else .keep).apply
        db.nextPlacementId db.placements := by
  cases commitUpload_inv committed with
  | already found before =>
    have noop : db.uploadCommits ownerId versionId stored = false := by
      simp [uploadCommits, found, before]
    simp [noop]
  | now found pending enough =>
    have commits : db.uploadCommits ownerId versionId stored = true := by
      simp only [uploadCommits, found]
      grind
    simp only [commits, if_true, RowOp.apply_store]

/-! ### Inversion -/

/-- How a call can move on: the outcomes of `DB.advance`, one by one. -/
inductive Advanced (db : DB) : Call → Move → Call → DB → Prop
  | crashed {call : Call} : Advanced db call .crash .done db
  | placingFailed {plan : Planner} : Advanced db (.placing plan) .fail plan.failed db
  | insertingFailed {plan : Planner} {assigns : List PlaceAssign} {todo : List (Uuid × Uuid)} :
      Advanced db (.inserting plan assigns todo) .fail plan.failed db
  | failed {call : Call} : Advanced db call .fail .done db
  | loaded {ch : Chunk} :
      Advanced db (.repairFound ch) .load (.placing (.repair ch (db.repairFragments ch.id))) db
  | nothingToPlace {plan : Planner} {env : PlaceEnv} :
      Advanced db (.placing plan) (.place env) (.inserting plan [] []) db
  | placeRefused {plan : Planner} {env : PlaceEnv} :
      Advanced db (.placing plan) (.place env) plan.failed db
  | placed {plan : Planner} {env : PlaceEnv} {assigns : List PlaceAssign}
      (ok : db.place env plan.needs = .ok assigns) :
      Advanced db (.placing plan) (.place env) (.inserting plan assigns (placementRows assigns)) db
  | insertRefused {plan : Planner} {assigns : List PlaceAssign} {f n : Uuid}
      {todo : List (Uuid × Uuid)} {err : StoreErr}
      (refused : db.insertPlacement f n = .error err) :
      Advanced db (.inserting plan assigns ((f, n) :: todo)) .insert plan.failed db
  | inserted {plan : Planner} {assigns : List PlaceAssign} {f n : Uuid}
      {todo : List (Uuid × Uuid)} {db' : DB} (ok : db.insertPlacement f n = .ok db') :
      Advanced db (.inserting plan assigns ((f, n) :: todo)) .insert
        (.inserting plan assigns todo) db'
  | planRefused {planned : PlannedUpload} {assigns : List PlaceAssign} {sign : SignTicket} :
      Advanced db (.inserting (.upload planned) assigns []) (.finish sign)
        (.uploadFailed planned) db
  | planReturned {planned : PlannedUpload} {assigns : List PlaceAssign} {sign : SignTicket}
      {result : PlanResult} (ok : db.uploadPlan sign planned assigns = .ok result) :
      Advanced db (.inserting (.upload planned) assigns []) (.finish sign) .done db
  | repairReturned {ch : Chunk} {frags : List RepairFragment} {assigns : List PlaceAssign}
      {sign : SignTicket} :
      Advanced db (.inserting (.repair ch frags) assigns []) (.finish sign) .done db
  | resumedLeft {planned : PlannedUpload} (resumed : planned.resume = true) :
      Advanced db (.uploadFailed planned) .abort .done db
  | aborted {planned : PlannedUpload} (fresh : planned.resume = false) :
      Advanced db (.uploadFailed planned) .abort .done (db.abortUpload planned.version.id)
  | uploadRefused {ownerId versionId : Uuid} {wires : List Text} {targets : List PlacementTarget}
      {stored : List Uuid} {err : StoreErr}
      (refused : db.commitUpload ownerId versionId stored = .error err) :
      Advanced db (.committing (.upload ownerId versionId) wires targets stored) .commit .done db
  | uploaded {ownerId versionId : Uuid} {wires : List Text} {targets : List PlacementTarget}
      {stored : List Uuid} {result : File × FileVersion} {db' : DB}
      (ok : db.commitUpload ownerId versionId stored = .ok (result, db')) :
      Advanced db (.committing (.upload ownerId versionId) wires targets stored) .commit .done db'
  | repaired {wires : List Text} {targets : List PlacementTarget} {stored : List Uuid} :
      Advanced db (.committing .repair wires targets stored) .commit .done
        (db.commitRepairPlacements stored)
  | revalidated {rows : List LostPlacement} {verdict : Nat → Bool} :
      Advanced db (.flapListed rows) (.revalidate verdict)
        (.flapRestoring
          (((rows.filter fun row => verdict row.placementId).filter fun row =>
            !row.reconstructedElsewhere).map LostPlacement.placementId)
          (((rows.filter fun row => verdict row.placementId).filter fun row =>
            row.reconstructedElsewhere).map LostPlacement.placementId)) db
  | restored {restore expire : List Nat} :
      Advanced db (.flapRestoring restore expire) .restore (.flapExpiring expire)
        (db.restorePlacements restore)
  | expired {expire : List Nat} :
      Advanced db (.flapExpiring expire) .expire .done (db.expirePlacements expire)
  | deleted {f : File} {now : Time} :
      Advanced db (.deleting f) (.delete now) .done (db.softDeleteTx f now)

theorem advance_inv (moved : db.advance call m = some (call', db')) :
    Advanced db call m call' db' := by
  unfold DB.advance at moved
  repeat' split at moved
  all_goals cases moved
  · exact .crashed
  · exact .placingFailed
  · exact .insertingFailed
  · exact .failed
  · exact .loaded
  · exact .nothingToPlace
  · exact .placeRefused
  · exact .placed ‹_›
  · exact .insertRefused ‹_›
  · exact .inserted ‹_›
  · exact .planRefused
  · exact .planReturned ‹_›
  · exact .repairReturned
  · exact .resumedLeft ‹_›
  · exact .aborted (Bool.eq_false_iff.mpr ‹_›)
  · exact .uploadRefused ‹_›
  · exact .uploaded ‹_›
  · exact .repaired
  · exact .revalidated
  · exact .restored
  · exact .expired
  · exact .deleted

/-- What a request can begin. -/
inductive CallBegun (sigOk : SigCheck) (db : DB) : Request → Call → DB → Prop
  | planUpload {ownerId : Uuid} {m : UploadManifest} {gen : Nat → Uuid} {planned : PlannedUpload}
      {db' : DB} (ok : db.beginUpload ownerId m gen = .ok (planned, db')) :
      CallBegun sigOk db (.planUpload ownerId m gen) (.placing (.upload planned)) db'
  | commitUpload {ownerId versionId : Uuid} {wires : List Text} {targets : List PlacementTarget}
      {stored : List Uuid} (read : targets.Perm (db.pendingTargetsForVersion versionId))
      (matched : uploadReceipts sigOk targets wires = .ok stored) :
      CallBegun sigOk db (.commitUpload ownerId versionId wires targets)
        (.committing (.upload ownerId versionId) wires targets stored) db
  | planRepair {chunkId : Uuid} {ch : Chunk} (found : db.repairChunk chunkId = .ok ch) :
      CallBegun sigOk db (.planRepair chunkId) (.repairFound ch) db
  | commitRepair {chunkId : Uuid} {wires : List Text} {targets : List PlacementTarget}
      {stored : List Uuid} (read : targets.Perm (db.pendingTargetsForChunk chunkId))
      (matched : repairReceipts sigOk targets wires = .ok stored) :
      CallBegun sigOk db (.commitRepair chunkId wires targets)
        (.committing .repair wires targets stored) db
  | nodeOnline {nodeId : Uuid} :
      CallBegun sigOk db (.nodeOnline nodeId) (.flapListed (db.listLostOnNode nodeId)) db
  | deleteFile {ownerId fileId : Uuid} {f : File} (found : db.fileById ownerId fileId = .ok f) :
      CallBegun sigOk db (.deleteFile ownerId fileId) (.deleting f) db

theorem begin_inv {sigOk : SigCheck} {r : Request} (begun : db.begin sigOk r = some (call, db')) :
    CallBegun sigOk db r call db' := by
  unfold DB.begin at begun
  repeat' split at begun
  all_goals cases begun
  · exact .planUpload ‹_›
  · exact .commitUpload (isPerm_iff.mp ‹_›) ‹_›
  · exact .planRepair ‹_›
  · exact .commitRepair (isPerm_iff.mp ‹_›) ‹_›
  · exact .nodeOnline
  · exact .deleteFile ‹_›

/-- The three kinds of steps, with the calls they leave. -/
inductive Stepped (sigOk : SigCheck) (s : System) : Event → System → Prop
  | request {r : Request} {call : Call} {db' : DB}
      (begun : s.db.begin sigOk r = some (call, db')) :
      Stepped sigOk s (.request r) { db := db', calls := s.calls ++ [call] }
  | move {i : Nat} {m : Move} {call call' : Call} {db' : DB} (current : s.calls[i]? = some call)
      (advanced : Advanced s.db call m call' db') :
      Stepped sigOk s (.move i m) { db := db', calls := s.calls.set i call' }
  | act {a : Action} {db' : DB} (acted : s.db.act a = some db') :
      Stepped sigOk s (.act a) { s with db := db' }

theorem step_inv {sigOk : SigCheck} {t : System} (moved : step sigOk s e = some t) :
    Stepped sigOk s e t := by
  cases e with
  | request r =>
    simp only [step] at moved
    split at moved <;> cases moved
    rename_i begun
    exact .request begun
  | move i m =>
    simp only [step] at moved
    split at moved
    · cases moved
    rename_i current
    split at moved <;> cases moved
    rename_i advanced
    exact .move current (advance_inv advanced)
  | act a =>
    simp only [step] at moved
    split at moved <;> cases moved
    rename_i acted
    exact .act acted

/-- The write of an event, with the call that makes it.  The events are taken
apart here and nowhere else. -/
inductive Written (s : System) : Event → DB → Prop
  | nothing {e : Event} (quiet : rowOp s e = .keep) : Written s e s.db
  | begun {ownerId : Uuid} {m : UploadManifest} {gen : Nat → Uuid} {planned : PlannedUpload}
      {db' : DB} (ok : s.db.beginUpload ownerId m gen = .ok (planned, db')) :
      Written s (.request (.planUpload ownerId m gen)) db'
  | inserted {i : Nat} {plan : Planner} {assigns : List PlaceAssign} {f n : Uuid}
      {todo : List (Uuid × Uuid)} {db' : DB}
      (call : s.calls[i]? = some (.inserting plan assigns ((f, n) :: todo)))
      (ok : s.db.insertPlacement f n = .ok db') : Written s (.move i .insert) db'
  | aborted {i : Nat} {planned : PlannedUpload}
      (call : s.calls[i]? = some (.uploadFailed planned)) (fresh : planned.resume = false) :
      Written s (.move i .abort) (s.db.abortUpload planned.version.id)
  | uploaded {i : Nat} {ownerId versionId : Uuid} {wires : List Text}
      {targets : List PlacementTarget} {stored : List Uuid} {result : File × FileVersion}
      {db' : DB}
      (call : s.calls[i]? =
        some (.committing (.upload ownerId versionId) wires targets stored))
      (ok : s.db.commitUpload ownerId versionId stored = .ok (result, db')) :
      Written s (.move i .commit) db'
  | repaired {i : Nat} {wires : List Text} {targets : List PlacementTarget}
      {stored : List Uuid}
      (call : s.calls[i]? = some (.committing .repair wires targets stored)) :
      Written s (.move i .commit) (s.db.commitRepairPlacements stored)
  | restored {i : Nat} {restore expire : List Nat}
      (call : s.calls[i]? = some (.flapRestoring restore expire)) :
      Written s (.move i .restore) (s.db.restorePlacements restore)
  | expired {i : Nat} {expire : List Nat} (call : s.calls[i]? = some (.flapExpiring expire)) :
      Written s (.move i .expire) (s.db.expirePlacements expire)
  | deleted {i : Nat} {f : File} {now : Time} (call : s.calls[i]? = some (.deleting f)) :
      Written s (.move i (.delete now)) (s.db.softDeleteTx f now)
  | acted {a : Action} {db' : DB} (ok : s.db.act a = some db') : Written s (.act a) db'

variable {sigOk : SigCheck} {t : System}

theorem begin_written {r : Request} (begun : s.db.begin sigOk r = some (call, db')) :
    Written s (.request r) db' := by
  cases begin_inv begun with
  | planUpload ok => exact .begun ok
  | _ => exact .nothing rfl

theorem Advanced.written {i : Nat} (current : s.calls[i]? = some call)
    (advanced : Advanced s.db call m call' db') : Written s (.move i m) db' := by
  have quiet : moveOp s.db call m = .keep → Written s (.move i m) s.db := by
    intro keep
    exact .nothing (by simp only [rowOp, current, keep])
  cases advanced with
  | crashed => exact quiet (moveOp_crash _ _)
  | placingFailed | insertingFailed | failed => exact quiet (moveOp_fail _ _)
  | loaded | nothingToPlace | placeRefused | placed | planRefused | planReturned
  | repairReturned | revalidated => exact quiet rfl
  | insertRefused refused => exact quiet (by simp [moveOp, DB.insertPlacement_error refused])
  | inserted ok => exact .inserted current ok
  | resumedLeft resumed => exact quiet (by simp [moveOp, resumed])
  | aborted fresh => exact .aborted current fresh
  | uploadRefused refused => exact quiet (by simp [moveOp, DB.commitUpload_error refused])
  | uploaded ok => exact .uploaded current ok
  | repaired => exact .repaired current
  | restored => exact .restored current
  | expired => exact .expired current
  | deleted => exact .deleted current

theorem step_written (moved : step sigOk s e = some t) : Written s e t.db := by
  cases step_inv moved with
  | request begun => exact begin_written begun
  | move current advanced => exact advanced.written current
  | act acted => exact .acted acted

/-! ### What planning an upload adds -/

/-- The rows `BeginUpload` may add; nodes and placements are as before. -/
structure Extends (db db' : DB) : Prop where
  nodes : db'.nodes = db.nodes
  placements : db'.placements = db.placements
  next : db'.nextPlacementId = db.nextPlacementId
  buckets : db'.buckets = db.buckets
  tickets : db'.downloadTickets = db.downloadTickets
  files : db.files <+: db'.files
  new_live : ∀ f ∈ db'.files, f ∈ db.files ∨ f.deletedAt = none
  versions : db.versions <+: db'.versions
  chunks : db.chunks <+: db'.chunks
  fragments : db.fragments <+: db'.fragments

namespace Extends

theorem refl (db : DB) : Extends db db :=
  ⟨rfl, rfl, rfl, rfl, rfl, prefix_refl _, fun _ old => .inl old, prefix_refl _,
    prefix_refl _, prefix_refl _⟩

theorem trans {a b c : DB} (ab : Extends a b) (bc : Extends b c) : Extends a c where
  nodes := bc.nodes.trans ab.nodes
  placements := bc.placements.trans ab.placements
  next := bc.next.trans ab.next
  buckets := bc.buckets.trans ab.buckets
  tickets := bc.tickets.trans ab.tickets
  files := ab.files.trans bc.files
  new_live f member := (bc.new_live f member).elim (ab.new_live f) Or.inr
  versions := ab.versions.trans bc.versions
  chunks := ab.chunks.trans bc.chunks
  fragments := ab.fragments.trans bc.fragments

theorem insertUpload {file : File} {m : UploadManifest} {gen : Nat → Uuid}
    (ok : db.insertUpload file m gen = .ok (opened, db')) : Extends db db' := by
  obtain ⟨-, rows, -⟩ := DB.insertUpload_inv ok
  rw [(DB.insertChunks_rows rows).1]
  exact
    { refl db with
      versions := prefix_append _ _
      chunks := prefix_append _ _
      fragments := prefix_append _ _ }

theorem beginUpload {m : UploadManifest} {gen : Nat → Uuid}
    (ok : db.beginUpload ownerId m gen = .ok (opened, db')) : Extends db db' := by
  cases (DB.beginUpload_inv ok).1 with
  | newFile clean owned free fresh inserted =>
    refine trans ?_ (insertUpload inserted)
    refine { refl db with files := prefix_append _ _, new_live := ?_ }
    intro f member
    rcases mem_append_row.mp member with old | rfl
    · exact .inl old
    · exact .inr rfl
  | newVersion clean owned found inactive plain none_pending inserted => exact insertUpload inserted
  | resumed clean owned found uploading pending same => exact refl _

end Extends

/-! ### Actions -/

theorem DB.markPlacementLost_eq (db : DB) (f n : Uuid) :
    (db.markPlacementLost f n).2 =
      { db with
        placements := updateWhere (fun p => p.fragmentId = f ∧ p.nodeId = n ∧ p.live ∧
          db.hasFragment p) (Placement.setStatus .lost) db.placements } := by
  simp only [markPlacementLost]
  split
  · rename_i missing
    rw [updateWhere_of_none]
    intro p member
    simp only [find?_eq_none, Prod.forall, DB.mem_placedFragments, decide_eq_true_eq] at missing
    simp only [hasFragment, any_eq_true, decide_eq_true_eq, decide_eq_false_iff_not]
    rintro ⟨onFragment, onNode, live, fr, inTable, joined⟩
    exact missing p fr ⟨member, inTable, joined⟩ ⟨onFragment, onNode, live⟩
  · rfl

/-- What an action does when it is not refused. -/
inductive Acted (db : DB) : Action → DB → Prop
  | createBucket {b : Bucket} (fresh : ∀ old ∈ db.buckets, old.id ≠ b.id) :
      Acted db (.createBucket b) { db with buckets := db.buckets ++ [b] }
  | createFolder {ownerId bucketId id : Uuid} {path : Text} {f : File}
      (created : db.createFolder ownerId bucketId path id =
        .ok (f, { db with files := db.files ++ [f] })) :
      Acted db (.createFolder ownerId bucketId path id) { db with files := db.files ++ [f] }
  | renameNothing {ownerId fileId : Uuid} {newPath : Text} {order : List Uuid} :
      Acted db (.renameFile ownerId fileId newPath order) db
  | renameFile {ownerId fileId : Uuid} {newPath path : Text} {order : List Uuid} {f : File}
      {sel : File → Bool} {rest : File → Text}
      (renamed : db.renameFile ownerId fileId newPath order = .ok (f, { db with
        files := updateWhere sel (fun g => { g with path := path ++ rest g }) db.files })) :
      Acted db (.renameFile ownerId fileId newPath order) { db with
        files := updateWhere sel (fun g => { g with path := path ++ rest g }) db.files }
  | registerNode {n : Node} (fresh : ∀ old ∈ db.nodes, old.id ≠ n.id) :
      Acted db (.registerNode n) { db with nodes := db.nodes ++ [n] }
  | updateNode {nodeId : Uuid} {u : NodeUpdate} :
      Acted db (.updateNode nodeId u)
        { db with nodes := updateWhere (fun n => n.id = nodeId) (Node.update u) db.nodes }
  | nodeOffline {nodeId : Uuid} :
      Acted db (.nodeOffline nodeId) (db.markPlacementsLostByNode nodeId).2
  | placementLost {f n : Uuid} :
      Acted db (.placementLost f n)
        { db with
          placements := updateWhere (fun p => p.fragmentId = f ∧ p.nodeId = n ∧ p.live ∧
            db.hasFragment p) (Placement.setStatus .lost) db.placements }
  | confirmDeleted {id : Nat} : Acted db (.confirmDeleted id) (db.markPlacementDeleted id)

theorem act_inv (ok : db.act a = some db') : Acted db a db' := by
  cases a with
  | createBucket b =>
    simp only [DB.act] at ok
    split at ok <;> cases ok
    rename_i fresh
    exact .createBucket (by simpa using fresh)
  | createFolder ownerId bucketId path id =>
    simp only [DB.act] at ok
    split at ok <;> cases ok
    rename_i created
    obtain rfl := (DB.createFolder_inv created).rows
    exact .createFolder created
  | renameFile ownerId fileId newPath order =>
    simp only [DB.act] at ok
    split at ok <;> cases ok
    rename_i renamed
    rcases DB.renameFile_inv renamed with rfl | ⟨_, _, _, _, _, _, _, _, rfl⟩
    · exact .renameNothing
    · exact .renameFile renamed
  | registerNode n =>
    simp only [DB.act] at ok
    split at ok <;> cases ok
    rename_i fresh
    exact .registerNode (by simpa using fresh)
  | updateNode nodeId u =>
    cases ok
    exact .updateNode
  | nodeOffline nodeId =>
    cases ok
    exact .nodeOffline
  | placementLost f n =>
    simp only [DB.act, Option.some.injEq] at ok
    rw [← ok, DB.markPlacementLost_eq]
    exact .placementLost
  | confirmDeleted id =>
    cases ok
    exact .confirmDeleted

/-- The files, nodes and buckets actions leave the placements alone. -/
theorem act_placements (ok : db.act a = some db') :
    db'.placements = (actOp db a).apply db.nextPlacementId db.placements := by
  cases act_inv ok with
  | nodeOffline =>
    refine (RowOp.apply_eq_updateWhere (fun p => ?_) _ rfl _).symm
    simp only [actOp, RowOp.after, DB.hasFragment]
    grind
  | placementLost | confirmDeleted =>
    refine (RowOp.apply_eq_updateWhere (fun p => ?_) _ rfl _).symm
    simp only [actOp, RowOp.after]
    grind
  | _ => simp [actOp]

/-! ### Refinement of the placement table -/

theorem Written.placements (written : Written s e db') :
    db'.placements = (rowOp s e).apply s.db.nextPlacementId s.db.placements := by
  cases written with
  | nothing quiet => simp [quiet]
  | begun ok => simp [rowOp, (Extends.beginUpload ok).placements]
  | inserted call ok => simp only [rowOp, call, moveOp, DB.insertPlacement_ok ok]
  | aborted call fresh =>
    simp only [rowOp, call, moveOp, fresh, Bool.false_eq_true, if_false, RowOp.apply_purge]
    rw [DB.abortUpload]
    split <;> rfl
  | uploaded call ok => simp only [rowOp, call, moveOp, DB.commitUpload_ok ok]
  | repaired call =>
    simp only [rowOp, call, moveOp, RowOp.apply_store, DB.commitRepairPlacements]
  | restored call | expired call | deleted call =>
    refine (RowOp.apply_eq_updateWhere (fun p => ?_) _ (by simp [rowOp, call, moveOp,
      RowOp.added]) _).symm
    simp only [rowOp, call, moveOp, RowOp.after, Placement.held]
    grind
  | acted ok => exact act_placements ok

/-- Every step of the system is one operation of the placement table. -/
theorem step_placements (moved : step sigOk s e = some t) :
    t.db.placements = (rowOp s e).apply s.db.nextPlacementId s.db.placements :=
  (step_written moved).placements

/-! ### Constraints -/

theorem act_schema (h : db.Schema) (ok : db.act a = some db') : db'.Schema := by
  cases act_inv ok with
  | createBucket fresh => exact { h with }
  | createFolder created => exact h.createFolder created
  | renameNothing => exact h
  | renameFile renamed => exact h.renameFile renamed
  | registerNode fresh =>
    exact
      { h with
        node_pk := h.node_pk.append_singleton fresh
        placement_node := fun p member =>
          (h.placement_node p member).imp fun _ found =>
            ⟨mem_append_left _ found.1, found.2⟩ }
  | @updateNode nodeId u =>
    refine
      { h with
        node_pk := UniqueOn.updateWhere (fun _ => by rfl) h.node_pk
        placement_node := fun p member => ?_ }
    obtain ⟨n, inTable, joined⟩ := h.placement_node p member
    obtain ⟨n', inTable', sameId⟩ := Carried.updateWhere (R := fun n n' => n'.id = n.id)
      (fun _ => rfl) (Node.update_id u) db.nodes n inTable
    exact ⟨n', inTable', sameId.trans joined⟩
  | nodeOffline | placementLost | confirmDeleted => exact h.setStatus _ _

theorem Written.schema (written : Written s e db') (h : s.db.Schema) : db'.Schema := by
  cases written with
  | nothing quiet => exact h
  | begun ok => exact h.beginUpload ok
  | inserted call ok => exact h.insertPlacement ok
  | aborted call fresh => exact h.abortUpload _
  | uploaded call ok => exact h.commitUpload ok
  | repaired call => exact h.markStored _
  | restored call => exact h.setStatus _ _
  | expired call => exact h.setStatus _ _
  | deleted call => exact h.softDeleteTx _ _
  | acted ok => exact act_schema h ok

theorem step_schema (s : System) (e : Event) (t : System) (h : s.db.Schema)
    (moved : step sigOk s e = some t) : t.db.Schema :=
  (step_written moved).schema h

/-- The declared constraints hold in every reachable state. -/
theorem reachable_schema (reachable : Reachable sigOk db) : db.Schema := by
  obtain ⟨events, s, run, rfl⟩ := reachable
  exact exec_induction (I := fun s => s.db.Schema) step_schema DB.Schema.empty run

/-! ### What no step takes away -/

/-- Same version up to its status, and settled if it was. -/
structure FileVersion.Kept (v v' : FileVersion) : Prop where
  body : v' = { v with status := v'.status }
  settled : v.status ≠ .pending → v'.status ≠ .pending

def File.Kept (f f' : File) : Prop :=
  f'.id = f.id ∧ f'.bucketId = f.bucketId ∧ (f.deletedAt.isSome → f'.deletedAt.isSome)

def Node.Kept (n n' : Node) : Prop :=
  n'.id = n.id ∧ n'.publicKey = n.publicKey ∧
    n'.ownerId = n.ownerId ∧ n'.region = n.region ∧ n'.asn = n.asn

theorem FileVersion.Kept.refl (v : FileVersion) : v.Kept v := ⟨rfl, fun status => status⟩

theorem FileVersion.Kept.fields {v v' : FileVersion} (kept : v.Kept v') :
    v'.id = v.id ∧ v'.fileId = v.fileId ∧ v'.sizeBytes = v.sizeBytes := by
  rw [kept.body]
  exact ⟨rfl, rfl, rfl⟩

theorem FileVersion.kept_setStatus {sel : FileVersion → Bool} {status : VersionStatus}
    (settles : status ≠ .pending) (versions : List FileVersion) :
    Carried FileVersion.Kept versions
      (updateWhere sel (fun v => { v with status := status }) versions) :=
  Carried.updateWhere .refl (fun _ => ⟨rfl, fun _ => settles⟩) versions

theorem File.Kept.refl (f : File) : f.Kept f := ⟨rfl, rfl, fun deleted => deleted⟩

theorem Node.Kept.refl (n : Node) : n.Kept n := ⟨rfl, rfl, rfl, rfl, rfl⟩

/-- Fragments and chunks are immutable, versions keep all but their status, files their
bucket and nodes their key and site; a deleted file stays deleted, at most one bucket is
new, and the issued tickets are untouched. -/
structure Grows (db db' : DB) : Prop where
  fragments : db.fragments ⊆ db'.fragments
  chunks : db.chunks ⊆ db'.chunks
  versions : Carried FileVersion.Kept db.versions db'.versions
  files : Carried File.Kept db.files db'.files
  nodes : Carried Node.Kept db.nodes db'.nodes
  buckets : db'.buckets = db.buckets ∨
    ∃ b, (∀ old ∈ db.buckets, old.id ≠ b.id) ∧ db'.buckets = db.buckets ++ [b]
  tickets : db'.downloadTickets = db.downloadTickets

namespace Grows

theorem refl (db : DB) : Grows db db where
  fragments := List.Subset.refl _
  chunks := List.Subset.refl _
  versions := .of_subset .refl (List.Subset.refl _)
  files := .of_subset .refl (List.Subset.refl _)
  nodes := .of_subset .refl (List.Subset.refl _)
  buckets := .inl rfl
  tickets := rfl

theorem of_extends (more : Extends db db') : Grows db db' where
  fragments := more.fragments.subset
  chunks := more.chunks.subset
  versions := .of_subset .refl more.versions.subset
  files := .of_subset .refl more.files.subset
  nodes := .of_subset .refl (more.nodes ▸ List.Subset.refl _)
  buckets := .inl more.buckets
  tickets := more.tickets

theorem act (ok : db.act a = some db') : Grows db db' := by
  cases act_inv ok with
  | @createBucket b fresh => exact { refl db with buckets := .inr ⟨b, fresh, rfl⟩ }
  | createFolder created =>
    exact { refl db with files := .of_subset .refl (subset_append_left _ _) }
  | renameFile renamed =>
    exact { refl db with files := .updateWhere .refl (fun _ => ⟨rfl, rfl, id⟩) _ }
  | registerNode fresh =>
    exact { refl db with nodes := .of_subset .refl (subset_append_left _ _) }
  | updateNode =>
    exact { refl db with nodes := .updateWhere .refl (fun _ => ⟨rfl, rfl, rfl, rfl, rfl⟩) _ }
  | renameNothing | nodeOffline | placementLost | confirmDeleted => exact { refl db with }

theorem commitUpload (committed : db.commitUpload ownerId versionId stored = .ok (result, db')) :
    Grows db db' := by
  cases DB.commitUpload_inv committed with
  | already found before => exact refl _
  | now found pending enough =>
    exact
      { refl db with
        versions := FileVersion.kept_setStatus (by decide) _
        files := .updateWhere .refl (fun _ => ⟨rfl, rfl, id⟩) _ }

theorem abortUpload (db : DB) (versionId : Uuid) : Grows db (db.abortUpload versionId) := by
  rw [DB.abortUpload]
  split
  · exact { refl db with }
  · exact { refl db with versions := FileVersion.kept_setStatus (by decide) _ }

theorem softDeleteTx (db : DB) (f : File) (now : Time) : Grows db (db.softDeleteTx f now) :=
  { refl db with
    versions := FileVersion.kept_setStatus (by decide) _
    files := .updateWhere .refl (fun _ => ⟨rfl, rfl, fun _ => rfl⟩) _ }

variable (grows : Grows db db')
include grows

theorem bucket_pk (unique : UniqueOn Bucket.id db.buckets) : UniqueOn Bucket.id db'.buckets := by
  rcases grows.buckets with same | ⟨b, fresh, added⟩
  · rwa [same]
  · rw [added]
    exact unique.append_singleton fresh

theorem bucket_mem {b : Bucket} (member : b ∈ db.buckets) : b ∈ db'.buckets := by
  rcases grows.buckets with same | ⟨_, _, added⟩
  · rwa [same]
  · rw [added]
    exact mem_append_left _ member

end Grows

theorem Written.grows (written : Written s e db') : Grows s.db db' := by
  cases written with
  | begun ok => exact .of_extends (.beginUpload ok)
  | inserted call ok =>
    rw [DB.insertPlacement_ok ok]
    exact { Grows.refl s.db with }
  | aborted call fresh => exact .abortUpload _ _
  | uploaded call ok => exact .commitUpload ok
  | nothing | repaired | restored | expired => exact { Grows.refl s.db with }
  | deleted call => exact .softDeleteTx _ _ _
  | acted ok => exact .act ok

theorem step_grows (moved : step sigOk s e = some t) : Grows s.db t.db :=
  (step_written moved).grows

/-! ### Where the rows of `files` come from -/

theorem DB.bucketById_mem {id : Uuid} {b : Bucket} (found : db.bucketById ownerId id = .ok b) :
    b ∈ db.buckets ∧ b.id = id ∧ b.ownerId = ownerId := by
  simp only [DB.bucketById] at found
  split at found <;> cases found
  exact mem_of_find ‹_›

/-- A row of `files` after a write: an older one, with its path, its current version or its
deletion time written, or a new one.  `deletes` are the files that may be deleted. -/
inductive FileFrom (db : DB) (deletes : File → Prop) : File → Prop
  | kept {f : File} (old : f ∈ db.files) : FileFrom db deletes f
  | renamed {f : File} {raw path rest : Text} (old : f ∈ db.files)
      (clean : normalizePath raw = .ok path) : FileFrom db deletes { f with path := path ++ rest }
  | committed {f : File} {v : FileVersion} (old : f ∈ db.files) (version : v ∈ db.versions)
      (ofFile : v.fileId = f.id) :
      FileFrom db deletes { f with status := .active, currentVersion := some v.id }
  | deleted {f g : File} {now : Time} (old : g ∈ db.files) (chosen : deletes f)
      (inDelete : f.inDelete g = true) : FileFrom db deletes (g.softDelete now)
  | added {f : File} {b : Bucket} {raw : Text} (bucket : b ∈ db.buckets)
      (ofBucket : b.id = f.bucketId) (clean : normalizePath raw = .ok f.path)
      (live : f.deletedAt = none) (empty : f.currentVersion = none) : FileFrom db deletes f

namespace FileFrom

variable {deletes : File → Prop} {g row : File}

theorem beginUpload {m : UploadManifest} {gen : Nat → Uuid}
    (ok : db.beginUpload ownerId m gen = .ok (opened, db')) (member : row ∈ db'.files) :
    FileFrom db deletes row := by
  cases (DB.beginUpload_inv ok).1 with
  | newFile clean owned free fresh inserted =>
    rw [(DB.insertUpload_files_versions inserted).1] at member
    rcases mem_append_row.mp member with old | rfl
    · exact .kept old
    · obtain ⟨isBucket, sameId, -⟩ := DB.bucketById_mem owned
      exact .added isBucket sameId clean rfl rfl
  | newVersion clean owned found inactive plain none_pending inserted =>
    rw [(DB.insertUpload_files_versions inserted).1] at member
    exact .kept member
  | resumed => exact .kept member

theorem commitUpload (ok : db.commitUpload ownerId versionId stored = .ok (result, db'))
    (member : row ∈ db'.files) : FileFrom db deletes row := by
  cases DB.commitUpload_inv ok with
  | already => exact .kept member
  | now found =>
    rcases mem_updateWhere.mp member with ⟨old, inFiles, chosen, rfl⟩ | ⟨inFiles, -⟩
    · obtain ⟨inVersions, -, -, ofFile, -⟩ := DB.scanVersion_inv found
      exact .committed inFiles inVersions (ofFile.symm.trans (of_decide_eq_true chosen).symm)
    · exact .kept inFiles

theorem createFolder {bucketId id : Uuid} {path : Text}
    (ok : db.createFolder ownerId bucketId path id = .ok (g, db')) (member : row ∈ db'.files) :
    FileFrom db deletes row := by
  obtain ⟨⟨b, owned⟩, ofBucket, clean, -, empty, live, -, -, rfl⟩ := DB.createFolder_inv ok
  rcases mem_append_row.mp member with old | rfl
  · exact .kept old
  · obtain ⟨isBucket, sameId, -⟩ := DB.bucketById_mem owned
    exact .added isBucket (sameId.trans ofBucket.symm) clean live empty

theorem renameFile {fileId : Uuid} {newPath : Text} {order : List Uuid}
    (ok : db.renameFile ownerId fileId newPath order = .ok (g, db')) (member : row ∈ db'.files) :
    FileFrom db deletes row := by
  rcases DB.renameFile_inv ok with rfl | ⟨_, _, _, _, clean, _, _, _, rfl⟩
  · exact .kept member
  · rcases mem_updateWhere.mp member with ⟨old, inFiles, -, rfl⟩ | ⟨inFiles, -⟩
    · exact .renamed inFiles clean
    · exact .kept inFiles

theorem softDeleteTx {now : Time} (chosen : deletes g)
    (member : row ∈ (db.softDeleteTx g now).files) : FileFrom db deletes row := by
  rcases mem_updateWhere.mp member with ⟨old, inFiles, selected, rfl⟩ | ⟨inFiles, -⟩
  · exact .deleted inFiles chosen (of_decide_eq_true selected).1
  · exact .kept inFiles

theorem abortUpload (member : row ∈ (db.abortUpload versionId).files) :
    FileFrom db deletes row := by
  rw [DB.abortUpload] at member
  split at member <;> exact .kept member

end FileFrom

/-- The event is the delete transaction of a file, and the selection is its. -/
def Deletes (s : System) (e : Event) (f : File) : Prop :=
  ∃ i now, e = .move i (.delete now) ∧ s.calls[i]? = some (.deleting f)

theorem Written.fileFrom {row : File} (written : Written s e db') (member : row ∈ db'.files) :
    FileFrom s.db (Deletes s e) row := by
  cases written with
  | begun ok => exact .beginUpload ok member
  | inserted call ok =>
    rw [DB.insertPlacement_ok ok] at member
    exact .kept member
  | aborted call fresh => exact .abortUpload member
  | uploaded call ok => exact .commitUpload ok member
  | deleted call => exact .softDeleteTx ⟨_, _, rfl, call⟩ member
  | acted ok =>
    cases act_inv ok with
    | createFolder created => exact .createFolder created member
    | renameFile renamed => exact .renameFile renamed member
    | _ => exact .kept member
  | _ => exact .kept member

/-! ### What steps do to versions -/

/-- The three things a step does to versions, chunks and fragments: it begins an
upload, it commits one, or no version becomes pending or committed. -/
inductive VersionStep (s : System) : Event → DB → Prop
  | begun {e : Event} {ownerId : Uuid} {m : UploadManifest} {gen : Nat → Uuid}
      {planned : PlannedUpload} {db' : DB}
      (ok : s.db.beginUpload ownerId m gen = .ok (planned, db')) : VersionStep s e db'
  | committed {i : Nat} {ownerId versionId : Uuid} {wires : List Text}
      {targets : List PlacementTarget} {stored : List Uuid} {result : File × FileVersion}
      {db' : DB}
      (call : s.calls[i]? = some (.committing (.upload ownerId versionId) wires targets stored))
      (ok : s.db.commitUpload ownerId versionId stored = .ok (result, db')) :
      VersionStep s (.move i .commit) db'
  | other {e : Event} {db' : DB} (fragments : db'.fragments = s.db.fragments)
      (chunks : db'.chunks = s.db.chunks)
      (versions : ∀ v ∈ db'.versions, v ∈ s.db.versions ∨
        (v.status ≠ .pending ∧ v.status ≠ .committed)) : VersionStep s e db'

/-- An UPDATE that ends versions brings no pending and no committed one. -/
theorem mem_endVersions {sel : FileVersion → Bool} {status : VersionStatus}
    (ends : status ≠ .pending ∧ status ≠ .committed) {rows : List FileVersion} :
    ∀ v ∈ updateWhere sel (fun v => { v with status := status }) rows,
      v ∈ rows ∨ (v.status ≠ .pending ∧ v.status ≠ .committed) := by
  intro v member
  rcases mem_updateWhere.mp member with ⟨old, inRows, chosen, rfl⟩ | ⟨inRows, -⟩
  · exact .inr ends
  · exact .inl inRows

theorem Written.versionStep (written : Written s e db') : VersionStep s e db' := by
  have same : ∀ {db'' : DB}, db''.fragments = s.db.fragments → db''.chunks = s.db.chunks →
      db''.versions = s.db.versions → VersionStep s e db'' :=
    fun fragments chunks versions => .other fragments chunks fun v member =>
      .inl (versions ▸ member)
  cases written with
  | nothing quiet | repaired call | restored call | expired call => exact same rfl rfl rfl
  | begun ok => exact .begun ok
  | inserted call ok =>
    rw [DB.insertPlacement_ok ok]
    exact same rfl rfl rfl
  | aborted call fresh =>
    rw [DB.abortUpload]
    split
    · exact same rfl rfl rfl
    · exact .other rfl rfl (mem_endVersions (by decide))
  | uploaded call ok => exact .committed call ok
  | deleted call => exact .other rfl rfl (mem_endVersions (by decide))
  | acted ok => cases act_inv ok <;> exact same rfl rfl rfl

/-! ### A worked run

Sixteen nodes register, fourteen of them are up, and a client uploads a file of
one chunk.  Two of its sixteen shards find no node; the version commits at the
threshold.  Later modules continue from the state this run ends in.
-/

/-- Stands in for ed25519 in worked runs: a signature is the key, twice. -/
def toySig : SigCheck := fun pub _ sig => sig = pub ++ pub

namespace Sample

def owner : Uuid := 1

def bucket : Bucket where
  id := 2
  ownerId := owner

def gen (k : Nat) : Uuid := BitVec.ofNat 128 (1000 + k)

def digest : Bytes := List.replicate 32 0

def chunk : Chunk where
  id := gen 2
  versionId := gen 1
  seq := 0
  sizeBytes := 10
  sha256 := digest

def fragment (i : Nat) : Fragment where
  id := gen (3 + i)
  chunkId := chunk.id
  shardIndex := i
  sizeBytes := 1
  sha256 := digest

def node (i : Nat) : Node where
  id := BitVec.ofNat 128 (100 + i)
  ownerId := BitVec.ofNat 128 (200 + i)
  publicKey := List.replicate 32 (UInt8.ofNat i)
  region := []
  asn := none
  endpoint := []
  capacityBytes := 100
  usedBytes := 0
  status := .online
  certExpiresAt := none
  probationUntil := none
  revokedAt := none

def manifest : UploadManifest where
  bucketId := bucket.id
  path := ['/', 'a']
  sizeBytes := 10
  contentSha256 := digest
  encryptionMeta := [123, 125]
  chunkSize := 1048576
  ecData := 10
  ecParity := 6
  chunks :=
    [{ seq := 0
       sizeBytes := 10
       sha256 := digest
       fragments := (List.range 16).map fun i =>
         { shardIndex := i, sizeBytes := 1, sha256 := digest } }]

/-- The scheduler's surroundings when the given nodes are up; the first eligible
node is drawn. -/
def env (up : Nat → Bool) : PlaceEnv where
  now := 0
  alive id := some (up (id.toNat - 100))
  readsOk := true
  draw _ := some 0
  reserve _ := true

def sign : SignTicket := fun _ _ _ _ _ => .ok ([], 900)

/-- The receipt of node `j` for fragment `i`. -/
def wire (i j : Nat) : Text :=
  encodeWire
    (Receipt.encode
      { nodeId := (node j).id, fragmentId := (fragment i).id, sha256 := digest, size := 1,
        storedAt := 0, nonce := [], raw := [] })
    ((node j).publicKey ++ (node j).publicKey)

def placement (id i j : Nat) (status : PlacementStatus) : Placement where
  id := id
  fragmentId := (fragment i).id
  nodeId := (node j).id
  status := status

def target (id i j : Nat) : PlacementTarget where
  placement := placement id i j .pending
  fragment := fragment i
  node := node j

def wires : List Text := (List.range 14).map fun i => wire i i

def targets : List PlacementTarget := (List.range 14).map fun i => target (i + 1) i i

def commitRequest : Event := .request (.commitUpload owner (gen 1) wires targets)

/-- A bucket and sixteen nodes. -/
def registered : List Event :=
  .act (.createBucket bucket) :: (List.range 16).map fun i => .act (.registerNode (node i))

/-- The moves of the plan: fourteen of the sixteen nodes are up. -/
def planMoves : List Event :=
  .move 0 (.place (env fun i => i < 14)) :: List.replicate 14 (.move 0 .insert)

/-- A plan up to its tickets. -/
def planRun (m : UploadManifest) : List Event :=
  registered ++ .request (.planUpload owner m gen) :: planMoves ++ [.move 0 (.finish sign)]

def upload : List Event := planRun manifest ++ [commitRequest, .move 1 .commit]

/-- The state after the upload. -/
def committed : System where
  db :=
    { buckets := [bucket]
      files :=
        [{ id := gen 0, bucketId := bucket.id, path := ['/', 'a'], isFolder := false,
           currentVersion := some (gen 1), status := .active, deletedAt := none }]
      versions :=
        [{ id := gen 1, fileId := gen 0, versionNo := 1, sizeBytes := 10,
           contentSha256 := digest, encryptionMeta := [123, 125], chunkSize := 1048576,
           ecDataShards := 10, ecParityShards := 6, status := .committed }]
      chunks := [chunk]
      fragments := (List.range 16).map fragment
      nodes := (List.range 16).map node
      placements := (List.range 14).map fun i => placement (i + 1) i i .stored
      nextPlacementId := 15
      downloadTickets := [] }
  calls := [.done, .done]

/-- The version of the worked upload while its fragments are being sent. -/
def pendingVersion : FileVersion where
  id := gen 1
  fileId := gen 0
  versionNo := 1
  sizeBytes := 10
  contentSha256 := digest
  encryptionMeta := [123, 125]
  chunkSize := 1048576
  ecDataShards := 10
  ecParityShards := 6
  status := .pending

/-- The plan of the worked upload has returned, nothing is committed yet. -/
def planned : System where
  db :=
    { committed.db with
      files :=
        [{ id := gen 0, bucketId := bucket.id, path := ['/', 'a'], isFolder := false,
           currentVersion := none, status := .uploading, deletedAt := none }]
      versions := [pendingVersion]
      placements := (List.range 14).map fun i => placement (i + 1) i i .pending }
  calls := [.done]

theorem planned_reached : exec (step toySig) System.init (planRun manifest) = some planned := by
  decide +kernel

/-- The call of the commit once its receipts are accepted. -/
def committing (s : System) : System :=
  { s with calls := s.calls ++
      [.committing (.upload owner (gen 1)) wires targets
        ((List.range 14).map fun i => (fragment i).id)] }

/-- Every receipt is accepted.  The runs below that commit them rewrite with this instead of
checking them again. -/
theorem wires_accepted :
    uploadReceipts toySig targets wires = .ok ((List.range 14).map fun i => (fragment i).id) := by
  decide +kernel

theorem step_commitRequest (s : System) :
    step toySig s commitRequest =
      if targets.isPerm (s.db.pendingTargetsForVersion (gen 1)) then some (committing s)
      else none := by
  simp only [step, commitRequest, DB.begin, wires_accepted]
  by_cases rows : targets.isPerm (s.db.pendingTargetsForVersion (gen 1)) = true
  · rw [if_pos rows, if_pos rows]
    rfl
  · rw [if_neg rows, if_neg rows]

theorem planned_commits : step toySig planned commitRequest = some (committing planned) := by
  rw [step_commitRequest]
  exact if_pos (by decide +kernel)

theorem committing_commits :
    step toySig (committing planned) (.move 1 .commit) = some committed := by
  decide +kernel

theorem upload_committed : exec (step toySig) System.init upload = some committed := by
  rw [upload, exec_append, planned_reached]
  exact exec_cons.mpr ⟨_, planned_commits, exec_cons.mpr ⟨_, committing_commits, rfl⟩⟩

/-- What holds of the steps of the plan and of the two steps of the commit. -/
theorem upload_everyStep {Q : System → Event → System → Prop}
    (plan : EveryStep (step toySig) Q System.init (planRun manifest))
    (request : Q planned commitRequest (committing planned))
    (commit : Q (committing planned) (.move 1 .commit) committed) :
    EveryStep (step toySig) Q System.init upload := by
  refine plan.append_of fun s run => ?_
  obtain rfl := Option.some.inj (planned_reached.symm.trans run)
  intro t moved
  obtain rfl := Option.some.inj (planned_commits.symm.trans moved)
  refine ⟨request, fun u moved => ?_⟩
  obtain rfl := Option.some.inj (committing_commits.symm.trans moved)
  exact ⟨commit, trivial⟩

/-- A continuation of the upload leads to a reachable database. -/
theorem reachable_of_run {events : List Event} {s : System}
    (run : exec (step toySig) committed events = some s) : Reachable toySig s.db :=
  ⟨upload ++ events, s, by rw [exec_append, upload_committed]; exact run, rfl⟩

end Sample

end StoragePlatform
