/-
Module: StoragePlatform.Proofs.Resubmit
Purpose: Sequences of CommitUpload calls against one call with all their receipts.
Trusted boundary: none
Main exports: CommitCall, commitAll, CommitCall.Settles, halves_not_cumulative
-/
import Mathlib.Data.List.Pairwise
import StoragePlatform.Proofs.Receipted
import StoragePlatform.Proofs.RepairCommit

namespace StoragePlatform

open Lib List Sample

variable {marks' accepted : List Uuid} {f : File} {t : PlacementTarget} {v' : FileVersion}
variable {first union : CommitCall} {after before : List CommitCall}

/-! ### The calls -/

/-- One `CommitUpload` call: the order in which its query returns the rows, and its
receipts. -/
structure CommitCall where
  arrange : List PlacementTarget → List PlacementTarget
  arranges : ∀ rows, (arrange rows).Perm rows
  wires : List Text

section Calls

variable (sigOk : SigCheck) (ownerId versionId : Uuid)

def CommitCall.targets (call : CommitCall) (db : DB) : List PlacementTarget :=
  call.arrange (db.pendingTargetsForVersion versionId)

/-- The database after the call, if it succeeds. -/
def CommitCall.run (call : CommitCall) (db : DB) : Option DB :=
  match db.commitUploadReceipts sigOk ownerId versionId (call.targets versionId db) call.wires with
  | .error _ => none
  | .ok (_, db') => some db'

/-- The calls one after the other: the database they leave, and whether the last
one succeeded. -/
def commitAll : DB → Bool → List CommitCall → DB × Bool
  | db, ok, [] => (db, ok)
  | db, _, call :: calls =>
    match call.run sigOk ownerId versionId db with
    | none => commitAll db false calls
    | some db' => commitAll db' true calls

/-! ### When a call settles the upload -/

/-- The loop over the wires gets through: every wire is for a row of the map whose
fragment is not stored, and no two for the same. -/
def Matched (rows : List PlacementTarget) (seen : List Uuid) (wires : List Text) : Prop :=
  (∀ w ∈ wires, ∃ t ∈ rows, t.fragment.id ∉ seen ∧ t.accepts sigOk w = true) ∧
    wires.Pairwise fun w w' => ∀ t ∈ rows, ¬(t.accepts sigOk w = true ∧ t.accepts sigOk w' = true)

/-- Fragments with a stored row, and fragments the receipts are for. -/
def CommitCall.marks (call : CommitCall) (db : DB) : List Uuid :=
  alreadyStored (call.targets versionId db) ++
    ((byFragment (call.targets versionId db)).filter fun t =>
      call.wires.any fun w => t.accepts sigOk w).map fun t => t.fragment.id

/-- The receipts of the call match the rows it reads. -/
def CommitCall.Matches (call : CommitCall) (db : DB) : Prop :=
  Matched sigOk (byFragment (call.targets versionId db))
    (alreadyStored (call.targets versionId db)) call.wires

/-- On its own the call would commit the version: it is of a live file of the
owner, the receipts match, and with their fragments stored no chunk is short. -/
def CommitCall.Settles (call : CommitCall) (db : DB) : Prop :=
  (∃ found, db.scanVersion ownerId versionId = .ok found) ∧
    Matched sigOk (byFragment (call.targets versionId db))
        (alreadyStored (call.targets versionId db)) call.wires ∧
    { db with
      placements := markStored (call.marks sigOk versionId db) db.placements }.shortChunks
        versionId = []

/-- If no call settles the upload, the union does not either.  Otherwise the first
call that does already has every receipt of the union, and if there are calls
after it the last of them has none. -/
def SettledOnce (db : DB) (calls : List CommitCall) (union : CommitCall) : Prop :=
  ((∀ call ∈ calls, ¬ call.Settles sigOk ownerId versionId db) →
    ¬ union.Settles sigOk ownerId versionId db) ∧
  ∀ before first after, calls = before ++ first :: after →
    (∀ call ∈ before, ¬ call.Settles sigOk ownerId versionId db) →
    first.Settles sigOk ownerId versionId db →
      union.Settles sigOk ownerId versionId db ∧ union.wires ⊆ first.wires ∧
        ∀ last ∈ after.getLast?, last.wires = []

end Calls

/-! ### Matching -/

theorem byFragment_unique (targets : List PlacementTarget) :
    UniqueOn (fun t : PlacementTarget => t.fragment.id) (byFragment targets) := by
  induction targets with
  | nil => exact UniqueOn.nil _
  | cons t rest ih =>
    rw [byFragment]
    split
    · exact ih
    · rename_i alone
      refine nodup_cons.mpr ⟨fun listed => alone ?_, ih⟩
      obtain ⟨u, kept, same⟩ := mem_map.mp listed
      exact any_eq_true.mpr ⟨u, mem_of_mem_byFragment kept, decide_eq_true same⟩

section Matching

variable {sigOk : SigCheck} {rows : List PlacementTarget} {seen : List Uuid} {wires : List Text}

theorem acceptReceipts_matched (ok : acceptReceipts sigOk rows seen wires = some accepted) :
    Matched sigOk rows seen wires := by
  obtain ⟨pairs, distinct, unseen⟩ := acceptReceipts_iff.mp ok
  constructor
  · intro w inWires
    obtain ⟨f, member, t, inRows, rfl, accepts⟩ := forall₂_right pairs inWires
    exact ⟨t, inRows, unseen _ member, accepts⟩
  clear ok unseen
  induction pairs with
  | nil => exact .nil
  | cons first pairs ih =>
    obtain ⟨u, -, rfl, accepts⟩ := first
    obtain ⟨apart, distinct⟩ := nodup_cons.mp distinct
    refine pairwise_cons.mpr ⟨fun w later t _ both => apart ?_, ih distinct⟩
    -- a row that took both would be of the fragment of the first wire
    obtain ⟨f, member, u', -, rfl, accepts'⟩ := forall₂_right pairs later
    rwa [← (PlacementTarget.accepts_same both.1 accepts).1,
      (PlacementTarget.accepts_same both.2 accepts').1]

theorem acceptReceipts_of_matched
    (unique : UniqueOn (fun t : PlacementTarget => t.fragment.id) rows)
    (matched : Matched sigOk rows seen wires) :
    ∃ accepted, acceptReceipts sigOk rows seen wires = some accepted := by
  obtain ⟨each, apart⟩ := matched
  obtain ⟨taken, pairs⟩ := exists_forall₂ each
  refine ⟨taken.map fun t => t.fragment.id, acceptReceipts_iff.mpr ⟨?_, ?_, ?_⟩⟩
  · rw [forall₂_map_left_iff]
    exact pairs.flip.imp fun t w ⟨inRows, _, accepts⟩ => ⟨t, inRows, rfl, accepts⟩
  · clear each
    induction pairs with
    | nil => exact nodup_nil
    | @cons w t wires taken first pairs ih =>
      obtain ⟨against, apart⟩ := pairwise_cons.mp apart
      refine nodup_cons.mpr ⟨fun again => ?_, ih apart⟩
      obtain ⟨u, isTaken, same⟩ := mem_map.mp again
      obtain ⟨w', later, inRows, -, accepts⟩ := forall₂_right pairs isTaken
      rw [unique.eq_of_key inRows first.1 same] at accepts
      exact against w' later t first.1 ⟨first.2.2, accepts⟩
  · intro f member
    obtain ⟨t, isTaken, rfl⟩ := mem_map.mp member
    obtain ⟨-, -, -, unseen, -⟩ := forall₂_right pairs isTaken
    exact unseen

theorem mem_accepted (ok : acceptReceipts sigOk rows seen wires = some accepted) {f : Uuid} :
    f ∈ accepted ↔
      ∃ t ∈ rows, t.fragment.id = f ∧ ∃ w ∈ wires, t.accepts sigOk w = true := by
  refine ⟨acceptReceipts_sound ok f, ?_⟩
  rintro ⟨t, -, rfl, w, inWires, accepts⟩
  obtain ⟨u, -, isAccepted, accepts'⟩ := acceptReceipts_all ok w inWires
  rwa [(PlacementTarget.accepts_same accepts accepts').1]

end Matching

/-! ### Targets of a call -/

section Targets

variable {sigOk : SigCheck} {versionId : Uuid} {db : DB} {call other : CommitCall}

theorem CommitCall.mem_targets :
    t ∈ call.targets versionId db ↔ t ∈ db.pendingTargetsForVersion versionId :=
  (call.arranges _).mem_iff

theorem CommitCall.mem_alreadyStored {f : Uuid} :
    f ∈ alreadyStored (call.targets versionId db) ↔
      ∃ t ∈ db.pendingTargetsForVersion versionId, t.placement.status = .stored ∧
        t.fragment.id = f := by
  simp only [alreadyStored, mem_map, mem_filter, decide_eq_true_eq, mem_targets, and_assoc]

theorem CommitCall.mem_marks {f : Uuid} :
    f ∈ call.marks sigOk versionId db ↔
      f ∈ alreadyStored (call.targets versionId db) ∨
        ∃ t ∈ byFragment (call.targets versionId db), t.fragment.id = f ∧
          ∃ w ∈ call.wires, t.accepts sigOk w = true := by
  simp only [marks, mem_append, mem_map, mem_filter, any_eq_true]
  grind

/-- A target that is not stored is a pending row of the table. -/
theorem pending_of_target (member : t ∈ db.pendingTargetsForVersion versionId)
    (unstored : t.placement.status ≠ .stored) :
    t.placement ∈ db.placements ∧ t.placement.fragmentId = t.fragment.id ∧
      t.placement.status = .pending := by
  simp only [DB.pendingTargetsForVersion, mem_filter, decide_eq_true_eq] at member
  obtain ⟨row, live, -⟩ := member
  obtain ⟨inTable, -, -, joined, -⟩ := DB.mem_placementTargets.mp row
  simp only [Placement.live, decide_eq_true_eq] at live
  exact ⟨inTable, joined.symm, live.resolve_right unstored⟩

/-- More receipts mark more fragments, whatever the order of the rows. -/
theorem CommitCall.marks_mono (matched : other.Matches sigOk versionId db)
    (fewer : call.wires ⊆ other.wires) :
    call.marks sigOk versionId db ⊆ other.marks sigOk versionId db := by
  intro f marked
  rcases mem_marks.mp marked with already | ⟨t, -, rfl, w, inWires, accepts⟩
  · exact mem_marks.mpr (.inl (mem_alreadyStored.mpr (mem_alreadyStored.mp already)))
  · obtain ⟨u, inRows, -, accepts'⟩ := matched.1 w (fewer inWires)
    exact mem_marks.mpr (.inr
      ⟨u, inRows, (PlacementTarget.accepts_same accepts' accepts).1, w, fewer inWires, accepts'⟩)

/-- Two calls that match, the second with the receipts of the first and perhaps
more, mark the same pending rows only if it has no more. -/
theorem CommitCall.marks_same_iff (first : call.Matches sigOk versionId db)
    (second : other.Matches sigOk versionId db) (fewer : call.wires ⊆ other.wires) :
    (∀ p ∈ db.placements, p.status = .pending →
      (p.fragmentId ∈ call.marks sigOk versionId db ↔
        p.fragmentId ∈ other.marks sigOk versionId db)) ↔ other.wires ⊆ call.wires := by
  constructor
  · intro same w inWires
    obtain ⟨t, inRows, unseen, accepts⟩ := second.1 w inWires
    have inTargets := mem_targets.mp (mem_of_mem_byFragment inRows)
    have unstored : t.placement.status ≠ .stored := fun stored =>
      unseen (mem_alreadyStored.mpr ⟨t, inTargets, stored, rfl⟩)
    obtain ⟨inTable, joined, pending⟩ := pending_of_target inTargets unstored
    have marked := (same _ inTable pending).mpr
      (joined ▸ mem_marks.mpr (.inr ⟨t, inRows, rfl, w, inWires, accepts⟩))
    rw [joined] at marked
    rcases mem_marks.mp marked with already | ⟨t', -, sameFragment, w', inWires', accepts'⟩
    · exact absurd (mem_alreadyStored.mpr (mem_alreadyStored.mp already)) unseen
    · -- the row takes both wires, so they are the same wire
      obtain ⟨u, inRows', -, takes⟩ := second.1 w' (fewer inWires')
      have : u = t := (byFragment_unique _).eq_of_key inRows' inRows
        ((PlacementTarget.accepts_same takes accepts').1.trans sameFragment)
      subst this
      by_contra missing
      have different : w ≠ w' := fun eq => missing (eq ▸ inWires')
      have : Std.Symm fun w w' : Text => ∀ t ∈ byFragment (other.targets versionId db),
          ¬(t.accepts sigOk w = true ∧ t.accepts sigOk w' = true) :=
        ⟨fun _ _ apart t inRows both => apart t inRows both.symm⟩
      exact second.2.forall inWires (fewer inWires') different u inRows ⟨accepts, takes⟩
  · intro more p _ _
    exact ⟨fun marked => marks_mono second fewer marked, fun marked => marks_mono first more marked⟩

end Targets

/-! ### One call -/

section OneCall

variable {sigOk : SigCheck} {ownerId : Uuid} {db : DB} {v : FileVersion}
  {call : CommitCall}

/-- What a call that settles the upload of `v` leaves. -/
def DB.settled (db : DB) (f : File) (v : FileVersion) (marks : List Uuid) : DB :=
  { db with
    placements := markStored marks db.placements
    versions := updateWhere (fun v' => v'.id = v.id) (fun v' => { v' with status := .committed })
      db.versions
    files := updateWhere (fun f' => f'.id = f.id)
      (fun f' => { f' with status := .active, currentVersion := some v.id }) db.files }

theorem markStored_congr {marks : List Uuid} (same : ∀ f, f ∈ marks ↔ f ∈ marks')
    (rows : List Placement) : markStored marks rows = markStored marks' rows := by
  simp only [markStored_eq, same]

theorem DB.settled_eq_iff {marks : List Uuid} :
    db.settled f v marks = db.settled f v marks' ↔
      ∀ p ∈ db.placements, p.status = .pending →
        (p.fragmentId ∈ marks ↔ p.fragmentId ∈ marks') := by
  have shows : ∀ p ∈ db.placements, decide (p.status = .pending ∧ p.fragmentId ∈ marks) = true ∨
        decide (p.status = .pending ∧ p.fragmentId ∈ marks') = true →
      Placement.setStatus .stored p ≠ p := by
    intro p _ selected same
    have stored : p.status = .stored := by rw [← same]; rfl
    simp [stored] at selected
  have rows := updateWhere_eq_iff shows
  simp only [settled, DB.mk.injEq, markStored_eq, true_and, and_true, rows, decide_eq_true_eq]
  exact ⟨fun same p member pending => by simpa [pending] using same p member,
    fun same p member => and_congr_right (same p member)⟩

theorem DB.settled_ne (member : v ∈ db.versions) (pending : v.status = .pending)
    (marks : List Uuid) : db.settled f v marks ≠ db := by
  intro same
  have versions : (db.settled f v marks).versions = db.versions := congrArg DB.versions same
  rw [← versions, settled, mem_updateWhere] at member
  rcases member with ⟨old, -, -, rfl⟩ | ⟨-, other⟩
  · cases pending
  · simp at other

theorem DB.scanVersion_settled (found : db.scanVersion ownerId v.id = .ok (f, v))
    (marks : List Uuid) :
    (db.settled f v marks).scanVersion ownerId v.id =
      .ok ({ f with status := .active, currentVersion := some v.id },
        { v with status := .committed }) := by
  have scanned := @DB.scanVersion_map db (db.settled f v marks) _ _ rfl rfl rfl
    (fun f' => by split <;> exact ⟨rfl, rfl, rfl⟩) (fun v' => by split <;> exact ⟨rfl, rfl⟩)
    ownerId v.id
  rw [scanned, found]
  simp [Except.map]

theorem uploadReceipts_marks {stored : List Uuid}
    (ok : uploadReceipts sigOk (call.targets v.id db) call.wires = .ok stored) :
    call.Matches sigOk v.id db ∧ ∀ f, f ∈ stored ↔ f ∈ call.marks sigOk v.id db := by
  obtain ⟨accepted, found, rfl⟩ := uploadReceipts_ok ok
  refine ⟨acceptReceipts_matched found, fun f => ?_⟩
  rw [CommitCall.mem_marks, mem_append, mem_accepted found]

theorem uploadReceipts_of_matched (matched : call.Matches sigOk v.id db) :
    ∃ stored, uploadReceipts sigOk (call.targets v.id db) call.wires = .ok stored := by
  obtain ⟨accepted, ok⟩ := acceptReceipts_of_matched (byFragment_unique _) matched
  exact ⟨_, by rw [uploadReceipts, ok]⟩

theorem CommitCall.run_settles (found : db.scanVersion ownerId v.id = .ok (f, v))
    (pending : v.status = .pending) (settles : call.Settles sigOk ownerId v.id db) :
    call.run sigOk ownerId v.id db = some (db.settled f v (call.marks sigOk v.id db)) := by
  obtain ⟨-, matched, enough⟩ := settles
  obtain ⟨stored, ok⟩ := uploadReceipts_of_matched matched
  have same := markStored_congr (uploadReceipts_marks ok).2 db.placements
  simp [run, DB.commitUploadReceipts, ok, DB.commitUpload, found, pending, enough, DB.settled, same]

/-- A call that does not settle a pending version fails. -/
theorem CommitCall.run_unsettled
    (pending : ∀ found, db.scanVersion ownerId v.id = .ok found → found.2.status = .pending)
    (unsettled : ¬ call.Settles sigOk ownerId v.id db) :
    call.run sigOk ownerId v.id db = none := by
  simp only [run, DB.commitUploadReceipts]
  split
  · rfl
  rename_i result db' committed
  split at committed
  · cases committed
  rename_i stored ok
  obtain ⟨matched, same⟩ := uploadReceipts_marks ok
  cases DB.commitUpload_inv committed with
  | already found before =>
    have := pending _ found
    simp [before] at this
  | now found _ enough =>
    rw [markStored_congr same] at enough
    exact absurd ⟨⟨_, found⟩, matched, enough⟩ unsettled

theorem CommitCall.run_committed (found : db.scanVersion ownerId v.id = .ok (f, v'))
    (before : v'.status = .committed) :
    call.run sigOk ownerId v.id db = none ∧ ¬ call.Matches sigOk v.id db ∨
      call.run sigOk ownerId v.id db = some db ∧ call.Matches sigOk v.id db := by
  simp only [run, DB.commitUploadReceipts]
  cases ok : uploadReceipts sigOk (call.targets v.id db) call.wires with
  | error e =>
    refine .inl ⟨rfl, fun matched => ?_⟩
    obtain ⟨stored, ok'⟩ := uploadReceipts_of_matched matched
    rw [ok] at ok'
    cases ok'
  | ok stored =>
    refine .inr ⟨?_, (uploadReceipts_marks ok).1⟩
    simp [DB.commitUpload, found, before]

/-- After a call that settled the upload, a call with any of its receipts fails. -/
theorem CommitCall.unmatched_settled (matched : first.Matches sigOk v.id db) {w : Text}
    (old : w ∈ first.wires) (again : w ∈ call.wires) {db' : DB}
    (after : db' = db.settled f v (first.marks sigOk v.id db)) :
    ¬ call.Matches sigOk v.id db' := by
  rintro ⟨each, -⟩
  obtain ⟨t, inRows, -, accepts⟩ := matched.1 w old
  obtain ⟨u, inRows', unseen, accepts'⟩ := each w again
  have sameFragment := (PlacementTarget.accepts_same accepts' accepts).1
  have inTargets := mem_targets.mp (mem_of_mem_byFragment inRows')
  have unstored : u.placement.status ≠ .stored := fun stored =>
    unseen (mem_alreadyStored.mpr ⟨u, inTargets, stored, rfl⟩)
  obtain ⟨inTable, joined, pending⟩ := pending_of_target inTargets unstored
  -- the row would be a pending row of a fragment the first call has marked
  have marked : u.placement.fragmentId ∈ first.marks sigOk v.id db :=
    mem_marks.mpr (.inr ⟨t, inRows, sameFragment.symm.trans joined.symm, w, old, accepts⟩)
  rw [after, DB.settled, markStored_eq, mem_updateWhere] at inTable
  rcases inTable with ⟨p, -, -, changed⟩ | ⟨-, unselected⟩
  · rw [← changed] at pending
    cases pending
  · simp [pending, marked] at unselected

end OneCall

/-! ### All calls -/

section AllCalls

variable {sigOk : SigCheck} {ownerId versionId : Uuid} {db db' : DB} {calls : List CommitCall}
  {call : CommitCall}

theorem commitAll_append (before after : List CommitCall) (ok : Bool) :
    commitAll sigOk ownerId versionId db ok (before ++ after) =
      commitAll sigOk ownerId versionId (commitAll sigOk ownerId versionId db ok before).1
        (commitAll sigOk ownerId versionId db ok before).2 after := by
  induction before generalizing db ok with
  | nil => rfl
  | cons call before ih =>
    simp only [cons_append, commitAll]
    split
    · exact ih false
    · exact ih true

theorem commitAll_cons_none (ok : Bool) (ran : call.run sigOk ownerId versionId db = none) :
    commitAll sigOk ownerId versionId db ok (call :: calls) =
      commitAll sigOk ownerId versionId db false calls := by
  rw [commitAll, ran]

theorem commitAll_cons_some (ok : Bool) (ran : call.run sigOk ownerId versionId db = some db') :
    commitAll sigOk ownerId versionId db ok (call :: calls) =
      commitAll sigOk ownerId versionId db' true calls := by
  rw [commitAll, ran]

/-- Calls that change nothing: the last one decides. -/
theorem commitAll_of_fixed (ok : Bool)
    (fixed : ∀ call ∈ calls, ∀ db', call.run sigOk ownerId versionId db = some db' → db' = db) :
    commitAll sigOk ownerId versionId db ok calls =
      (db, calls.getLast?.elim ok fun last => (last.run sigOk ownerId versionId db).isSome) := by
  induction calls using List.reverseRecOn with
  | nil => rfl
  | append_singleton calls last ih =>
    have earlier := ih fun call member => fixed call (mem_append_left _ member)
    rw [commitAll_append, earlier, getLast?_concat]
    cases ran : last.run sigOk ownerId versionId db with
    | none => simp [commitAll, ran]
    | some db' =>
      cases fixed last (mem_append_right _ mem_cons_self) db' ran
      simp [commitAll, ran]

end AllCalls

section Union

variable {sigOk : SigCheck} {ownerId : Uuid} {db : DB} {v : FileVersion}
  {calls : List CommitCall}

theorem commitAll_unsettled
    (pending : ∀ found, db.scanVersion ownerId v.id = .ok found → found.2.status = .pending)
    (unsettled : ∀ call ∈ calls, ¬ call.Settles sigOk ownerId v.id db) :
    commitAll sigOk ownerId v.id db false calls = (db, false) := by
  have failed : ∀ call ∈ calls, call.run sigOk ownerId v.id db = none := fun call member =>
    CommitCall.run_unsettled pending (unsettled call member)
  have fixed : ∀ call ∈ calls, ∀ db', call.run sigOk ownerId v.id db = some db' → db' = db := by
    intro call member db' ran
    rw [failed call member] at ran
    cases ran
  rw [commitAll_of_fixed false fixed]
  cases last : calls.getLast? with
  | none => rfl
  | some call => simp [failed call (mem_of_getLast? last)]

/-- What the calls come to when `first` is the first one to settle the upload. -/
theorem commitAll_settled (found : db.scanVersion ownerId v.id = .ok (f, v))
    (pending : v.status = .pending)
    (unsettled : ∀ call ∈ before, ¬ call.Settles sigOk ownerId v.id db)
    (settles : first.Settles sigOk ownerId v.id db) :
    commitAll sigOk ownerId v.id db false (before ++ first :: after) =
      (db.settled f v (first.marks sigOk v.id db), after.getLast?.elim true fun last =>
        (last.run sigOk ownerId v.id (db.settled f v (first.marks sigOk v.id db))).isSome) := by
  have every : ∀ result, db.scanVersion ownerId v.id = .ok result → result.2.status = .pending := by
    intro result found'
    rw [found] at found'
    cases found'
    exact pending
  rw [commitAll_append, commitAll_unsettled every unsettled, commitAll,
    CommitCall.run_settles found pending settles]
  refine commitAll_of_fixed true fun call _ db' ran => ?_
  rcases CommitCall.run_committed (DB.scanVersion_settled found _) rfl with ⟨failed, -⟩ | ⟨fixed, -⟩
  · rw [failed] at ran
    cases ran
  · rw [fixed] at ran
    cases ran
    rfl

/-- Of the calls after the commit, one with no receipts succeeds and one with
receipts of the first call fails. -/
theorem CommitCall.run_after_iff {last : CommitCall}
    (found : db.scanVersion ownerId v.id = .ok (f, v))
    (settles : first.Settles sigOk ownerId v.id db) (fewer : last.wires ⊆ first.wires) :
    (last.run sigOk ownerId v.id (db.settled f v (first.marks sigOk v.id db))).isSome = true ↔
      last.wires = [] := by
  have ran : last.run sigOk ownerId v.id _ = none ∧ _ ∨ _ := CommitCall.run_committed
    (DB.scanVersion_settled found (first.marks sigOk v.id db)) rfl
  constructor
  · intro succeeded
    by_contra some_wire
    obtain ⟨w, member⟩ := exists_mem_of_ne_nil _ some_wire
    rcases ran with ⟨failed, -⟩ | ⟨-, matched⟩
    · rw [failed] at succeeded
      cases succeeded
    · exact CommitCall.unmatched_settled settles.2.1 (fewer member) member rfl matched
  · intro none_left
    rcases ran with ⟨-, unmatched⟩ | ⟨fixed, -⟩
    · rw [CommitCall.Matches, none_left] at unmatched
      exact absurd ⟨by simp, .nil⟩ unmatched
    · rw [fixed]
      rfl

/-- The scan of a pending version finds that version or nothing. -/
theorem DB.scanVersion_same (schema : db.Schema) (member : v ∈ db.versions)
    (found : db.scanVersion ownerId v.id = .ok (f, v')) : v' = v := by
  obtain ⟨member', same, -⟩ := DB.scanVersion_inv found
  exact schema.version_pk.eq_of_key member' member same

section Pending

variable (schema : db.Schema) (member : v ∈ db.versions) (pending : v.status = .pending)
include schema member pending

theorem scanVersion_pending :
    ∀ result, db.scanVersion ownerId v.id = .ok result → result.2.status = .pending := by
  intro result found
  rw [DB.scanVersion_same schema member found]
  exact pending

theorem commitAll_one_unsettled (unsettled : ¬ union.Settles sigOk ownerId v.id db) :
    commitAll sigOk ownerId v.id db false [union] = (db, false) :=
  commitAll_unsettled (scanVersion_pending schema member pending)
    fun call only => by rwa [mem_singleton.mp only]

omit schema member in
theorem commitAll_one_settled (found : db.scanVersion ownerId v.id = .ok (f, v))
    (settles : union.Settles sigOk ownerId v.id db) :
    commitAll sigOk ownerId v.id db false [union] =
      (db.settled f v (union.marks sigOk v.id db), true) :=
  commitAll_cons_some false (CommitCall.run_settles found pending settles)

/-- Calls none of which settles the upload. -/
theorem commitAll_union_unsettled
    (unsettled : ∀ call ∈ calls, ¬ call.Settles sigOk ownerId v.id db) :
    commitAll sigOk ownerId v.id db false calls = commitAll sigOk ownerId v.id db false [union] ↔
      ¬ union.Settles sigOk ownerId v.id db := by
  rw [commitAll_unsettled (scanVersion_pending schema member pending) unsettled]
  constructor
  · intro same settles
    obtain ⟨⟨f, v'⟩, found⟩ := settles.1
    cases DB.scanVersion_same schema member found
    rw [commitAll_one_settled pending found settles] at same
    cases congrArg Prod.snd same
  · intro fails
    exact (commitAll_one_unsettled schema member pending fails).symm

/-- Calls of which `first` is the first one to settle the upload. -/
theorem commitAll_union_settled
    (all : ∀ w, w ∈ union.wires ↔ ∃ call ∈ before ++ first :: after, w ∈ call.wires)
    (unsettled : ∀ call ∈ before, ¬ call.Settles sigOk ownerId v.id db)
    (settles : first.Settles sigOk ownerId v.id db) :
    commitAll sigOk ownerId v.id db false (before ++ first :: after) =
        commitAll sigOk ownerId v.id db false [union] ↔
      union.Settles sigOk ownerId v.id db ∧ union.wires ⊆ first.wires ∧
        ∀ last ∈ after.getLast?, last.wires = [] := by
  obtain ⟨⟨f, v'⟩, found⟩ := settles.1
  cases DB.scanVersion_same schema member found
  rw [commitAll_settled found pending unsettled settles]
  by_cases unionSettles : union.Settles sigOk ownerId v.id db
  · have more : first.wires ⊆ union.wires := fun w inFirst =>
      (all w).mpr ⟨first, by simp, inFirst⟩
    rw [commitAll_one_settled pending found unionSettles, Prod.mk.injEq, DB.settled_eq_iff,
      CommitCall.marks_same_iff settles.2.1 unionSettles.2.1 more]
    simp only [unionSettles, true_and]
    refine and_congr_right fun fewer => ?_
    cases isLast : after.getLast? with
    | none => simp
    | some last =>
      have inAfter := mem_of_getLast? isLast
      have ofFirst : last.wires ⊆ first.wires := fun w inLast =>
        fewer ((all w).mpr ⟨last, by simp [inAfter], inLast⟩)
      simp [CommitCall.run_after_iff found settles ofFirst]
  · rw [commitAll_one_unsettled schema member pending unionSettles]
    simp [unionSettles, DB.settled_ne member pending]

end Pending

theorem exists_first_settling
    (some_settles : ∃ call ∈ calls, call.Settles sigOk ownerId v.id db) :
    ∃ before first after, calls = before ++ first :: after ∧
      (∀ call ∈ before, ¬ call.Settles sigOk ownerId v.id db) ∧
        first.Settles sigOk ownerId v.id db := by
  classical
  obtain ⟨call, member, settles⟩ := some_settles
  have present : (calls.find? fun call => decide (call.Settles sigOk ownerId v.id db)).isSome :=
    find?_isSome.mpr ⟨call, member, decide_eq_true settles⟩
  obtain ⟨first, found⟩ := Option.isSome_iff_exists.mp present
  obtain ⟨settles', before, after, split, unsettled⟩ := find?_eq_some_iff_append.mp found
  exact ⟨before, first, after, split, fun c inBefore => by simpa using unsettled c inBefore,
    of_decide_eq_true settles'⟩

/-- The calls come to the same database and the same success of the last one as
one call with all their receipts exactly when the upload is settled once. -/
theorem commitAll_union_iff {union : CommitCall} (schema : db.Schema) (member : v ∈ db.versions)
    (pending : v.status = .pending)
    (all : ∀ w, w ∈ union.wires ↔ ∃ call ∈ calls, w ∈ call.wires) :
    commitAll sigOk ownerId v.id db false calls = commitAll sigOk ownerId v.id db false [union] ↔
      SettledOnce sigOk ownerId v.id db calls union := by
  constructor
  · intro same
    refine ⟨fun unsettled => ?_, fun before first after split unsettled settles => ?_⟩
    · exact (commitAll_union_unsettled schema member pending unsettled).mp same
    · subst split
      exact (commitAll_union_settled schema member pending all unsettled settles).mp same
  · rintro ⟨none_settles, once⟩
    by_cases unsettled : ∀ call ∈ calls, ¬ call.Settles sigOk ownerId v.id db
    · exact (commitAll_union_unsettled schema member pending unsettled).mpr (none_settles unsettled)
    · push Not at unsettled
      obtain ⟨before, first, after, rfl, unsettled', settles⟩ := exists_first_settling unsettled
      exact (commitAll_union_settled schema member pending all unsettled' settles).mpr
        (once before first after rfl unsettled' settles)

end Union

namespace Sample

/-- A call whose query returns the rows in table order. -/
def commitWith (wires : List Text) : CommitCall where
  arrange := id
  arranges _ := .refl _
  wires := wires

/-- The receipts for `count` of the fragments, from `first` on. -/
def receipts (first count : Nat) : List Text :=
  (List.range count).map fun i => wire (first + i) (first + i)

/-- What the calls below do, and that every receipt is of one of the rows. -/
theorem planned_calls :
    (∀ w ∈ receipts 0 14, ∃ t ∈ planned.db.pendingTargetsForVersion pendingVersion.id,
      t.accepts toySig w = true) ∧
    (commitWith (receipts 0 5)).run toySig owner pendingVersion.id planned.db = none ∧
    (commitWith (receipts 0 7)).run toySig owner pendingVersion.id planned.db = none ∧
    (commitWith (receipts 7 7)).run toySig owner pendingVersion.id planned.db = none ∧
    (commitWith (receipts 0 14)).run toySig owner pendingVersion.id planned.db =
      some committed.db ∧
    (commitWith (receipts 0 14)).run toySig owner pendingVersion.id committed.db = none := by
  decide +kernel

theorem receipts_add (first count more : Nat) :
    receipts first (count + more) = receipts first count ++ receipts (first + count) more := by
  simp [receipts, range_add, Nat.add_assoc]

end Sample

/-- A commit with too few receipts and then one with all of them. -/
theorem grown_commit_settled_once :
    commitAll toySig owner pendingVersion.id planned.db false
        [commitWith (receipts 0 5), commitWith (receipts 0 14)] =
      commitAll toySig owner pendingVersion.id planned.db false
        [commitWith (receipts 0 14)] ∧
    SettledOnce toySig owner pendingVersion.id planned.db
      [commitWith (receipts 0 5), commitWith (receipts 0 14)]
      (commitWith (receipts 0 14)) := by
  have same : commitAll toySig owner pendingVersion.id planned.db false
      [commitWith (receipts 0 5), commitWith (receipts 0 14)] =
      commitAll toySig owner pendingVersion.id planned.db false
        [commitWith (receipts 0 14)] :=
    commitAll_cons_none false planned_calls.2.1
  have fewer : ∀ w ∈ receipts 0 5, w ∈ receipts 0 14 := fun w member =>
    receipts_add 0 5 9 ▸ mem_append_left _ member
  refine ⟨same, (commitAll_union_iff ?_ mem_cons_self rfl fun w => ?_).mp same⟩
  · exact reachable_schema ⟨_, _, planned_reached, rfl⟩
  · simpa [commitWith] using fewer w

/-- Two commits with half of the receipts each leave the version pending, although
one with all of them commits it.  Sent again, those receipts are refused. -/
theorem halves_not_cumulative :
    Reachable toySig planned.db ∧
    (∀ w ∈ receipts 0 14,
      ∃ t ∈ planned.db.pendingTargetsForVersion pendingVersion.id,
        t.accepts toySig w = true) ∧
    receipts 0 14 = receipts 0 7 ++ receipts 7 7 ∧
    commitAll toySig owner pendingVersion.id planned.db false
        [commitWith (receipts 0 7), commitWith (receipts 7 7)] =
      (planned.db, false) ∧
    commitAll toySig owner pendingVersion.id planned.db false
        [commitWith (receipts 0 14)] =
      (committed.db, true) ∧
    commitAll toySig owner pendingVersion.id planned.db false
        [commitWith (receipts 0 14), commitWith (receipts 0 14)] =
      (committed.db, false) := by
  obtain ⟨matched, -, front, back, all, again⟩ := planned_calls
  refine ⟨⟨_, _, planned_reached, rfl⟩, matched, receipts_add 0 7 7, ?_, ?_, ?_⟩
  · rw [commitAll_cons_none false front, commitAll_cons_none false back, commitAll]
  · rw [commitAll_cons_some false all, commitAll]
  · rw [commitAll_cons_some false all, commitAll_cons_none true again, commitAll]

end StoragePlatform
