/-
Module: StoragePlatform.Metadata.Commit
Purpose: Receipt matching in CommitUpload and CommitRepair
  (internal/metadata/upload.go, internal/metadata/repair.go).
Trusted boundary: human-reviewed spec
Main exports: byFragment, acceptReceipts, uploadReceipts, acceptReceipts_iff
-/
import StoragePlatform.Receipts
import StoragePlatform.Store.Uploads

namespace StoragePlatform

open Lib List

/-!
Both commit calls read the targets, keep one per fragment in a map, match every
wire against the map, and hand the list of matched fragments to the store.  The
read and the store transaction are separate steps; this module is what happens
between them.  The functions take the targets as a list in the order the query
returned them: neither query has an ORDER BY, so a caller may see any order.
-/

/-- `byFrag[t.Fragment.ID] = t` in a loop: of several targets for one fragment
the last one stays. -/
def byFragment : List PlacementTarget → List PlacementTarget
  | [] => []
  | t :: rest =>
    if rest.any fun u => u.fragment.id = t.fragment.id then byFragment rest
    else t :: byFragment rest

/-- The loop over the wires.  Each one must be accepted by a fragment not seen
before; `none` is `ErrInvalid`.  The source walks the map in no fixed order, but
a wire names one fragment, so the order does not matter. -/
def acceptReceipts (sigOk : SigCheck) (targets : List PlacementTarget) :
    List Uuid → List Text → Option (List Uuid)
  | _, [] => some []
  | seen, wire :: wires =>
    match targets.find? fun t => t.fragment.id ∉ seen ∧ t.accepts sigOk wire with
    | none => none
    | some t =>
      match acceptReceipts sigOk targets (t.fragment.id :: seen) wires with
      | none => none
      | some rest => some (t.fragment.id :: rest)

/-- Fragments that `CommitUpload` takes for stored without a receipt. -/
def alreadyStored (targets : List PlacementTarget) : List Uuid :=
  (targets.filter fun t => t.placement.status = .stored).map fun t => t.fragment.id

/-- `CommitUpload` up to the store call: the fragments to mark stored. -/
def uploadReceipts (sigOk : SigCheck) (targets : List PlacementTarget) (wires : List Text) :
    Except StoreErr (List Uuid) :=
  match acceptReceipts sigOk (byFragment targets) (alreadyStored targets) wires with
  | none => .error .invalid
  | some accepted => .ok (alreadyStored targets ++ accepted)

/-- `CommitUpload` with nothing in between, for one order of the targets. -/
def DB.commitUploadReceipts (db : DB) (sigOk : SigCheck) (ownerId versionId : Uuid)
    (targets : List PlacementTarget) (wires : List Text) :
    Except StoreErr ((File × FileVersion) × DB) :=
  match uploadReceipts sigOk targets wires with
  | .error e => .error e
  | .ok stored => db.commitUpload ownerId versionId stored

/-- `CommitRepair` up to the store call. -/
def repairReceipts (sigOk : SigCheck) (targets : List PlacementTarget) (wires : List Text) :
    Except StoreErr (List Uuid) :=
  match acceptReceipts sigOk (byFragment targets) [] wires with
  | none => .error .invalid
  | some accepted => .ok accepted

/-- `CommitRepair` with nothing in between, for one order of the targets. -/
def DB.commitRepair (db : DB) (sigOk : SigCheck) (targets : List PlacementTarget)
    (wires : List Text) : Except StoreErr DB :=
  match repairReceipts sigOk targets wires with
  | .error e => .error e
  | .ok accepted => .ok (db.commitRepairPlacements accepted)

/-! ### What is matched -/

theorem mem_of_mem_byFragment {targets : List PlacementTarget} {t : PlacementTarget}
    (member : t ∈ byFragment targets) : t ∈ targets := by
  induction targets with
  | nil => simp [byFragment] at member
  | cons u rest ih =>
    simp only [byFragment] at member
    split at member
    · exact mem_cons_of_mem _ (ih member)
    · rcases mem_cons.mp member with rfl | member
      · exact mem_cons_self
      · exact mem_cons_of_mem _ (ih member)

section Matching

variable {sigOk : SigCheck} {targets : List PlacementTarget} {seen accepted stored : List Uuid}
  {wires : List Text}

/-- The loop gets through with the fragments that the wires are for, one by one: each has a
target that accepts its wire, none comes twice and none has been seen before. -/
theorem acceptReceipts_iff :
    acceptReceipts sigOk targets seen wires = some accepted ↔
      List.Forall₂ (fun f w => ∃ t ∈ targets, t.fragment.id = f ∧ t.accepts sigOk w = true)
        accepted wires ∧ accepted.Nodup ∧ ∀ f ∈ accepted, f ∉ seen := by
  induction wires generalizing seen accepted with
  | nil =>
    rw [acceptReceipts, forall₂_nil_right_iff, Option.some.injEq]
    exact ⟨fun empty => empty ▸ ⟨rfl, nodup_nil, nofun⟩, fun matched => matched.1.symm⟩
  | cons wire wires ih =>
    constructor
    · intro matched
      simp only [acceptReceipts] at matched
      split at matched
      · cases matched
      rename_i t found
      split at matched <;> cases matched
      rename_i rest continued
      obtain ⟨inTargets, unseen, accepts⟩ := mem_of_find found
      obtain ⟨pairs, distinct, others⟩ := ih.mp continued
      simp only [mem_cons, not_or] at others
      exact ⟨.cons ⟨t, inTargets, rfl, accepts⟩ pairs,
        nodup_cons.mpr ⟨fun again => (others _ again).1 rfl, distinct⟩,
        forall_mem_cons.mpr ⟨unseen, fun f member => (others f member).2⟩⟩
    · rintro ⟨pairs, distinct, unseen⟩
      obtain _ | ⟨⟨t, inTargets, rfl, accepts⟩, pairs⟩ := pairs
      obtain ⟨apart, distinct⟩ := nodup_cons.mp distinct
      obtain ⟨here, later⟩ := forall_mem_cons.mp unseen
      simp only [acceptReceipts]
      cases found : targets.find? fun t => t.fragment.id ∉ seen ∧ t.accepts sigOk wire with
      | none => simpa [here, accepts] using find?_eq_none.mp found t inTargets
      | some u =>
        -- the wire names its fragment, so the row found is one of this fragment
        have same := (PlacementTarget.accepts_same (mem_of_find found).2.2 accepts).1
        have others : ∀ f ∈ _, f ∉ t.fragment.id :: seen := fun f member =>
          not_mem_cons_of_ne_of_not_mem (fun again => apart (again ▸ member)) (later f member)
        simp only [same, ih.mpr ⟨pairs, distinct, others⟩]

/-- Every matched fragment has a target of the map that accepted one of the wires. -/
theorem acceptReceipts_sound (matched : acceptReceipts sigOk targets seen wires = some accepted) :
    ∀ f ∈ accepted, ∃ t ∈ targets, t.fragment.id = f ∧ ∃ w ∈ wires, t.accepts sigOk w = true := by
  intro f member
  obtain ⟨w, inWires, t, inTargets, same, accepts⟩ :=
    forall₂_left (acceptReceipts_iff.mp matched).1 member
  exact ⟨t, inTargets, same, w, inWires, accepts⟩

/-- A commit that succeeds has accepted every wire. -/
theorem acceptReceipts_all (matched : acceptReceipts sigOk targets seen wires = some accepted) :
    ∀ w ∈ wires, ∃ t ∈ targets, t.fragment.id ∈ accepted ∧ t.accepts sigOk w = true := by
  intro w member
  obtain ⟨f, isAccepted, t, inTargets, rfl, accepts⟩ :=
    forall₂_right (acceptReceipts_iff.mp matched).1 member
  exact ⟨t, inTargets, isAccepted, accepts⟩

theorem uploadReceipts_ok (ok : uploadReceipts sigOk targets wires = .ok stored) :
    ∃ accepted, acceptReceipts sigOk (byFragment targets) (alreadyStored targets) wires =
      some accepted ∧ stored = alreadyStored targets ++ accepted := by
  simp only [uploadReceipts] at ok
  split at ok <;> cases ok
  exact ⟨_, ‹_›, rfl⟩

theorem repairReceipts_ok (ok : repairReceipts sigOk targets wires = .ok stored) :
    acceptReceipts sigOk (byFragment targets) [] wires = some stored := by
  simp only [repairReceipts] at ok
  split at ok <;> cases ok
  assumption

theorem DB.commitRepair_ok {db db' : DB} (ok : db.commitRepair sigOk targets wires = .ok db') :
    ∃ accepted, acceptReceipts sigOk (byFragment targets) [] wires = some accepted ∧
      db' = db.commitRepairPlacements accepted := by
  simp only [commitRepair] at ok
  split at ok <;> cases ok
  exact ⟨_, repairReceipts_ok ‹_›, rfl⟩

end Matching

end StoragePlatform
