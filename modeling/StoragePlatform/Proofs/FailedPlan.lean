/-
Module: StoragePlatform.Proofs.FailedPlan
Purpose: What the failure of one PlanUpload does to the plan another one has
  returned.
Trusted boundary: none
Main exports: Fails, PlanKept, FailureSpares, NoCreator, failures_spare_plan
-/
import StoragePlatform.Proofs.Manifest
import StoragePlatform.Proofs.Resubmit

namespace StoragePlatform

open Lib List Sample

variable {ownerId versionId fragmentId : Uuid} {call call' : Call} {db db' : DB}
variable {planned : PlannedUpload} {i : Nat} {assigns : List PlaceAssign}

/-!
Only the call that has created a version aborts it when it fails; a call that
resumed the version leaves it alone.  So a plan is safe from the failures of others
if, when it began, the call that created its version was not in flight any more.
-/

/-! ### Calls that plan -/

def Planner.upload? : Planner → Option PlannedUpload
  | .upload planned => some planned
  | .repair _ _ => none

/-- The upload a planning call is for, until it has returned. -/
def Call.plan? : Call → Option PlannedUpload
  | .placing plan | .inserting plan _ _ => plan.upload?
  | .uploadFailed planned => some planned
  | _ => none

theorem Planner.plan_failed (plan : Planner) : plan.failed.plan? = plan.upload? := by
  cases plan <;> rfl

/-- The version a planning call in flight has created. -/
def Call.creates? (call : Call) : Option Uuid :=
  call.plan?.bind fun planned => if planned.resume then none else some planned.version.id

/-- The version a call with this manifest would resume was not created by a call that
is still in flight. -/
def NoCreator (s : System) (m : UploadManifest) : Prop :=
  ∀ v ∈ s.db.resumable m, ∀ call ∈ s.calls, call.creates? ≠ some v.id
deriving Decidable

/-- The plan of call `i` runs into an error, or its deferred function runs. -/
def Fails (i : Nat) (s : System) (e : Event) (t : System) : Prop :=
  ∃ planned m, e = .move i m ∧
    (t.calls[i]? = some (.uploadFailed planned) ∨
      (s.calls[i]? = some (.uploadFailed planned) ∧ m = .abort))

/-- A ticket of the plan is for the placement. -/
def PlanResult.HasTicket (result : PlanResult) (p : Placement) : Prop :=
  ∃ ticket ∈ result.placements, ticket.fragmentId = p.fragmentId ∧ ticket.nodeId = p.nodeId

/-- The version stays pending, the pending placements of the plan stay, and a commit
that would have succeeded still does. -/
structure PlanKept (sigOk : SigCheck) (result : PlanResult) (db db' : DB) : Prop where
  version : ∀ v ∈ db.versions, v.id = result.uploadId → v.status = .pending → v ∈ db'.versions
  placements : ∀ p ∈ db.placements, p.status = .pending → result.HasTicket p →
    p ∈ db'.placements
  commits : ∀ (ownerId : Uuid) (call : CommitCall),
    (call.run sigOk ownerId result.uploadId db).isSome = true →
      (call.run sigOk ownerId result.uploadId db').isSome = true

/-- The failure of any call but `j` keeps the plan. -/
def FailureSpares (sigOk : SigCheck) (j : Nat) (result : PlanResult) (s : System) (e : Event)
    (t : System) : Prop :=
  ∀ i, i ≠ j → Fails i s e t → PlanKept sigOk result s.db t.db

theorem PlanKept.refl (sigOk : SigCheck) (result : PlanResult) (db : DB) :
    PlanKept sigOk result db db :=
  ⟨fun _ member _ _ => member, fun _ member _ _ => member, fun _ _ ok => ok⟩

/-! ### Aborting another version -/

section Abort

variable {other : Uuid}

theorem DB.fragmentOfVersion_iff :
    db.fragmentOfVersion versionId fragmentId = true ↔
      ∃ fr ∈ db.fragments, ∃ c ∈ db.chunks,
        fr.id = fragmentId ∧ c.id = fr.chunkId ∧ c.versionId = versionId := by
  simp only [fragmentOfVersion, any_eq_true, decide_eq_true_eq]
  constructor
  · rintro ⟨fr, inFragments, same, c, inChunks, ofChunk, ofVersion⟩
    exact ⟨fr, inFragments, c, inChunks, same, ofChunk, ofVersion⟩
  · rintro ⟨fr, inFragments, c, inChunks, same, ofChunk, ofVersion⟩
    exact ⟨fr, inFragments, same, c, inChunks, ofChunk, ofVersion⟩

/-- A fragment is of one version. -/
theorem DB.fragmentOfVersion_unique (schema : db.Schema)
    (one : db.fragmentOfVersion versionId fragmentId = true)
    (two : db.fragmentOfVersion other fragmentId = true) : versionId = other := by
  obtain ⟨fr, inFragments, c, inChunks, same, ofChunk, rfl⟩ := fragmentOfVersion_iff.mp one
  obtain ⟨fr', inFragments', c', inChunks', same', ofChunk', rfl⟩ := fragmentOfVersion_iff.mp two
  have sameFragment := schema.fragment_pk.eq_of_key inFragments inFragments' (same.trans same'.symm)
  subst sameFragment
  rw [schema.chunk_pk.eq_of_key inChunks inChunks' (ofChunk.trans ofChunk'.symm)]

/-- The placements an abort leaves. -/
def DB.keptByAbort (db : DB) (other : Uuid) : List Placement :=
  db.placements.filter fun p => !(p.status = .pending ∧ db.fragmentOfVersion other p.fragmentId)

/-- What `AbortUpload` does, in one equation. -/
theorem DB.abortUpload_eq (db : DB) (other : Uuid) :
    ∃ set : FileVersion → FileVersion,
      (∀ v, (set v).id = v.id ∧ (set v).fileId = v.fileId) ∧ (∀ v, v.id ≠ other → set v = v) ∧
      db.abortUpload other =
        { db with placements := db.keptByAbort other, versions := db.versions.map set } := by
  rw [abortUpload]
  split
  · exact ⟨id, fun _ => ⟨rfl, rfl⟩, fun _ _ => rfl, by rw [map_id]; rfl⟩
  · refine ⟨fun v => if v.id = other ∧ v.status = .pending then { v with status := .aborted }
      else v, fun v => ?_, fun v differs => if_neg fun both => differs both.1, ?_⟩
    · dsimp only
      split <;> exact ⟨rfl, rfl⟩
    · simp [updateWhere, keptByAbort]

/-- The health of a chunk once placements are marked stored, read off the rows before. -/
theorem DB.health_markStored (rows : List Placement) (stored : List Uuid) (chunkId : Uuid) :
    { db with placements := markStored stored rows }.chunkHealth chunkId =
      (innerJoin (fun (p : Placement) (fr : Fragment) => decide (fr.id = p.fragmentId)) rows
        db.fragments).countP fun pf => pf.2.chunkId = chunkId ∧
          (pf.1.status = .stored ∨ (pf.1.status = .pending ∧ pf.1.fragmentId ∈ stored)) := by
  have joined := @innerJoin_updateWhere Placement Fragment
    (fun p fr => decide (fr.id = p.fragmentId))
    (fun p => decide (p.status = .pending ∧ p.fragmentId ∈ stored)) (Placement.setStatus .stored)
    (fun _ _ => rfl) rows db.fragments
  rw [chunkHealth, placedFragments, markStored_eq]
  dsimp only
  rw [joined, countP_map]
  refine countP_congr fun pf _ => ?_
  simp only [Function.comp_apply, decide_eq_true_eq]
  refine and_congr_right fun _ => ?_
  split
  · rename_i chosen
    simp [chosen, Placement.setStatus]
  · rename_i unchosen
    simp [unchosen]

variable (schema : db.Schema) (differ : versionId ≠ other)
include schema differ

/-- The rows an abort of another version deletes are not of this one. -/
theorem DB.kept_of_fragmentOfVersion {p : Placement}
    (ofVersion : db.fragmentOfVersion versionId p.fragmentId = true) :
    (!decide (p.status = .pending ∧ db.fragmentOfVersion other p.fragmentId = true)) = true := by
  rw [Bool.not_eq_true', decide_eq_false_iff_not]
  exact fun both => differ (fragmentOfVersion_unique schema ofVersion both.2)

theorem DB.abortUpload_targets :
    (db.abortUpload other).pendingTargetsForVersion versionId =
      db.pendingTargetsForVersion versionId := by
  obtain ⟨set, -, -, result⟩ := abortUpload_eq db other
  rw [result, pendingTargetsForVersion, pendingTargetsForVersion, placementTargets,
    placementTargets, placedFragments, placedFragments, keptByAbort, innerJoin_filter_left,
    innerJoin_filter_left, filter_map, filter_map, filter_filter]
  refine congrArg _ (filter_congr fun pfn member => ?_)
  obtain ⟨⟨p, fr⟩, n⟩ := pfn
  obtain ⟨inJoin, -, -⟩ := mem_innerJoin.mp member
  obtain ⟨-, inFragments, joined⟩ := mem_innerJoin.mp inJoin
  simp only [Function.comp_apply]
  cases wanted : decide (p.live = true ∧ (db.chunks.any fun c =>
    c.id = fr.chunkId ∧ c.versionId = versionId) = true) with
  | false => rfl
  | true =>
    obtain ⟨-, inVersion⟩ := of_decide_eq_true wanted
    obtain ⟨c, inChunks, ofChunk⟩ := any_eq_true.mp inVersion
    have ofVersion : db.fragmentOfVersion versionId p.fragmentId = true :=
      fragmentOfVersion_iff.mpr ⟨fr, inFragments, c, inChunks, of_decide_eq_true joined,
        of_decide_eq_true ofChunk⟩
    rw [Bool.true_and]
    exact kept_of_fragmentOfVersion schema differ ofVersion

/-- A chunk of this version is as healthy after the same placements were stored. -/
theorem DB.abortUpload_health (stored : List Uuid) {c : Chunk} (inChunks : c ∈ db.chunks)
    (ofVersion : c.versionId = versionId) :
    { db with placements := markStored stored (db.keptByAbort other) }.chunkHealth c.id =
      { db with placements := markStored stored db.placements }.chunkHealth c.id := by
  rw [health_markStored, health_markStored, keptByAbort, innerJoin_filter_left, countP_filter]
  refine countP_congr fun pf member => ?_
  obtain ⟨p, fr⟩ := pf
  obtain ⟨-, inFragments, joined⟩ := mem_innerJoin.mp member
  rw [Bool.and_eq_true, and_iff_left_iff_imp]
  intro counted
  have ofChunk := (of_decide_eq_true counted).1
  refine kept_of_fragmentOfVersion schema differ (fragmentOfVersion_iff.mpr ?_)
  exact ⟨fr, inFragments, c, inChunks, of_decide_eq_true joined, ofChunk.symm, ofVersion⟩

theorem DB.abortUpload_shortChunks (stored : List Uuid) :
    { db with placements := markStored stored (db.keptByAbort other) }.shortChunks versionId =
      { db with placements := markStored stored db.placements }.shortChunks versionId := by
  refine filter_congr fun c inChunks => ?_
  by_cases ofVersion : c.versionId = versionId
  · rw [abortUpload_health schema differ stored inChunks ofVersion]
  · simp [ofVersion]

theorem DB.abortUpload_commits {stored : List Uuid} {result : (File × FileVersion) × DB}
    (ok : db.commitUpload ownerId versionId stored = .ok result) :
    ∃ result', (db.abortUpload other).commitUpload ownerId versionId stored = .ok result' := by
  obtain ⟨set, keys, untouched, after⟩ := abortUpload_eq db other
  have scanned : ∀ {f v}, db.scanVersion ownerId versionId = .ok (f, v) →
      (db.abortUpload other).scanVersion ownerId versionId = .ok (f, v) := by
    intro f v found
    have mapped := @DB.scanVersion_map db (db.abortUpload other) id set (by rw [after])
      (by rw [after, map_id]) (by rw [after]) (fun _ => ⟨rfl, rfl, rfl⟩) keys ownerId
      versionId
    obtain ⟨-, sameId, -⟩ := scanVersion_inv found
    rw [mapped, found]
    have same : set v = v := untouched v fun isOther => differ (sameId.symm.trans isOther)
    simp [Except.map, same]
  obtain ⟨pair, db'⟩ := result
  cases commitUpload_inv ok with
  | already found before => simp [commitUpload, scanned found, before]
  | now found pending enough =>
    have enough' : { db.abortUpload other with
        placements := markStored stored (db.abortUpload other).placements }.shortChunks
          versionId = [] := by
      rw [after]
      exact (abortUpload_shortChunks schema differ stored).trans enough
    simp [commitUpload, scanned found, pending, enough']

end Abort

section Kept

variable {sigOk : SigCheck} {result : PlanResult} {other : Uuid}

theorem CommitCall.run_isSome {call : CommitCall} :
    (call.run sigOk ownerId versionId db).isSome = true ↔
      ∃ stored committed,
        uploadReceipts sigOk (call.targets versionId db) call.wires = .ok stored ∧
          db.commitUpload ownerId versionId stored = .ok committed := by
  simp only [run, DB.commitUploadReceipts]
  cases uploadReceipts sigOk (call.targets versionId db) call.wires with
  | error e => simp
  | ok stored =>
    cases done : db.commitUpload ownerId versionId stored with
    | error e => simp [done]
    | ok committed =>
      obtain ⟨⟨f, v⟩, db'⟩ := committed
      simp [done]

/-- The abort of another version keeps the plan. -/
theorem planKept_abort (schema : db.Schema)
    (tickets : ∀ ticket ∈ result.placements,
      db.fragmentOfVersion result.uploadId ticket.fragmentId = true)
    (differ : result.uploadId ≠ other) : PlanKept sigOk result db (db.abortUpload other) where
  version v member sameId _ := by
    obtain ⟨set, -, untouched, after⟩ := DB.abortUpload_eq db other
    rw [after]
    exact mem_map.mpr ⟨v, member, untouched v fun isOther => differ (sameId.symm.trans isOther)⟩
  placements p member _ := by
    rintro ⟨ticket, issued, sameFragment, -⟩
    obtain ⟨set, -, -, after⟩ := DB.abortUpload_eq db other
    rw [after]
    have ofVersion := tickets ticket issued
    rw [sameFragment] at ofVersion
    exact mem_filter.mpr ⟨member, DB.kept_of_fragmentOfVersion schema differ ofVersion⟩
  commits ownerId call succeeds := by
    obtain ⟨stored, committed, matched, ok⟩ := CommitCall.run_isSome.mp succeeds
    obtain ⟨committed', ok'⟩ := DB.abortUpload_commits schema differ ok
    have targets : call.targets result.uploadId (db.abortUpload other) =
        call.targets result.uploadId db := by
      rw [CommitCall.targets, CommitCall.targets, DB.abortUpload_targets schema differ]
    exact CommitCall.run_isSome.mpr ⟨stored, committed', targets ▸ matched, ok'⟩

end Kept

/-! ### Who has created a version -/

section Creators

variable {sigOk : SigCheck} {s t : System} {e : Event}

theorem Call.creates_eq (creates : call.creates? = some versionId) :
    ∃ planned, call.plan? = some planned ∧ planned.resume = false ∧
      planned.version.id = versionId := by
  obtain ⟨planned, plans, fresh⟩ := Option.bind_eq_some_iff.mp creates
  split at fresh
  · cases fresh
  · rename_i new
    exact ⟨planned, plans, Bool.eq_false_iff.mpr new, Option.some.inj fresh⟩

/-- A call that moves on plans what it planned. -/
theorem Advanced.plan {m : Move} (advanced : Advanced db call m call' db')
    (plans : call'.plan? = some planned) : call.plan? = some planned := by
  cases advanced with
  | placingFailed | placeRefused | insertingFailed | insertRefused =>
    rwa [Planner.plan_failed] at plans
  | nothingToPlace | placed | inserted | planRefused => exact plans
  | loaded => cases plans
  | _ => cases plans

/-- Only PlanUpload begins a plan of an upload. -/
theorem CallBegun.plan {r : Request} (begun : CallBegun sigOk db r call db')
    (plans : call.plan? = some planned) :
    ∃ ownerId m gen, r = .planUpload ownerId m gen ∧
      db.beginUpload ownerId m gen = .ok (planned, db') := by
  cases begun with
  | planUpload ok =>
    cases plans
    exact ⟨_, _, _, rfl, ok⟩
  | _ => cases plans

/-- BeginUpload either resumes the version it may resume, or makes a new one. -/
theorem DB.beginUpload_version {m : UploadManifest} {gen : Nat → Uuid}
    (begun : db.beginUpload ownerId m gen = .ok (planned, db')) :
    planned.version ∈ db'.versions ∧
      planned = db'.loadPlanned planned.file planned.version planned.resume ∧
      (if planned.resume then db.resumable m = some planned.version
        else ∀ v ∈ db.versions, v.id ≠ planned.version.id) := by
  have inserted : ∀ {db₀ : DB} {file : File}, db₀.insertUpload file m gen = .ok (planned, db') →
      db₀.versions = db.versions →
      planned.version ∈ db'.versions ∧
        planned = db'.loadPlanned planned.file planned.version planned.resume ∧
        (if planned.resume then db.resumable m = some planned.version
          else ∀ v ∈ db.versions, v.id ≠ planned.version.id) := by
    intro db₀ file ok same
    obtain ⟨fresh, -, rfl⟩ := DB.insertUpload_inv ok
    refine ⟨?_, rfl, fun v member => fresh v (same ▸ member)⟩
    rw [(DB.insertUpload_files_versions ok).2]
    exact mem_append_right _ mem_cons_self
  cases (DB.beginUpload_inv begun).1 with
  | newFile _ _ _ _ ok => exact inserted ok rfl
  | newVersion _ _ _ _ _ _ ok => exact inserted ok rfl
  | @resumed _ _ _ version clean owned found uploading pending same =>
    have listed := mem_of_head? pending
    refine ⟨(mem_filter.mp (mem_orderBy.mp listed)).1, rfl, ?_⟩
    simp only [DB.loadPlanned, if_true, DB.resumable, clean, found, uploading]
    exact pending

/-- A version whose creator is in flight is in the table. -/
def CreatedKnown (s : System) : Prop :=
  ∀ call ∈ s.calls, ∀ versionId, call.creates? = some versionId →
    ∃ v ∈ s.db.versions, v.id = versionId

theorem version_kept (moved : step sigOk s e = some t)
    (known : ∃ v ∈ s.db.versions, v.id = versionId) : ∃ v ∈ t.db.versions, v.id = versionId := by
  obtain ⟨v, member, same⟩ := known
  obtain ⟨v', member', kept⟩ := (step_grows moved).versions v member
  exact ⟨v', member', kept.fields.1.trans same⟩

/-- The creator of a version after a step was its creator before, in the same place,
or is a new call for a version that was not there. -/
theorem step_creator (moved : step sigOk s e = some t) (current : t.calls[i]? = some call)
    (creates : call.creates? = some versionId) :
    (∃ old, s.calls[i]? = some old ∧ old.creates? = some versionId) ∨
      ((∀ v ∈ s.db.versions, v.id ≠ versionId) ∧ ∃ v ∈ t.db.versions, v.id = versionId) := by
  cases step_inv moved with
  | @request r new db' begun =>
    rcases getElem?_append_inv current with current | ⟨-, rfl⟩
    · exact .inl ⟨call, current, creates⟩
    · obtain ⟨planned, plans, fresh, rfl⟩ := Call.creates_eq creates
      obtain ⟨_, _, _, _, uploaded⟩ := (begin_inv begun).plan plans
      obtain ⟨member, -, new⟩ := DB.beginUpload_version uploaded
      rw [fresh] at new
      exact .inr ⟨new, planned.version, member, rfl⟩
  | @move k m old call' db' here advanced =>
    rcases getElem?_set_inv current with ⟨rfl, rfl⟩ | ⟨-, current⟩
    · refine .inl ⟨old, here, ?_⟩
      obtain ⟨planned, plans, -⟩ := Call.creates_eq creates
      rw [Call.creates?, advanced.plan plans, ← plans]
      exact creates
    · exact .inl ⟨call, current, creates⟩
  | act acted => exact .inl ⟨call, current, creates⟩

theorem step_createdKnown (moved : step sigOk s e = some t) (known : CreatedKnown s) :
    CreatedKnown t := by
  intro call inFlight versionId creates
  obtain ⟨i, current⟩ := mem_iff_getElem?.mp inFlight
  rcases step_creator moved current creates with ⟨old, here, created⟩ | ⟨-, found⟩
  · exact version_kept moved (known old (mem_of_getElem? here) versionId created)
  · exact found

theorem reached_createdKnown {events : List Event}
    (reached : exec (step sigOk) System.init events = some s) : CreatedKnown s :=
  exec_induction (fun _ _ _ known moved => step_createdKnown moved known)
    (fun _ none => absurd none not_mem_nil) reached

end Creators

/-! ### The tickets of a plan -/

section Tickets

variable {sign : SignTicket}

theorem signPlacements_tickets {pairs : List (Uuid × Node)} {pending : List PlannedFragment}
    {signed : List PlannedPlacement × Option Time}
    (ok : signPlacements sign pairs pending = .ok signed) :
    ∀ ticket ∈ signed.1, ∃ pf ∈ pending, pf.fragment.id = ticket.fragmentId := by
  induction pending generalizing signed with
  | nil =>
    cases ok
    exact fun _ none => absurd none not_mem_nil
  | cons pf rest ih =>
    have later : ∀ {more}, signPlacements sign pairs rest = .ok more → ∀ ticket ∈ more.1,
        ∃ pf' ∈ pf :: rest, pf'.fragment.id = ticket.fragmentId := by
      intro more rested ticket member
      obtain ⟨pf', inRest, same⟩ := ih rested ticket member
      exact ⟨pf', mem_cons_of_mem _ inRest, same⟩
    simp only [signPlacements] at ok
    split at ok
    · exact later ok
    · split at ok
      · cases ok
      · split at ok <;> cases ok
        rename_i rested
        intro ticket member
        rcases mem_cons.mp member with rfl | member
        · exact ⟨pf, mem_cons_self, rfl⟩
        · exact later rested ticket member

theorem uploadPlan_tickets {result : PlanResult}
    (issued : db.uploadPlan sign planned assigns = .ok result) :
    ∀ ticket ∈ result.placements, ∃ pf ∈ planned.pending,
      pf.fragment.id = ticket.fragmentId := by
  simp only [DB.uploadPlan] at issued
  repeat' split at issued
  all_goals cases issued
  all_goals exact signPlacements_tickets ‹_›

theorem DB.loadPlanned_pending {file : File} {version : FileVersion} {resume : Bool}
    {pf : PlannedFragment} (waits : pf ∈ (db.loadPlanned file version resume).pending) :
    db.fragmentOfVersion version.id pf.fragment.id = true := by
  obtain ⟨inChunks, ofVersion, inFragments, ofChunk⟩ :=
    mem_plannedFragments (mem_filter.mp waits).1
  exact fragmentOfVersion_iff.mpr ⟨_, inFragments, _, inChunks, rfl, ofChunk.symm, ofVersion⟩

end Tickets

/-! ### Runs -/

section Runs

variable {sigOk : SigCheck} {s t : System} {e : Event} {j : Nat} {result : PlanResult}

/-- What protects the plan of call `j`: no other call in flight would abort its
version. -/
structure Unthreatened (j : Nat) (result : PlanResult) (s : System) : Prop where
  schema : s.db.Schema
  version : ∃ v ∈ s.db.versions, v.id = result.uploadId
  tickets : ∀ ticket ∈ result.placements,
    s.db.fragmentOfVersion result.uploadId ticket.fragmentId = true
  others : ∀ i call, i ≠ j → s.calls[i]? = some call → call.creates? ≠ some result.uploadId

theorem Unthreatened.kept (safe : Unthreatened j result s) (moved : step sigOk s e = some t) :
    Unthreatened j result t where
  schema := step_schema _ _ _ safe.schema moved
  version := version_kept moved safe.version
  tickets ticket issued := by
    obtain ⟨fr, inFragments, c, inChunks, known⟩ :=
      DB.fragmentOfVersion_iff.mp (safe.tickets ticket issued)
    have grows := step_grows moved
    exact DB.fragmentOfVersion_iff.mpr
      ⟨fr, grows.fragments inFragments, c, grows.chunks inChunks, known⟩
  others i call differs current creates := by
    rcases step_creator moved current creates with ⟨old, here, created⟩ | ⟨new, -⟩
    · exact safe.others i old differs here created
    · obtain ⟨v, member, same⟩ := safe.version
      exact new v member same

/-- Running into an error changes no row. -/
theorem Advanced.into_failed {m : Move} (advanced : Advanced db call m call' db')
    (failing : call' = .uploadFailed planned) : db' = db := by
  cases advanced with
  | placingFailed | placeRefused | insertingFailed | insertRefused | planRefused => rfl
  | _ => cases failing

/-- The deferred function aborts at most the version the call has created. -/
theorem Unthreatened.spares (safe : Unthreatened j result s) (moved : step sigOk s e = some t) :
    FailureSpares sigOk j result s e t := by
  rintro i differs ⟨planned, m, rfl, failed⟩
  cases step_inv moved with
  | @move _ _ call call' db' here advanced =>
    rcases failed with failing | ⟨failing, rfl⟩
    · rw [getElem?_set_here here] at failing
      rw [advanced.into_failed (Option.some.inj failing)]
      exact PlanKept.refl sigOk result s.db
    · cases here.symm.trans failing
      cases advanced with
      | resumedLeft => exact PlanKept.refl sigOk result s.db
      | aborted fresh =>
        refine planKept_abort safe.schema safe.tickets fun same => ?_
        apply safe.others i _ differs here
        simp [Call.creates?, Call.plan?, fresh, same]

/-- Only a call that has failed runs its deferred function. -/
theorem fails_of_abort (moved : step sigOk s (.move i .abort) = some t) :
    Fails i s (.move i .abort) t := by
  cases step_inv moved with
  | move here advanced =>
    cases advanced with
    | resumedLeft | aborted => exact ⟨_, _, rfl, .inr ⟨here, rfl⟩⟩

variable {before events : List Event} {ownerId : Uuid} {m : UploadManifest} {gen : Nat → Uuid}

/-- A plan that has just begun is safe if its version's creator has returned. -/
theorem unthreatened_begun {db₁ : DB} {sign : SignTicket}
    (reached : exec (step sigOk) System.init before = some s)
    (begun : s.db.beginUpload ownerId m gen = .ok (planned, db₁))
    (issued : db.uploadPlan sign planned assigns = .ok result) (free : NoCreator s m) :
    Unthreatened s.calls.length result
      { db := db₁, calls := s.calls ++ [.placing (.upload planned)] } := by
  obtain ⟨member, loaded, origin⟩ := DB.beginUpload_version begun
  have sameId := (uploadPlan_ids issued).1
  constructor
  · exact (reachable_schema ⟨_, _, reached, rfl⟩).beginUpload begun
  · exact ⟨_, member, sameId.symm⟩
  · intro ticket given
    obtain ⟨pf, waits, same⟩ := uploadPlan_tickets issued ticket given
    rw [loaded] at waits
    rw [← same, sameId]
    exact DB.loadPlanned_pending waits
  · intro i call differs current creates
    rw [sameId] at creates
    have older : s.calls[i]? = some call :=
      (getElem?_append_inv current).resolve_right fun last => differs last.1
    have inFlight := mem_of_getElem? older
    split at origin
    · exact free planned.version origin call inFlight creates
    · obtain ⟨v, known, same⟩ := reached_createdKnown reached call inFlight _ creates
      exact origin v known same

/-- If no call in flight has created the version a plan resumes, then from its begin
on the failure of any other call leaves that version pending, leaves the placements it
returns tickets for, and makes no commit fail. -/
theorem failures_spare_plan {s₁ : System} {sign : SignTicket}
    (reached : exec (step sigOk) System.init before = some s)
    (begun : step sigOk s (.request (.planUpload ownerId m gen)) = some s₁)
    (returned : runPlan sigOk s ownerId m gen events sign = some (t, result))
    (free : NoCreator s m) (later : List Event) :
    EveryStep (step sigOk) (FailureSpares sigOk s.calls.length result) s₁ (events ++ later) := by
  obtain ⟨planned, db₁, _, assigns, _, uploaded, -, -, issued⟩ := planReturns_of_run returned
  have start := unthreatened_begun reached uploaded issued free
  simp only [step, DB.begin, uploaded, Option.some.injEq] at begun
  subst begun
  exact EveryStep.of_closed (fun _ _ _ safe moved => safe.kept moved)
    (fun _ _ _ safe moved => safe.spares moved) start

end Runs

namespace Sample

/-- The same upload, from another client. -/
def retry : Event := .request (.planUpload owner manifest gen)

/-- Call 1 places and inserts its fourteen rows. -/
def resumedMoves : List Event :=
  .move 1 (.place (env fun i => i < 14)) :: List.replicate 14 (.move 1 .insert)

/-- The third client gives up while the second one is placing. -/
def thirdFails : List Event :=
  retry :: .move 2 .fail :: .move 2 .abort :: resumedMoves

end Sample

/-- The first client is gone.  The second resumes its upload, and the failure of the
third takes nothing from it. -/
theorem third_failure_spares :
    ∃ s s₁ t result,
      exec (step toySig) System.init (registered ++ [retry, .move 0 .crash]) =
        some s ∧
      s.db.resumable manifest = some pendingVersion ∧
      step toySig s retry = some s₁ ∧
      runPlan toySig s owner manifest Sample.gen thirdFails Sample.sign =
        some (t, result) ∧
      EveryStep (step toySig) (FailureSpares toySig s.calls.length result) s₁
        (thirdFails ++ []) := by
  have ran : (exec (step toySig) System.init (registered ++ [retry, .move 0 .crash])).map (fun s =>
        (s.db.resumable manifest, decide (NoCreator s manifest),
          (step toySig s retry).isSome,
          (runPlan toySig s owner manifest Sample.gen thirdFails
            Sample.sign).isSome)) = some (some pendingVersion, true, true, true) := by
    decide +kernel
  obtain ⟨s, reached, facts⟩ := Option.map_eq_some_iff.mp ran
  simp only [Prod.mk.injEq, decide_eq_true_eq] at facts
  obtain ⟨resumes, free, begins, returns⟩ := facts
  obtain ⟨s₁, begun⟩ := Option.isSome_iff_exists.mp begins
  obtain ⟨⟨t, result⟩, returned⟩ := Option.isSome_iff_exists.mp returns
  exact ⟨s, s₁, t, result, reached, resumes, begun, returned,
    failures_spare_plan reached begun returned free []⟩

/-- The first client has created the version and is slow.  The second resumes it and
returns fourteen tickets; then the first one fails.  The version is aborted, the
fourteen placements are gone, and the second client's commit is refused. -/
theorem creator_failure_destroys_plan :
    ∃ s s₁ t result u u',
      exec (step toySig) System.init (registered ++ [retry]) = some s ∧
      step toySig s retry = some s₁ ∧
      runPlan toySig s owner manifest Sample.gen resumedMoves Sample.sign =
        some (t, result) ∧
      result.placements.length = 14 ∧
      exec (step toySig) s₁ (resumedMoves ++ [.move 1 (.finish Sample.sign),
        .move 0 .fail]) = some u ∧
      ((commitWith (receipts 0 14)).run toySig owner result.uploadId
        u.db).isSome = true ∧
      step toySig u (.move 0 .abort) = some u' ∧
      u'.db.versions.map FileVersion.status = [.aborted] ∧ u'.db.placements = [] ∧
      ((commitWith (receipts 0 14)).run toySig owner result.uploadId
        u'.db).isSome = false ∧
      ¬ EveryStep (step toySig) (FailureSpares toySig s.calls.length result) s₁
        (resumedMoves ++ [.move 1 (.finish Sample.sign), .move 0 .fail] ++
          [.move 0 .abort]) := by
  have ran : ((exec (step toySig) System.init (registered ++ [retry])).bind fun s =>
      (step toySig s retry).bind fun s₁ =>
      (runPlan toySig s owner manifest Sample.gen resumedMoves
        Sample.sign).bind fun tr =>
      (exec (step toySig) s₁ (resumedMoves ++ [.move 1 (.finish Sample.sign),
        .move 0 .fail])).bind fun u =>
      (step toySig u (.move 0 .abort)).map fun u' =>
        (s.calls.length, tr.2.placements.length,
          decide (tr.2.uploadId = pendingVersion.id ∧ u.db = Sample.planned.db),
          u'.db.versions.map FileVersion.status, u'.db.placements.isEmpty,
          ((commitWith (receipts 0 14)).run toySig owner tr.2.uploadId
            u'.db).isSome)) = some (1, 14, true, [.aborted], true, false) := by
    decide +kernel
  simp only [Option.bind_eq_some_iff, Option.map_eq_some_iff, Prod.mk.injEq,
    List.isEmpty_iff, decide_eq_true_eq] at ran
  obtain ⟨s, reached, s₁, begun, ⟨t, result⟩, returned, u, later, u', aborts, second, tickets,
    ⟨upload, kept⟩, aborted, gone, refused⟩ := ran
  have commits : ((commitWith (receipts 0 14)).run toySig owner
      result.uploadId u.db).isSome = true := by
    rw [upload, kept, planned_calls.2.2.2.2.1, Option.isSome_some]
  refine ⟨s, s₁, t, result, u, u', reached, begun, returned, tickets, later, commits, aborts,
    aborted, gone, refused, fun spared => ?_⟩
  have kept := (spared.last later aborts) 0 (by omega) (fails_of_abort aborts)
  have still := kept.commits owner (commitWith (receipts 0 14)) commits
  rw [refused] at still
  cases still

end StoragePlatform
