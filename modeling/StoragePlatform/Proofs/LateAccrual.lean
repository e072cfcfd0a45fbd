/-
Module: StoragePlatform.Proofs.LateAccrual
Purpose: What an accrual that runs late posts, compared with one that runs as soon
  as its hour has ended, over every later history.
Trusted boundary: none
Main exports: keepsStored, keepsCommitted, Metered.earns, Metered.neutral, late_accrual
-/
import StoragePlatform.Ledger.Metered
import StoragePlatform.Proofs.Owners

namespace StoragePlatform

open Lib List Sample

variable {sel : File → Bool} {fileId nodeId : Uuid} {f : File} {set : NodeStat → NodeStat}
variable {m : UploadManifest} {now window : Time} {row : NodeStat} {next : System} {event : Event}
variable {reliability reliability' : ReliabilityMeter} {real : UsageDB.PgReal}

/-! ### The condition -/

/-- No placement becomes stored or stops being stored. -/
def keepsStored (s : System) (e : Event) : Bool :=
  s.db.placements.all fun p =>
    decide ((rowOp s e).after p = some .stored) == decide (p.status = .stored)

/-- No version is committed and none is deleted while it is committed. -/
def keepsCommitted (s : System) : Event → Bool
  | .move i .commit =>
    match s.calls[i]? with
    | some (.committing (.upload ownerId versionId) _ _ stored) =>
      !s.db.uploadCommits ownerId versionId stored
    | _ => true
  | .move i (.delete _) =>
    match s.calls[i]? with
    | some (.deleting f) =>
      s.db.versions.all fun v => v.status ≠ .committed ∨ s.db.versionOf f.inDelete v = false
    | _ => true
  | _ => true

/-- The node holds stored fragments, or has served bytes in the hour. -/
def Metered.earns (s : Metered) (window : Time) (nodeId : Uuid) : Bool :=
  (s.usage.db.placements.any fun p => p.nodeId = nodeId ∧ p.status = .stored) ||
    s.usage.stats.any fun row =>
      row.nodeId = nodeId ∧ row.windowStart = truncHour window ∧ 0 < row.bytesServed

/-- An event after which the present is still like the end of the hour: what is stored
stays, and so do the reputation and the 30-day record of every node that earns. -/
def Metered.neutral (s : Metered) (window : Time) : MeterEvent → Bool
  | .tick seconds =>
    s.usage.stats.all fun row =>
      !s.earns window row.nodeId || decide (row.windowStart ≤ s.now - UsageDB.thirtyDays) ||
        decide (s.now + seconds - UsageDB.thirtyDays < row.windowStart)
  | .system e => keepsStored s.system e && keepsCommitted s.system e
  | .reputation nodeId value => !s.earns window nodeId || decide (value = s.reputation nodeId)
  | .receipt _ _ _ _ _ => true
  | .bytes nodeId ingested served =>
    !s.earns window nodeId || decide (ingested = 0 ∧ served = 0) ||
      s.usage.stats.any fun row => row.nodeId = nodeId ∧ row.windowStart = truncHour s.now
  | .rollup nodeId hour uptime =>
    !s.earns window nodeId || s.usage.stats.any fun row =>
      row.nodeId = nodeId ∧ row.windowStart = truncHour hour ∧ row.uptimeRatio = uptime
  | .audit nodeId _ => !s.earns window nodeId

/-! ### The meters as lookups -/

section Tables

variable {db db' : DB}

/-- The keys by which an owner is found. -/
structure DB.OwnerKeys (db : DB) : Prop where
  files : UniqueOn File.id db.files
  buckets : UniqueOn Bucket.id db.buckets

/-- A selected file is in a bucket of the user. -/
def DB.OwnsWhere (db : DB) (sel : File → Bool) (userId fileId : Uuid) : Prop :=
  ∃ f ∈ db.files, f.id = fileId ∧ sel f = true ∧
    ∃ b ∈ db.buckets, b.id = f.bucketId ∧ b.ownerId = userId

def DB.ownerWhere (db : DB) (sel : File → Bool) (fileId : Uuid) : Option Uuid :=
  (db.files.find? fun f => decide (f.id = fileId) && sel f).bind fun f =>
    (db.buckets.find? fun b => b.id = f.bucketId).map Bucket.ownerId

/-- `f.deleted_at IS NULL`. -/
def File.isLive (f : File) : Bool := f.deletedAt = none

theorem DB.OwnerKeys.ownerWhere_eq_some (keys : db.OwnerKeys) {userId : Uuid} :
    db.ownerWhere sel fileId = some userId ↔ db.OwnsWhere sel userId fileId := by
  simp only [DB.ownerWhere, Option.bind_eq_some_iff, Option.map_eq_some_iff]
  constructor
  · rintro ⟨f, foundFile, b, foundBucket, rfl⟩
    have file := find?_some foundFile
    have bucket := find?_some foundBucket
    simp only [Bool.and_eq_true, decide_eq_true_eq] at file bucket
    exact ⟨f, mem_of_find?_eq_some foundFile, file.1, file.2, b,
      mem_of_find?_eq_some foundBucket, bucket, rfl⟩
  · rintro ⟨f, inFiles, sameId, selected, b, inBuckets, ofFile, rfl⟩
    refine ⟨f, ?_, b, keys.buckets.find_key inBuckets ofFile, rfl⟩
    cases found : db.files.find? fun f => decide (f.id = fileId) && sel f with
    | none =>
      have none_ := find?_eq_none.mp found f inFiles
      simp [sameId, selected] at none_
    | some g =>
      have file := find?_some found
      simp only [Bool.and_eq_true, decide_eq_true_eq] at file
      rw [keys.files.eq_of_key (mem_of_find?_eq_some found) inFiles (file.1.trans sameId.symm)]

/-- A table joined with its files and their buckets, read off as owner and value. -/
theorem map_owned_join {α : Type} (keys : db.OwnerKeys) {on : α → File → Bool}
    (sel : File → Bool) (fileId : α → Uuid) (value : α → Int)
    (joins : ∀ a f, on a f = (decide (f.id = fileId a) && sel f)) (rows : List α) :
    (innerJoin (fun row b => b.id = row.2.bucketId) (innerJoin on rows db.files) db.buckets).map
        (fun row => (row.2.ownerId, value row.1.1)) =
      rows.filterMap fun a => (db.ownerWhere sel (fileId a)).map fun owner => (owner, value a) := by
  rw [map_innerJoin_key (fun row : α × File => row.2.bucketId) keys.buckets
    (fun _ _ matched => of_decide_eq_true matched)]
  have keyed : ∀ a f, on a f = true → f.id = fileId a := by
    intro a f matched
    simp only [joins, Bool.and_eq_true, decide_eq_true_eq] at matched
    exact matched.1
  have first := map_innerJoin_key fileId keys.files keyed id rows
  rw [map_id] at first
  rw [first, filterMap_filterMap]
  refine filterMap_congr fun a _ => ?_
  have sameOn : on a = fun f => decide (f.id = fileId a) && sel f := funext (joins a)
  rw [DB.ownerWhere, sameOn]
  cases db.files.find? fun f => decide (f.id = fileId a) && sel f with
  | none => rfl
  | some f => simp [Function.comp_def]

/-- File and size of the committed versions. -/
def DB.committedSizes (db : DB) : List (Uuid × Int) :=
  (db.versions.filter fun v => v.status = .committed).map fun v => (v.fileId, v.sizeBytes)

theorem DB.OwnerKeys.storedBytes_eq (keys : db.OwnerKeys) :
    db.listCustomerStoredBytes = scanSums CustomerStored.mk (sumBy Prod.fst Prod.snd
      (db.committedSizes.filterMap fun fs =>
        (db.ownerWhere File.isLive fs.1).map fun owner => (owner, fs.2))) := by
  rw [DB.listCustomerStoredBytes, sumBy_eq, DB.storedVersions, map_owned_join keys File.isLive
    FileVersion.fileId FileVersion.sizeBytes (fun v f => by simp [File.isLive]),
    DB.committedSizes, filterMap_map]
  rfl

/-- The receipt was created in the hour. -/
def DownloadReceipt.inHour (window : Time) (r : DownloadReceipt) : Bool :=
  truncHour window ≤ r.createdAt ∧ r.createdAt < truncHour window + 3600

theorem DB.OwnerKeys.egressBytes_eq {s : UsageDB} (keys : s.db.OwnerKeys) (window : Time) :
    s.listCustomerEgressBytes window = scanSums CustomerEgress.mk (sumBy Prod.fst Prod.snd
      ((s.receipts.filter (·.inHour window)).filterMap fun r =>
        (s.db.ownerWhere (fun _ => true) r.fileId).map fun owner => (owner, r.bytes))) := by
  change scanSums _ (sumBy _ _ (s.receiptRows.filter fun row => row.1.1.inHour window)) = _
  rw [sumBy_eq, UsageDB.receiptRows, ← innerJoin_filter_left _
    (fun row : DownloadReceipt × File => row.1.inHour window), ← innerJoin_filter_left,
    map_owned_join keys (fun _ => true) DownloadReceipt.fileId DownloadReceipt.bytes
      (fun r f => by simp)]

/-! ### Stored bytes over a step -/

/-- The committed versions are the same, and so are the owners of their live files. -/
structure StoredFrame (db db' : DB) : Prop where
  sizes : db'.committedSizes = db.committedSizes
  live : ∀ fs ∈ db.committedSizes, ∀ owner,
    db'.OwnsWhere File.isLive owner fs.1 ↔ db.OwnsWhere File.isLive owner fs.1

theorem StoredFrame.storedBytes (frame : StoredFrame db db') (keys : db.OwnerKeys)
    (keys' : db'.OwnerKeys) : db'.listCustomerStoredBytes = db.listCustomerStoredBytes := by
  rw [keys.storedBytes_eq, keys'.storedBytes_eq, frame.sizes]
  congr 2
  refine filterMap_congr fun fs member => ?_
  congr 1
  refine Option.ext fun owner => ?_
  rw [keys'.ownerWhere_eq_some, keys.ownerWhere_eq_some]
  exact frame.live fs member owner

/-- An UPDATE of `file_versions` that touches no committed version and commits none. -/
theorem committedSizes_update {sel : FileVersion → Bool} {set : FileVersion → FileVersion}
    (versions : db'.versions = updateWhere sel set db.versions)
    (others : ∀ v ∈ db.versions, sel v = true → v.status ≠ .committed)
    (after : ∀ v, (set v).status ≠ .committed) : db'.committedSizes = db.committedSizes := by
  rw [DB.committedSizes, DB.committedSizes, versions, filter_updateWhere_of_dropped]
  · congr 1
    refine filter_congr fun v member => ?_
    cases chosen : sel v with
    | false => simp
    | true => simp [others v member chosen]
  · exact fun v => by simp [after v]

theorem committedSizes_insertUpload {file : File} {gen : Nat → Uuid} {planned : PlannedUpload}
    (ok : db.insertUpload file m gen = .ok (planned, db')) :
    db'.committedSizes = db.committedSizes := by
  obtain ⟨-, rows, -⟩ := DB.insertUpload_inv ok
  rw [(DB.insertChunks_rows rows).1]
  simp [DB.committedSizes, filter_append, DB.newVersion]

variable {sigOk : SigCheck} {s t : System} {e : Event}

/-- A delete then takes no committed version along. -/
theorem keepsCommitted_spares (kept : keepsCommitted s e = true) (deletes : Deletes s e f)
    {v : FileVersion} (member : v ∈ s.db.versions) (committed : v.status = .committed) :
    s.db.versionOf f.inDelete v = false := by
  obtain ⟨i, now, rfl, call⟩ := deletes
  simp only [keepsCommitted, call, all_eq_true, decide_eq_true_eq] at kept
  exact (kept v member).resolve_left (not_not_intro committed)

theorem Written.committedSizes (written : Written s e db') (kept : keepsCommitted s e = true) :
    db'.committedSizes = s.db.committedSizes := by
  cases written with
  | begun ok =>
    cases (DB.beginUpload_inv ok).1 with
    | newFile _ _ _ _ inserted | newVersion _ _ _ _ _ _ inserted =>
      exact (committedSizes_insertUpload inserted :)
    | resumed => rfl
  | inserted call ok =>
    rw [DB.insertPlacement_ok ok]
    rfl
  | aborted call fresh =>
    rw [DB.abortUpload]
    split
    · rfl
    · refine committedSizes_update rfl (fun v _ chosen => ?_) (by simp)
      rw [(of_decide_eq_true chosen).2]
      decide
  | uploaded call ok =>
    simp only [keepsCommitted, call, Bool.not_eq_true'] at kept
    cases DB.commitUpload_inv ok with
    | already found before => rfl
    | now found pending enough =>
      simp only [DB.uploadCommits, found, pending, enough] at kept
      simp at kept
  | @deleted i f now call =>
    have versions : (s.db.softDeleteTx f now).versions =
      updateWhere _ FileVersion.expire s.db.versions := rfl
    refine committedSizes_update versions (fun v member chosen committed => ?_)
      (by simp [FileVersion.expire])
    have spared := keepsCommitted_spares kept ⟨_, _, rfl, call⟩ member committed
    exact Bool.false_ne_true (spared.symm.trans (of_decide_eq_true chosen).2)
  | acted ok => cases act_inv ok <;> rfl
  | _ => rfl

theorem Written.storedFrame (written : Written s e db') (schema : s.db.Schema)
    (bucket_pk : UniqueOn Bucket.id s.db.buckets) (inBuckets : s.db.FilesInBuckets)
    (kept : keepsCommitted s e = true) : StoredFrame s.db db' where
  sizes := written.committedSizes kept
  live fs member owner := by
    have grows := written.grows
    obtain ⟨v, isCommitted, rfl⟩ := mem_map.mp member
    obtain ⟨inVersions, committed⟩ := mem_filter.mp isCommitted
    obtain ⟨f, inFiles, ofVersion⟩ := schema.version_file v inVersions
    obtain ⟨f', inFiles', sameId, sameBucket, stays⟩ := grows.files f inFiles
    have only : ∀ g ∈ s.db.files, g.id = v.fileId → g = f := fun g before same =>
      schema.file_pk.eq_of_key before inFiles (same.trans ofVersion.symm)
    have sameLife : f'.isLive = f.isLive := by
      cases written.fileFrom inFiles' with
      | kept old | renamed old | committed old =>
        exact (congrArg File.isLive (only _ old (sameId.trans ofVersion)) :)
      | deleted old chosen inDelete =>
        have belongs : s.db.versionOf _ v = true :=
          any_eq_true.mpr ⟨_, old, decide_eq_true ⟨sameId.trans ofVersion, inDelete⟩⟩
        rw [keepsCommitted_spares kept chosen inVersions (of_decide_eq_true committed)] at belongs
        cases belongs
      | added _ _ _ live =>
        rw [live] at stays
        cases deleted : f.deletedAt <;> simp_all [File.isLive]
    constructor
    · rintro ⟨g, isFile, same, live, b, isBucket, ofFile, ofOwner⟩
      obtain rfl := (written.schema schema).file_pk.eq_of_key isFile inFiles'
        (same.trans (sameId.trans ofVersion).symm)
      obtain ⟨old, isOld, ofOld⟩ := inBuckets f inFiles
      obtain rfl := (grows.bucket_pk bucket_pk).eq_of_key isBucket (grows.bucket_mem isOld)
        (ofFile.trans (sameBucket.trans ofOld.symm))
      exact ⟨f, inFiles, ofVersion, sameLife ▸ live, b, isOld, ofOld, ofOwner⟩
    · rintro ⟨g, isFile, same, live, b, isBucket, ofFile, ofOwner⟩
      obtain rfl := only g isFile same
      exact ⟨f', inFiles', sameId.trans same, sameLife ▸ live, b, grows.bucket_mem isBucket,
        ofFile.trans sameBucket.symm, ofOwner⟩

/-! ### Held bytes over a step -/

/-- An operation that keeps the stored rows stored and stores no other selects the same
stored rows. -/
theorem filter_stored_apply {op : RowOp} {rows : List Placement} (next : Nat) (nodeId : Uuid)
    (kept : ∀ p ∈ rows, op.after p = some .stored ↔ p.status = .stored) :
    (op.apply next rows).filter (fun p => p.nodeId = nodeId ∧ p.status = .stored) =
      rows.filter (fun p => p.nodeId = nodeId ∧ p.status = .stored) := by
  have added : (op.added next).filter (fun p => p.nodeId = nodeId ∧ p.status = .stored) = [] := by
    cases op <;> simp [RowOp.added]
  rw [RowOp.apply, filter_append, added, append_nil, filter_filterMap, ← filterMap_eq_filter]
  refine filterMap_congr fun p member => ?_
  have here := kept p member
  cases becomes : op.after p with
  | none =>
    have other : p.status ≠ .stored := by simpa [becomes] using here
    simp [Option.guard, other]
  | some status =>
    rw [becomes, Option.some.injEq] at here
    by_cases stored : p.status = .stored
    · rw [here.mpr stored, ← stored, Option.map_some, p.setStatus_self]
      rfl
    · have other : status ≠ .stored := fun becomesStored => stored (here.mp becomesStored)
      simp [Option.guard, Placement.setStatus, other, stored]

/-- The stored fragments of a node, looked up. -/
theorem DB.nodeHeldBytes_eq (schema : db.Schema) (nodeId : Uuid) :
    db.nodeHeldBytes nodeId =
      ((db.placements.filter fun p => p.nodeId = nodeId ∧ p.status = .stored).filterMap fun p =>
        (db.fragments.find? fun fr => fr.id = p.fragmentId).map Fragment.sizeBytes).sum := by
  rw [DB.nodeHeldBytes, DB.placedFragments, ← innerJoin_filter_left _
    (fun p : Placement => decide (p.nodeId = nodeId ∧ p.status = .stored)),
    map_innerJoin_key Placement.fragmentId schema.fragment_pk
      (fun _ _ matched => of_decide_eq_true matched)]

theorem nodeHeldBytes_zero (schema : db.Schema)
    (nothing : ∀ p ∈ db.placements, p.nodeId = nodeId → p.status ≠ .stored) :
    db.nodeHeldBytes nodeId = 0 := by
  rw [DB.nodeHeldBytes_eq schema, filter_eq_nil_iff.mpr]
  · rfl
  · intro p member chosen
    simp only [decide_eq_true_eq] at chosen
    exact nothing p member chosen.1 chosen.2

theorem keepsStored_iff (kept : keepsStored s e = true) {p : Placement}
    (member : p ∈ s.db.placements) :
    (rowOp s e).after p = some .stored ↔ p.status = .stored := by
  have same := all_eq_true.mp kept p member
  rw [beq_iff_eq, decide_eq_decide] at same
  exact same

theorem nodeHeldBytes_step (moved : step sigOk s e = some t) (schema : s.db.Schema)
    (kept : keepsStored s e = true) (nodeId : Uuid) :
    t.db.nodeHeldBytes nodeId = s.db.nodeHeldBytes nodeId := by
  have schema' := step_schema s e t schema moved
  rw [DB.nodeHeldBytes_eq schema', DB.nodeHeldBytes_eq schema, step_placements moved,
    filter_stored_apply _ _ fun p member => keepsStored_iff kept member]
  congr 1
  refine filterMap_congr fun p member => ?_
  -- the fragment of a placement was there before the step
  obtain ⟨fr, isFragment, sameId⟩ := schema.placement_fragment p (mem_filter.mp member).1
  rw [schema.fragment_pk.find_key isFragment sameId,
    schema'.fragment_pk.find_key ((step_grows moved).fragments isFragment) sameId]

end Tables

/-! ### Statistics over an upsert -/

/-- What a query selects and reads is the same after an upsert that changes no selected
row in what is read and inserts none. -/
theorem map_filter_upsertStat {β : Type} {stats : List NodeStat} {keep : NodeStat → Bool}
    {read : NodeStat → β} (new : keep row = false ∨ ∃ old ∈ stats, statKey old = statKey row)
    (changed : ∀ old ∈ stats, statKey old = statKey row →
      keep (set old) = keep old ∧ (keep old = true → read (set old) = read old)) :
    ((upsertStat row set stats).filter keep).map read = (stats.filter keep).map read := by
  rw [upsertStat]
  simp only [stat_selected]
  split
  · refine map_filter_updateWhere fun old member chosen => ?_
    exact changed old member (of_decide_eq_true chosen)
  · rename_i absent
    rcases new with dropped | ⟨old, member, same⟩
    · rw [filter_append, filter_cons_of_neg (by simp [dropped])]
      simp
    · exact absurd (any_eq_true.mpr ⟨old, member, decide_eq_true same⟩) absent

/-- The three columns `NodeReliability` reads. -/
def NodeStat.record (row : NodeStat) : ℚ × Int × Int :=
  (row.uptimeRatio, row.auditsPassed, row.auditsFailed)

theorem nodeReliability_congr {s t : UsageDB} {now' : Time}
    (same : (t.recentStats nodeId now').map NodeStat.record =
      (s.recentStats nodeId now).map NodeStat.record) :
    t.nodeReliability real nodeId now' = s.nodeReliability real nodeId now := by
  have read : ∀ {β : Type} (column : ℚ × Int × Int → β),
      (t.recentStats nodeId now').map (column ∘ NodeStat.record) =
        (s.recentStats nodeId now).map (column ∘ NodeStat.record) := by
    intro β column
    rw [← map_map, ← map_map, same]
  have uptimes : (t.recentStats nodeId now').map NodeStat.uptimeRatio = _ := read Prod.fst
  have passed : (t.recentStats nodeId now').map NodeStat.auditsPassed = _ := read fun c => c.2.1
  have audits : (t.recentStats nodeId now').map
      (fun row => row.auditsPassed + row.auditsFailed) = _ := read fun c => c.2.1 + c.2.2
  simp only [UsageDB.nodeReliability, uptimes, passed, audits]
  rfl

/-! ### Every reachable state -/

/-- The upsert of node_stats an event makes: the row it inserts, or else the update. -/
inductive Upserts (s : Metered) : MeterEvent → NodeStat → (NodeStat → NodeStat) → Prop
  | bytes {nodeId : Uuid} {ingested served : Int} (something : ¬ (ingested = 0 ∧ served = 0)) :
      Upserts s (.bytes nodeId ingested served)
        { nodeId := nodeId, windowStart := truncHour s.now, uptimeRatio := 0, auditsPassed := 0,
          auditsFailed := 0, bytesServed := served, bytesIngested := ingested }
        fun old => { old with
          bytesServed := old.bytesServed + served, bytesIngested := old.bytesIngested + ingested }
  | rollup {nodeId : Uuid} {hour : Time} {uptime : ℚ} :
      Upserts s (.rollup nodeId hour uptime)
        { nodeId := nodeId, windowStart := truncHour hour, uptimeRatio := uptime, auditsPassed := 0,
          auditsFailed := 0, bytesServed := 0, bytesIngested := 0 }
        fun old => { old with uptimeRatio := uptime }
  | audit {nodeId : Uuid} {verdict : Bool} {passed failed : Int} :
      Upserts s (.audit nodeId verdict)
        { nodeId := nodeId, windowStart := truncHour s.now, uptimeRatio := 1,
          auditsPassed := passed, auditsFailed := failed, bytesServed := 0, bytesIngested := 0 }
        fun old => { old with
          auditsPassed := old.auditsPassed + passed, auditsFailed := old.auditsFailed + failed }

theorem Upserts.keeps {s : Metered} {e : MeterEvent} (upserts : Upserts s e row set)
    (old : NodeStat) : statKey (set old) = statKey old := by
  cases upserts <;> rfl

/-- The tables after a step of the control plane. -/
abbrev Metered.after (s : Metered) (next : System) : Metered :=
  { s with usage := { s.usage with db := next.db }, calls := next.calls }

/-- The tables after an upsert of `node_stats`. -/
abbrev Metered.upserted (s : Metered) (row : NodeStat) (set : NodeStat → NodeStat) : Metered :=
  { s with usage := { s.usage with stats := upsertStat row set s.usage.stats } }

/-- What an event does to the meters. -/
inductive MeterMoved (sigOk : SigCheck) (s : Metered) : MeterEvent → Metered → Prop
  | nothing {e : MeterEvent} : MeterMoved sigOk s e s
  | tick {seconds : Nat} : MeterMoved sigOk s (.tick seconds) { s with now := s.now + seconds }
  | system {e : Event} {next : System} (stepped : step sigOk s.system e = some next) :
      MeterMoved sigOk s (.system e) (s.after next)
  | reputation {nodeId : Uuid} {value : ℚ} :
      MeterMoved sigOk s (.reputation nodeId value)
        { s with reputation := fun n => if n = nodeId then value else s.reputation n }
  | receipt {e : MeterEvent} {r : DownloadReceipt}
      (known : ∃ f ∈ s.usage.db.files, f.id = r.fileId) (stamped : r.createdAt = s.now) :
      MeterMoved sigOk s e { s with usage := { s.usage with receipts := s.usage.receipts ++ [r] } }
  | upserted {e : MeterEvent} {row : NodeStat} {set : NodeStat → NodeStat}
      (upserts : Upserts s e row set) (known : s.hasNode row.nodeId = true) :
      MeterMoved sigOk s e (s.upserted row set)

theorem meterStep_moved {sigOk : SigCheck} {s t : Metered} {e : MeterEvent}
    (moved : meterStep sigOk s e = some t) : MeterMoved sigOk s e t := by
  cases e <;> simp only [meterStep] at moved
  case tick => cases moved; exact .tick
  all_goals split at moved <;> cases moved
  · exact .system ‹_›
  · exact .reputation
  · rename_i usage consumed
    obtain ⟨-, known, rfl⟩ := UsageDB.consumeDownloadReceipt_ok consumed
    exact .receipt known rfl
  · rw [UsageDB.bumpNodeBytes]
    split
    · exact .nothing
    · exact .upserted (.bytes ‹_›) ‹_›
  · exact .upserted .rollup ‹_›
  · exact .upserted .audit ‹_›

/-- The keys and foreign keys the meters rely on. -/
structure MeterInv (s : Metered) : Prop where
  schema : s.usage.db.Schema
  bucket_pk : UniqueOn Bucket.id s.usage.db.buckets
  file_bucket : s.usage.db.FilesInBuckets
  receipt_file : ∀ r ∈ s.usage.receipts, ∃ f ∈ s.usage.db.files, f.id = r.fileId
  stat_pk : UniqueOn statKey s.usage.stats
  stat_node : ∀ row ∈ s.usage.stats, ∃ n ∈ s.usage.db.nodes, n.id = row.nodeId

section Invariant

variable {sigOk : SigCheck} {s t : Metered} {e : MeterEvent}

theorem MeterInv.keys (inv : MeterInv s) : s.usage.db.OwnerKeys :=
  ⟨inv.schema.file_pk, inv.bucket_pk⟩

theorem MeterInv.init : MeterInv Metered.init where
  schema := DB.Schema.empty
  bucket_pk := .nil _
  file_bucket _ member := by cases member
  receipt_file _ member := by cases member
  stat_pk := .nil _
  stat_node _ member := by cases member

theorem MeterInv.system (inv : MeterInv s) {e : Event} (moved : step sigOk s.system e = some next) :
    MeterInv (s.after next) where
  schema := step_schema _ e next inv.schema moved
  bucket_pk := (step_grows moved).bucket_pk inv.bucket_pk
  file_bucket := (step_written moved).filesInBuckets inv.file_bucket
  receipt_file r member := by
    obtain ⟨f, inFiles, sameId⟩ := inv.receipt_file r member
    obtain ⟨f', inFiles', sameId', _⟩ := (step_grows moved).files f inFiles
    exact ⟨f', inFiles', sameId'.trans sameId⟩
  stat_pk := inv.stat_pk
  stat_node row member := by
    obtain ⟨n, inNodes, sameId⟩ := inv.stat_node row member
    obtain ⟨n', inNodes', sameId', _⟩ := (step_grows moved).nodes n inNodes
    exact ⟨n', inNodes', sameId'.trans sameId⟩

/-- An upsert for a node that exists. -/
theorem MeterInv.upsert (inv : MeterInv s) (known : s.hasNode row.nodeId = true)
    (keeps : ∀ old, statKey (set old) = statKey old) : MeterInv (s.upserted row set) :=
  { inv with
    stat_pk := statKey_upsertStat inv.stat_pk keeps
    stat_node := by
      intro row' member
      rcases mem_upsertStat member with rfl | inStats | ⟨old, inStats, rfl⟩
      · simp only [Metered.hasNode, any_eq_true, decide_eq_true_eq] at known
        exact known
      · exact inv.stat_node row' inStats
      · rw [show (set old).nodeId = old.nodeId from congrArg Prod.fst (keeps old)]
        exact inv.stat_node old inStats }

theorem meterStep_inv (s : Metered) (e : MeterEvent) (t : Metered) (inv : MeterInv s)
    (moved : meterStep sigOk s e = some t) : MeterInv t := by
  cases meterStep_moved moved with
  | nothing => exact inv
  | tick | reputation => exact { inv with }
  | system stepped => exact inv.system stepped
  | receipt known _ =>
    refine { inv with receipt_file := fun r member => ?_ }
    rcases mem_append_row.mp member with old | rfl
    · exact inv.receipt_file r old
    · exact known
  | upserted upserts known => exact inv.upsert known upserts.keeps

/-! ### The egress meters over a step -/

theorem meterStep_now (moved : meterStep sigOk s e = some t) : s.now ≤ t.now := by
  cases meterStep_moved moved with
  | @tick seconds => exact Int.le_add_of_nonneg_right (Int.natCast_nonneg seconds)
  | _ => exact Int.le_refl _

/-- The owner of the file of a receipt. -/
theorem MeterInv.receipt_owner (inv : MeterInv s) {r : DownloadReceipt}
    (member : r ∈ s.usage.receipts) :
    ∃ owner, s.usage.db.OwnsFile owner r.fileId := by
  obtain ⟨f, inFiles, sameId⟩ := inv.receipt_file r member
  obtain ⟨b, inBuckets, ofFile⟩ := inv.file_bucket f inFiles
  exact ⟨b.ownerId, f, inFiles, sameId, b, inBuckets, ofFile, rfl⟩

theorem MeterInv.ownerWhere_eq (inv : MeterInv s) {owner : Uuid}
    (owns : s.usage.db.OwnsFile owner fileId) :
    s.usage.db.ownerWhere (fun _ => true) fileId = some owner := by
  rw [inv.keys.ownerWhere_eq_some]
  obtain ⟨f, inFiles, sameId, rest⟩ := owns
  exact ⟨f, inFiles, sameId, rfl, rest⟩

/-- The rows of an hour and the owners of their files decide the meter. -/
theorem customerEgress_congr (inv : MeterInv s) (inv' : MeterInv t)
    (rows : t.usage.receipts.filter (·.inHour window) =
      s.usage.receipts.filter (·.inHour window))
    (owners : ∀ owner fileId, s.usage.db.OwnsFile owner fileId →
      t.usage.db.OwnsFile owner fileId) :
    t.usage.listCustomerEgressBytes window = s.usage.listCustomerEgressBytes window := by
  rw [inv'.keys.egressBytes_eq, inv.keys.egressBytes_eq, rows]
  congr 2
  refine filterMap_congr fun r member => ?_
  obtain ⟨owner, owns⟩ := inv.receipt_owner (mem_filter.mp member).1
  rw [inv.ownerWhere_eq owns, inv'.ownerWhere_eq (owners owner r.fileId owns)]

/-- Once the hour is over, no step changes what `ListCustomerEgressBytes` says of it. -/
theorem customerEgress_step (inv : MeterInv s) (ended : truncHour window + 3600 ≤ s.now)
    (moved : meterStep sigOk s e = some t) :
    t.usage.listCustomerEgressBytes window = s.usage.listCustomerEgressBytes window := by
  have inv' := meterStep_inv s e t inv moved
  cases meterStep_moved moved with
  | system stepped =>
    exact customerEgress_congr inv inv' rfl fun _ _ owns => owns.carried (step_grows stepped)
  | receipt _ stamped =>
    refine customerEgress_congr inv inv' ?_ fun _ _ owns => owns
    -- the new receipt is created after the hour
    rw [filter_append, filter_cons_of_neg, filter_nil, append_nil]
    simp only [DownloadReceipt.inHour, decide_eq_true_eq, not_and, Int.not_lt, stamped]
    exact fun _ => ended
  | _ => rfl

/-- The rows `ListNodeWindowServed` selects. -/
def servedIn (window : Time) (row : NodeStat) : Bool :=
  row.windowStart = truncHour window ∧ 0 < row.bytesServed

def DB.nodeOwner (db : DB) (nodeId : Uuid) : Option Uuid :=
  (db.nodes.find? fun n => n.id = nodeId).map Node.ownerId

theorem nodeWindowServed_eq (inv : MeterInv s) (window : Time) :
    s.usage.listNodeWindowServed window =
      ((s.usage.stats.filter (servedIn window)).map fun row =>
        (row.nodeId, row.bytesServed)).filterMap fun nb =>
        (s.usage.db.nodeOwner nb.1).map fun owner =>
          { nodeId := nb.1, ownerId := owner, bytes := Int64.ofInt nb.2 } := by
  rw [UsageDB.listNodeWindowServed, map_innerJoin_key NodeStat.nodeId
    inv.schema.node_pk (fun _ _ matched => of_decide_eq_true matched), filterMap_map]
  refine filterMap_congr fun row _ => ?_
  simp only [Function.comp_apply, DB.nodeOwner, Option.map_map]
  rfl

/-- The nodes of the statistics keep their owners. -/
theorem nodeOwner_step {u v : System} (moved : step sigOk u event = some v)
    (known : ∃ n ∈ u.db.nodes, n.id = nodeId) : v.db.nodeOwner nodeId = u.db.nodeOwner nodeId := by
  have lookup : ∀ db : DB, db.nodeOwner nodeId =
      ((db.nodes.map fun n => (n.id, n.ownerId)).find? fun pair => pair.1 = nodeId).map
        Prod.snd := by
    intro db
    rw [find?_map, Option.map_map]
    rfl
  rcases (step_written moved).nodeOwners with same | ⟨n, _, added⟩
  · rw [lookup, lookup, same]
  · obtain ⟨old, inNodes, sameId⟩ := known
    rw [DB.nodeOwner, DB.nodeOwner, added, find?_append]
    cases found : u.db.nodes.find? fun n => n.id = nodeId with
    | none => exact absurd sameId (by simpa using find?_eq_none.mp found old inNodes)
    | some first => rfl

/-- An upsert that leaves the served bytes of the hour alone. -/
theorem nodeWindowServed_upsert (inv : MeterInv s) (inv' : MeterInv (s.upserted row set))
    (new : servedIn window row = false)
    (changed : ∀ old, statKey old = statKey row → servedIn window (set old) = servedIn window old ∧
      (servedIn window old = true →
        ((set old).nodeId, (set old).bytesServed) = (old.nodeId, old.bytesServed))) :
    (s.upserted row set).usage.listNodeWindowServed window =
      s.usage.listNodeWindowServed window := by
  have after := nodeWindowServed_eq inv' window
  dsimp only at after
  rw [after, nodeWindowServed_eq inv, map_filter_upsertStat (.inl new) fun old _ => changed old]

theorem truncHour_later {window now : Int} (ended : truncHour window + 3600 ≤ now) :
    truncHour now ≠ truncHour window := by
  have bound : window / 3600 * 3600 + 3600 ≤ now := ended
  change now / 3600 * 3600 ≠ window / 3600 * 3600
  omega

theorem recent_iff {now later window days : Int}
    (spared : window ≤ now - days ∨ now + later - days < window) (forward : 0 ≤ later) :
    now + later - days < window ↔ now - days < window := by
  omega

/-- Once the hour is over, no step changes what `ListNodeWindowServed` says of it. -/
theorem nodeWindowServed_step (inv : MeterInv s) (ended : truncHour window + 3600 ≤ s.now)
    (moved : meterStep sigOk s e = some t) :
    t.usage.listNodeWindowServed window = s.usage.listNodeWindowServed window := by
  have inv' := meterStep_inv s e t inv moved
  cases meterStep_moved moved with
  | system stepped =>
    rw [nodeWindowServed_eq inv, nodeWindowServed_eq inv']
    refine filterMap_congr fun nb member => ?_
    obtain ⟨row, inStats, rfl⟩ := mem_map.mp member
    have known := inv.stat_node row (mem_filter.mp inStats).1
    exact congrArg _ (nodeOwner_step stepped known)
  | upserted upserts known =>
    cases upserts with
    | bytes =>
      have later := truncHour_later ended
      refine nodeWindowServed_upsert inv inv' (by simp [servedIn, later]) fun old same => ?_
      have elsewhere : old.windowStart ≠ truncHour window := by
        rw [show old.windowStart = truncHour s.now from congrArg Prod.snd same]
        exact later
      simp [servedIn, elsewhere]
    | rollup | audit =>
      exact nodeWindowServed_upsert inv inv' (by simp [servedIn]) fun old _ => ⟨rfl, fun _ => rfl⟩
  | _ => rfl

/-! ### Earnings over a step -/

theorem Metered.earns_of_held (inv : MeterInv s)
    (held : ¬ Int64.ofInt (s.usage.db.nodeHeldBytes nodeId) ≤ 0) :
    s.earns window nodeId = true := by
  rw [Metered.earns, Bool.or_eq_true]
  refine .inl ?_
  by_contra none_
  simp only [Bool.not_eq_true, any_eq_false, decide_eq_true_eq, not_and] at none_
  rw [nodeHeldBytes_zero inv.schema none_] at held
  exact held (by decide)

theorem Metered.earns_of_served (inv : MeterInv s) {row : NodeWindowServed}
    (served : row ∈ s.usage.listNodeWindowServed window) :
    s.earns window row.nodeId = true ∧ ∃ n ∈ s.usage.db.nodes, n.id = row.nodeId := by
  rw [nodeWindowServed_eq inv, mem_filterMap] at served
  obtain ⟨nb, member, found⟩ := served
  obtain ⟨stat, inStats, rfl⟩ := mem_map.mp member
  obtain ⟨isStat, chosen⟩ := mem_filter.mp inStats
  obtain ⟨owner, _, rfl⟩ := Option.map_eq_some_iff.mp found
  simp only [servedIn, decide_eq_true_eq] at chosen
  refine ⟨?_, inv.stat_node stat isStat⟩
  rw [Metered.earns, Bool.or_eq_true]
  exact .inr (any_eq_true.mpr ⟨stat, isStat, decide_eq_true ⟨rfl, chosen⟩⟩)

theorem scanSums_eq_some {α β : Type} {row : α → Int64 → β} {sums : List (α × Int)}
    {rows : List β} :
    scanSums row sums = some rows ↔
      (∀ g ∈ sums, InInt64 g.2) ∧ rows = sums.map fun g => row g.1 (Int64.ofInt g.2) := by
  rw [scanSums]
  split
  · rename_i fits
    exact ⟨fun same => ⟨fits, (Option.some.inj same).symm⟩, fun h => congrArg some h.2.symm⟩
  · rename_i wide
    exact ⟨nofun, fun h => absurd h.1 wide⟩

theorem scanSums_concat_zero {α β : Type} {row : α → Int64 → β} {sums : List (α × Int)} (a : α) :
    scanSums row (sums ++ [(a, 0)]) = (scanSums row sums).map (· ++ [row a 0]) := by
  have zero : InInt64 0 := by decide
  simp only [scanSums, forall_mem_append, forall_mem_singleton, zero, and_true]
  split
  · simp
  · rfl

/-- The reputation a serving node is paid with is its own. -/
theorem servedReputation_eq {db : DB} {reputation : Uuid → ℚ} {held : List NodeHeld}
    (scanned : db.listNodeHeldBytes reputation = some held)
    (known : ∃ n ∈ db.nodes, n.id = nodeId) :
    servedReputation held nodeId = reputation nodeId := by
  obtain ⟨-, rfl⟩ := scanSums_eq_some.mp scanned
  rw [map_map, servedReputation]
  split
  · rename_i missing
    obtain ⟨n, inNodes, sameId⟩ := known
    have row := find?_eq_none.mp missing _ (mem_map_of_mem inNodes)
    simp [sameId] at row
  · rename_i h found
    have isNode := find?_some found
    obtain ⟨n, _, rfl⟩ := mem_map.mp (mem_of_find?_eq_some found)
    simp only [Function.comp_apply, decide_eq_true_eq] at isNode ⊢
    rw [isNode]

/-- A storage earning depends on the reputation and the record of its node only if the
node holds something. -/
theorem storageEarnings_congr (rates : Rates) {rows rows' : List NodeHeld}
    (pairs : List.Forall₂ (fun n n' : NodeHeld => n'.nodeId = n.nodeId ∧ n'.ownerId = n.ownerId ∧
      n'.sizeBytes = n.sizeBytes ∧ (¬ n.sizeBytes ≤ 0 →
        n'.reputation = n.reputation ∧ reliability' n.nodeId = reliability n.nodeId)) rows rows') :
    storageEarnings rates rows' reliability' = storageEarnings rates rows reliability := by
  refine filterMap_congr₂ (fun n n' same => ?_) pairs
  obtain ⟨sameId, sameOwner, sameSize, record⟩ := same
  rw [sameId, sameOwner, sameSize]
  by_cases nothing : n.sizeBytes ≤ 0
  · rw [if_pos nothing, if_pos nothing]
  · rw [(record nothing).1, (record nothing).2]

/-- A row with nothing held earns nothing. -/
theorem storageEarnings_append (rates : Rates) (reliability : ReliabilityMeter)
    (rows : List NodeHeld) {extra : List NodeHeld} (empty : ∀ n ∈ extra, n.sizeBytes ≤ 0) :
    storageEarnings rates (rows ++ extra) reliability = storageEarnings rates rows reliability := by
  have none_ : storageEarnings rates extra reliability = [] := by
    refine filterMap_eq_nil_iff.mpr fun n member => ?_
    rw [if_pos (empty n member)]
  rw [storageEarnings, filterMap_append]
  exact (congrArg _ none_).trans (append_nil _)

/-- An egress earning depends on the reputation and the record of its node. -/
theorem egressEarnings_congr (rates : Rates) {held held' : List NodeHeld}
    {served : List NodeWindowServed} (record : ∀ row ∈ served,
      servedReputation held' row.nodeId = servedReputation held row.nodeId ∧
        reliability' row.nodeId = reliability row.nodeId) :
    egressEarnings rates held' served reliability' =
      egressEarnings rates held served reliability := by
  refine filterMap_congr fun row member => ?_
  rw [(record row member).1, (record row member).2]

/-- The storage and the egress earnings of an hour, posted in this state. -/
def Metered.earnings (real : UsageDB.PgReal) (s : Metered) (rates : Rates) (window : Time) :
    Option (List Accrual × List Accrual) :=
  (s.usage.db.listNodeHeldBytes s.reputation).map fun held =>
    (storageEarnings rates held fun nodeId => s.usage.nodeReliability real nodeId s.now,
      egressEarnings rates held (s.usage.listNodeWindowServed window)
        fun nodeId => s.usage.nodeReliability real nodeId s.now)

/-- Reputations decide neither whether the held bytes can be scanned nor what they are. -/
theorem listNodeHeldBytes_pairs (db : DB) (reputation reputation' : Uuid → ℚ) :
    (db.listNodeHeldBytes reputation = none ∧ db.listNodeHeldBytes reputation' = none) ∨
    ∃ rows rows', db.listNodeHeldBytes reputation = some rows ∧
      db.listNodeHeldBytes reputation' = some rows' ∧
      List.Forall₂ (fun n n' : NodeHeld => n'.nodeId = n.nodeId ∧ n'.ownerId = n.ownerId ∧
        n'.sizeBytes = n.sizeBytes ∧ n.sizeBytes = Int64.ofInt (db.nodeHeldBytes n.nodeId) ∧
        n.reputation = reputation n.nodeId ∧ n'.reputation = reputation' n.nodeId) rows rows' := by
  rw [DB.listNodeHeldBytes, DB.listNodeHeldBytes, scanSums, scanSums]
  split
  · refine .inr ⟨_, _, rfl, rfl, ?_⟩
    rw [map_map, map_map, forall₂_map_left_iff, forall₂_map_right_iff, forall₂_same]
    exact fun n _ => ⟨rfl, rfl, rfl, rfl, rfl, rfl⟩
  · exact .inl ⟨rfl, rfl⟩

/-- Earnings while the database stays as it is. -/
theorem earnings_congr (rates : Rates) (inv : MeterInv s) (db : t.usage.db = s.usage.db)
    (served : t.usage.listNodeWindowServed window = s.usage.listNodeWindowServed window)
    (agree : ∀ nodeId, s.earns window nodeId = true → t.reputation nodeId = s.reputation nodeId ∧
      t.usage.nodeReliability real nodeId t.now = s.usage.nodeReliability real nodeId s.now) :
    t.earnings real rates window = s.earnings real rates window := by
  rw [Metered.earnings, Metered.earnings, db, served]
  rcases listNodeHeldBytes_pairs s.usage.db s.reputation t.reputation with
    ⟨before, after⟩ | ⟨rows, rows', before, after, pairs⟩
  · rw [before, after, Option.map_none, Option.map_none]
  · rw [before, after, Option.map_some, Option.map_some]
    refine congrArg some (congrArg₂ Prod.mk ?_ ?_)
    · refine storageEarnings_congr rates (pairs.imp fun n n' same => ?_)
      obtain ⟨sameId, sameOwner, sameSize, size, rep, rep'⟩ := same
      refine ⟨sameId, sameOwner, sameSize, fun held => ?_⟩
      rw [size] at held
      rw [rep, rep']
      exact agree n.nodeId (Metered.earns_of_held inv held)
    · refine egressEarnings_congr rates fun row member => ?_
      obtain ⟨earns, known⟩ := Metered.earns_of_served inv member
      rw [servedReputation_eq after known, servedReputation_eq before known]
      exact agree row.nodeId earns

/-- The held bytes after a step of the control plane that changes nothing stored: at most
a new node is there, with nothing. -/
theorem listNodeHeldBytes_step (inv : MeterInv s) (moved : step sigOk s.system event = some next)
    (kept : keepsStored s.system event = true) :
    ∃ extra, next.db.listNodeHeldBytes s.reputation =
        (s.usage.db.listNodeHeldBytes s.reputation).map (· ++ extra) ∧
      ∀ n ∈ extra, n.sizeBytes ≤ 0 := by
  have held : ∀ nodeId, next.db.nodeHeldBytes nodeId = s.usage.db.nodeHeldBytes nodeId :=
    nodeHeldBytes_step moved inv.schema kept
  rcases (step_written moved).nodeOwners with same | ⟨n, fresh, added⟩
  · refine ⟨[], ?_, by simp⟩
    -- a row is a function of the id and the owner of its node
    have rows := congrArg (List.map fun io : Uuid × Uuid =>
      (io, s.usage.db.nodeHeldBytes io.1)) same
    simp only [map_map] at rows
    simp only [DB.listNodeHeldBytes, held, append_nil, Option.map_id']
    exact congrArg _ rows
  · have nothing : s.usage.db.nodeHeldBytes n.id = 0 := by
      refine nodeHeldBytes_zero inv.schema fun p member ofNode => ?_
      obtain ⟨old, inNodes, sameId⟩ := inv.schema.placement_node p member
      exact absurd (sameId.trans ofNode) (fresh old inNodes)
    refine ⟨[NodeHeld.mk n.id n.ownerId 0 (s.reputation n.id)], ?_, by simp⟩
    simp only [DB.listNodeHeldBytes, held, added, map_append, map_cons, map_nil, nothing]
    exact scanSums_concat_zero (n.id, n.ownerId)

/-- Earnings over a step of the control plane that changes nothing stored. -/
theorem earnings_system (rates : Rates) (inv : MeterInv s)
    (moved : step sigOk s.system event = some next) (kept : keepsStored s.system event = true)
    (served : (s.after next).usage.listNodeWindowServed window =
      s.usage.listNodeWindowServed window) :
    (s.after next).earnings real rates window = s.earnings real rates window := by
  obtain ⟨extra, rows, empty⟩ := listNodeHeldBytes_step inv moved kept
  have record : (fun nodeId => UsageDB.nodeReliability real { s.usage with db := next.db } nodeId
      s.now) = fun nodeId => s.usage.nodeReliability real nodeId s.now := rfl
  rw [Metered.earnings, Metered.earnings]
  dsimp only
  rw [served, record]
  cases before : s.usage.db.listNodeHeldBytes s.reputation with
  | none => rw [rows, before, Option.map_none, Option.map_none]
  | some held =>
    rw [before, Option.map_some] at rows
    rw [rows, Option.map_some, Option.map_some, storageEarnings_append rates _ _ empty]
    refine congrArg some (congrArg (Prod.mk _) (egressEarnings_congr rates fun row member => ?_))
    refine ⟨?_, rfl⟩
    obtain ⟨_, n, inNodes, sameId⟩ := Metered.earns_of_served inv member
    obtain ⟨n', inNodes', sameId', _⟩ := (step_grows moved).nodes n inNodes
    rw [servedReputation_eq rows ⟨n', inNodes', sameId'.trans sameId⟩,
      servedReputation_eq before ⟨n, inNodes, sameId⟩]

/-- An upsert changes the record of no other node, and that of its own node only if it
inserts a row or changes one of the three columns. -/
theorem nodeReliability_upsert {u : UsageDB} (keeps : ∀ old, statKey (set old) = statKey old)
    (now : Time) (spared : nodeId ≠ row.nodeId ∨ (∃ old ∈ u.stats, statKey old = statKey row) ∧
      ∀ old ∈ u.stats, statKey old = statKey row → (set old).record = old.record) :
    UsageDB.nodeReliability real { u with stats := upsertStat row set u.stats } nodeId now =
      u.nodeReliability real nodeId now := by
  have sameKey : ∀ old, (set old).nodeId = old.nodeId ∧ (set old).windowStart = old.windowStart :=
    fun old => ⟨congrArg Prod.fst (keeps old), congrArg Prod.snd (keeps old)⟩
  refine nodeReliability_congr ?_
  rw [UsageDB.recentStats, UsageDB.recentStats]
  refine map_filter_upsertStat ?_ fun old member same => ⟨?_, fun chosen => ?_⟩
  · rcases spared with other | ⟨present, _⟩
    · exact .inl (by simp [Ne.symm other])
    · exact .inr present
  · rw [(sameKey old).1, (sameKey old).2]
  · rcases spared with other | ⟨_, columns⟩
    · simp only [decide_eq_true_eq] at chosen
      exact absurd (chosen.1.symm.trans (congrArg Prod.fst same)) other
    · exact columns old member same

/-- The parts of an accrual. -/
theorem accruals_eq (s : Metered) (rates : Rates) (window : Time) :
    s.accruals real rates window = s.usage.db.listCustomerStoredBytes.bind fun stored =>
      (s.earnings real rates window).bind fun earned =>
        (s.usage.listCustomerEgressBytes window).map fun egress =>
          storageCharges rates stored ++ earned.1 ++ egressCharges rates egress ++ earned.2 := by
  rw [Metered.accruals, Metered.readings, Metered.earnings]
  cases s.usage.db.listCustomerStoredBytes with
  | none => rfl
  | some stored =>
    cases s.usage.db.listNodeHeldBytes s.reputation with
    | none => rfl
    | some held => cases s.usage.listCustomerEgressBytes window <;> rfl

theorem accruals_congr (rates : Rates)
    (stored : t.usage.db.listCustomerStoredBytes = s.usage.db.listCustomerStoredBytes)
    (egress : t.usage.listCustomerEgressBytes window = s.usage.listCustomerEgressBytes window)
    (earnings : t.earnings real rates window = s.earnings real rates window) :
    t.accruals real rates window = s.accruals real rates window := by
  rw [accruals_eq, accruals_eq, stored, egress, earnings]

/-- The same, for a step that writes only the statistics. -/
theorem accruals_upsert (rates : Rates) (inv : MeterInv s)
    (keeps : ∀ old, statKey (set old) = statKey old)
    (served : (s.upserted row set).usage.listNodeWindowServed window =
      s.usage.listNodeWindowServed window) (spared : s.earns window row.nodeId = true →
      (∃ old ∈ s.usage.stats, statKey old = statKey row) ∧
        ∀ old ∈ s.usage.stats, statKey old = statKey row → (set old).record = old.record) :
    (s.upserted row set).accruals real rates window = s.accruals real rates window := by
  refine accruals_congr rates rfl rfl (earnings_congr rates inv rfl served fun nodeId earns => ?_)
  refine ⟨rfl, nodeReliability_upsert keeps s.now ?_⟩
  by_cases own : nodeId = row.nodeId
  · exact .inr (spared (own ▸ earns))
  · exact .inl own

/-- A neutral step changes nothing of the accrual of an hour that is over. -/
theorem accruals_step (rates : Rates) (inv : MeterInv s)
    (ended : truncHour window + 3600 ≤ s.now) (moved : meterStep sigOk s e = some t)
    (neutral : s.neutral window e = true) :
    t.accruals real rates window = s.accruals real rates window := by
  have egress := customerEgress_step inv ended moved
  have served := nodeWindowServed_step inv ended moved
  cases meterStep_moved moved with
  | nothing => rfl
  | tick =>
    refine accruals_congr rates rfl egress (earnings_congr rates inv rfl served ?_)
    intro nodeId earns
    refine ⟨rfl, nodeReliability_congr ?_⟩
    rw [UsageDB.recentStats, UsageDB.recentStats]
    congr 1
    refine filter_congr fun row member => ?_
    have spared := all_eq_true.mp neutral row member
    simp only [Bool.or_eq_true, Bool.not_eq_true', decide_eq_true_eq] at spared
    rw [decide_eq_decide]
    refine and_congr_right fun ofNode => ?_
    rw [ofNode, earns] at spared
    exact recent_iff (spared.imp_left fun h => h.resolve_left (by simp)) (Int.natCast_nonneg _)
  | system stepped =>
    simp only [Metered.neutral, Bool.and_eq_true] at neutral
    have frame := (step_written stepped).storedFrame inv.schema inv.bucket_pk inv.file_bucket
      neutral.2
    exact accruals_congr rates (frame.storedBytes inv.keys (inv.system stepped).keys) egress
      (earnings_system rates inv stepped neutral.1 served)
  | @reputation nodeId value =>
    refine accruals_congr rates rfl egress (earnings_congr rates inv rfl served ?_)
    intro other earns
    refine ⟨?_, rfl⟩
    simp only [Metered.neutral, Bool.or_eq_true, Bool.not_eq_true', decide_eq_true_eq] at neutral
    dsimp only
    by_cases own : other = nodeId
    · subst own
      rw [earns] at neutral
      rw [if_pos rfl]
      exact neutral.resolve_left (by simp)
    · rw [if_neg own]
  | receipt =>
    exact accruals_congr rates rfl egress
      (earnings_congr rates inv rfl served fun _ _ => ⟨rfl, rfl⟩)
  | upserted upserts =>
    refine accruals_upsert rates inv upserts.keeps served fun earns => ?_
    cases upserts with
    | bytes something =>
      simp only [Metered.neutral, Bool.or_eq_true, Bool.not_eq_true', decide_eq_true_eq, earns,
        Bool.true_eq_false, false_or] at neutral
      obtain ⟨old, member, same⟩ := any_eq_true.mp (neutral.resolve_left something)
      rw [stat_selected, decide_eq_true_eq] at same
      exact ⟨⟨old, member, same⟩, fun _ _ _ => rfl⟩
    | @rollup nodeId hour uptime =>
      simp only [Metered.neutral, Bool.or_eq_true, Bool.not_eq_true', earns, Bool.true_eq_false,
        false_or, any_eq_true, decide_eq_true_eq] at neutral
      obtain ⟨old, member, same⟩ := neutral
      have key : statKey old = (nodeId, truncHour hour) := Prod.ext same.1 same.2.1
      refine ⟨⟨old, member, key⟩, fun other inStats sameKey => ?_⟩
      -- the row of the key has this uptime already
      rw [inv.stat_pk.eq_of_key inStats member (sameKey.trans key.symm), ← same.2.2]
    | audit => simp [Metered.neutral, earns] at neutral

end Invariant

/-- What the steps after an hour keep, every later state has. -/
theorem kept_after_hour {α : Type} {sigOk : SigCheck} {s : Metered} {value : Metered → α}
    {G : Metered → MeterEvent → Metered → Prop} {later : List MeterEvent} (inv : MeterInv s)
    (ended : truncHour window + 3600 ≤ s.now) (good : EveryStep (meterStep sigOk) G s later)
    (kept : ∀ t e u, MeterInv t → truncHour window + 3600 ≤ t.now →
      meterStep sigOk t e = some u → G t e u → value u = value t) :
    EveryState (meterStep sigOk) (fun t => value t = value s) s later := by
  refine EveryState.mono (P := fun t => MeterInv t ∧ truncHour window + 3600 ≤ t.now ∧
    value t = value s) (fun t inv => inv.2.2)
    (EveryState.of_step (fun t e u holds moved step => ?_) ⟨inv, ended, rfl⟩ good)
  obtain ⟨tables, past, same⟩ := holds
  exact ⟨meterStep_inv t e u tables moved, past.trans (meterStep_now moved),
    (kept t e u tables past moved step).trans same⟩

/-- For every history, every hour that is over at its end and every further history: the
egress charges of the hour stay what they are in every state reached, and if every
further step is neutral, so does every posting of the accrual. -/
theorem late_accrual (sigOk : SigCheck) (real : UsageDB.PgReal) (rates : Rates)
    {history : List MeterEvent} {s : Metered}
    (run : exec (meterStep sigOk) Metered.init history = some s) (window : Time)
    (ended : truncHour window + 3600 ≤ s.now) (later : List MeterEvent) :
    EveryState (meterStep sigOk)
      (fun t => (t.usage.listCustomerEgressBytes window).map (egressCharges rates) =
        (s.usage.listCustomerEgressBytes window).map (egressCharges rates)) s later ∧
    (EveryStep (meterStep sigOk) (fun u e _ => u.neutral window e = true) s later →
      EveryState (meterStep sigOk)
        (fun t => t.accruals real rates window = s.accruals real rates window) s later) := by
  have start : MeterInv s := exec_induction meterStep_inv MeterInv.init run
  constructor
  · refine kept_after_hour start ended EveryStep.unguarded fun t e u tables past moved _ => ?_
    rw [customerEgress_step tables past moved]
  · exact fun neutral => kept_after_hour start ended neutral fun t e u tables past moved good =>
      accruals_step rates tables past moved good

/-- Steps of the control plane run alike with the meters beside them. -/
theorem exec_meter_system {sigOk : SigCheck} {s : Metered} {events : List Event} {t : System}
    (run : exec (step sigOk) s.system events = some t) :
    exec (meterStep sigOk) s (events.map .system) = some (s.after t) :=
  exec_map Metered.system Metered.after
    (fun s e u moved => by simp only [meterStep, moved]) (fun _ _ => rfl) (fun _ _ _ => rfl)
    (fun _ => rfl) run

namespace Sample

/-- The tables after the upload of the worked run. -/
def uploaded : Metered :=
  { Metered.init with
    usage := { Metered.init.usage with db := committed.db }, calls := committed.calls }

/-- The rest of its first hour: a shard is served and the hour rolled up. -/
def meteredHour : List MeterEvent :=
  [.tick 60, .receipt [1] (gen 0) (gen 3) (node 0).id 1, .bytes (node 0).id 0 1, .tick 3540,
    .rollup (node 0).id 0 1, .rollup (node 1).id 0 1]

/-- Rates at which single bytes cost something. -/
def steepRates : Rates where
  customerStoragePerGBMonth := 730000000000
  providerStoragePerGBMonth := 7300000000000
  customerEgressPerGB := 10000000000
  providerEgressPerGB := 10000000000

/-- Stands in for the arithmetic of REAL, without rounding. -/
def exactReal : UsageDB.PgReal where
  avg values := values.sum / values.length
  div a b := a / b

/-- Another upload is planned, a folder is made and a node registers. -/
def quietHour : List MeterEvent :=
  [.tick 1800, .system (.act (.createFolder owner bucket.id ['/', 'b'] (gen 90))),
    .system (.request
      (.planUpload owner { manifest with path := ['/', 'c'] } fun k => gen (100 + k))),
    .system (.act (.registerNode (node 16))), .tick 1800]

theorem uploaded_reached :
    exec (meterStep toySig) Metered.init (upload.map .system) = some uploaded :=
  exec_meter_system (s := Metered.init) upload_committed

/-- The state in which the accrual of the first hour is due. -/
def hourEnd : Metered :=
  (exec (meterStep toySig) uploaded meteredHour).get (by decide +kernel)

theorem hourEnd_reached :
    exec (meterStep toySig) Metered.init (upload.map .system ++ meteredHour) = some hourEnd := by
  rw [exec_append, uploaded_reached]
  exact (Option.some_get _).symm

end Sample

/-- After the quiet hour the accrual posts the five transactions it would have posted
when the first hour ended. -/
theorem late_after_quiet_hour :
    (hourEnd.accruals exactReal steepRates 0).map (List.map Accrual.kind) =
      some [.storageCharge, .storageEarning, .storageEarning, .egressCharge, .egressEarning] ∧
    ∃ t, exec (meterStep toySig) hourEnd quietHour = some t ∧
      t.accruals exactReal steepRates 0 =
        hourEnd.accruals exactReal steepRates 0 := by
  have ran : (exec (meterStep toySig) hourEnd quietHour).isSome = true := by
    decide +kernel
  obtain ⟨t, run⟩ := Option.isSome_iff_exists.mp ran
  have same := (late_accrual toySig exactReal steepRates hourEnd_reached 0
    (by decide +kernel) quietHour).2 (by decide +kernel)
  exact ⟨by decide +kernel, t, run, same.last run⟩

namespace Sample

/-- The file is deleted half an hour later. -/
def deletion : List MeterEvent :=
  [.tick 1800, .system (.request (.deleteFile owner (gen 0))), .system (.move 2 (.delete 5400))]

end Sample

/-- A deletion in the next hour takes the storage charge and the storage earnings of the
first one with it. -/
theorem late_after_deletion :
    exec (meterStep toySig) Metered.init (upload.map .system ++ meteredHour) =
      some hourEnd ∧
    truncHour 0 + 3600 ≤ hourEnd.now ∧
    (hourEnd.accruals exactReal steepRates 0).map (List.map Accrual.kind) =
      some [.storageCharge, .storageEarning, .storageEarning, .egressCharge, .egressEarning] ∧
    (exec (meterStep toySig) hourEnd deletion).map
        (fun t => (t.accruals exactReal steepRates 0).map (List.map Accrual.kind)) =
      some (some [.egressCharge, .egressEarning]) :=
  ⟨hourEnd_reached, by decide +kernel, by decide +kernel, by decide +kernel⟩

end StoragePlatform
