/-
Module: StoragePlatform.Proofs.Archive
Purpose: When `usage_events` ends up with one row for each committed version and each
  consumed receipt.
Trusted boundary: none
Main exports: ArchiveComplete, storageUsage_msgId, archive_complete_iff
-/
import StoragePlatform.Ledger.Archive
import StoragePlatform.Proofs.Accrual
import StoragePlatform.Proofs.Download
import StoragePlatform.Proofs.Report

namespace StoragePlatform

open Lib List Sample

variable {db db' : DB} {v : FileVersion} {wire : Text} {s' : UsageDB} {env : ReportEnv}
variable {fileId userId ownerId : Uuid} {seen : List Bytes} {i : Nat} {wires : List Text}
variable {t : System} {f : File} {uuids : UuidPackage}

/-- What the archive should hold: one row for each commit and each receipt, and so the bytes
committed. -/
structure ArchiveComplete (s : Archive) : Prop where
  rows : s.bus.rows.Perm (s.commits.map UploadCommit.usage ++ s.usage.published.map egressUsage)
  bytes : (s.bus.rows.map fun row =>
      match row.payload with
      | .storage sizeBytes _ => sizeBytes
      | .egress _ _ _ => 0).sum =
    (s.commits.map UploadCommit.sizeBytes).sum

/-! ### Message ids -/

theorem truncHour_truncHour (t : Time) : truncHour (truncHour t) = truncHour t := by
  simp only [truncHour]
  rw [Int.mul_ediv_cancel _ (by decide)]

theorem storageUsage_id (c : UploadCommit) :
    c.usage.msgId uuids = "usage:".toList ++ ("storage".toList ++ ':' ::
      (uuids.string c.ownerId ++ ':' :: (truncHour c.publishedAt).repr.toList)) := by
  have plain : c.usage.dedup = [] := rfl
  have hour : truncHour c.usage.window = truncHour c.publishedAt := truncHour_truncHour _
  have kind : c.usage.payload.kind = "storage".toList := rfl
  have subject : c.usage.subjectId = c.ownerId := rfl
  rw [UsageMessage.msgId, usageMsgIdWithDedup, if_pos plain, hour, kind, subject]

theorem egressUsage_id {e : UsageEvent} (long : e.nonce.length = 16) :
    (egressUsage e).msgId uuids = "usage:".toList ++ ("egress".toList ++ ':' ::
      (uuids.string e.subjectId ++ ':' :: ((truncHour e.window).repr.toList ++
        ':' :: encodeHex e.nonce))) := by
  have filled : (egressUsage e).dedup ≠ [] := by
    intro none
    have size := length_encodeHex e.nonce
    rw [show encodeHex e.nonce = [] from none, long] at size
    cases size
  have hour : truncHour (egressUsage e).window = truncHour e.window := truncHour_truncHour _
  have kind : (egressUsage e).payload.kind = "egress".toList := rfl
  have subject : (egressUsage e).subjectId = e.subjectId := rfl
  have token : (egressUsage e).dedup = encodeHex e.nonce := rfl
  rw [UsageMessage.msgId, usageMsgIdWithDedup, if_neg filled, hour, kind, subject, token]
  rw [append_assoc, append_assoc, cons_append, append_assoc, cons_append]

/-- Storage events share an id exactly if they are of one user and one hour. -/
theorem storageUsage_msgId (c c' : UploadCommit) :
    c.usage.msgId uuids = c'.usage.msgId uuids ↔
      c.ownerId = c'.ownerId ∧ truncHour c.publishedAt = truncHour c'.publishedAt := by
  rw [storageUsage_id, storageUsage_id]
  constructor
  · intro same
    obtain ⟨_, subjects, windows⟩ :=
      label_inj (by decide) (by decide) (append_cancel_left same)
    exact ⟨subjects, Int.repr_inj.mp (String.toList_inj.mp windows)⟩
  · rintro ⟨owner, hour⟩
    rw [owner, hour]

/-- Egress events share an id only if they share the nonce. -/
theorem egressUsage_msgId {e e' : UsageEvent} (long : e.nonce.length = 16)
    (long' : e'.nonce.length = 16)
    (same : (egressUsage e).msgId uuids = (egressUsage e').msgId uuids) : e.nonce = e'.nonce := by
  rw [egressUsage_id long, egressUsage_id long'] at same
  obtain ⟨_, _, rests⟩ := label_inj (by decide) (by decide) (append_cancel_left same)
  have size : (':' :: encodeHex e.nonce).length = (':' :: encodeHex e'.nonce).length := by
    simp [length_encodeHex, long, long']
  have tokens := (append_inj' rests size).2
  have hex := congrArg decodeHex (List.cons.inj tokens).2
  rw [decodeHex_encodeHex, decodeHex_encodeHex] at hex
  exact Option.some.inj hex

theorem storageUsage_ne_egressUsage (c : UploadCommit) {e : UsageEvent}
    (long : e.nonce.length = 16) : c.usage.msgId uuids ≠ (egressUsage e).msgId uuids := by
  rw [storageUsage_id, egressUsage_id long]
  intro same
  obtain ⟨kinds, _⟩ := label_inj (by decide) (by decide) (append_cancel_left same)
  exact absurd kinds (by decide)

/-! ### Versions -/

section Versions

variable {s : System} {e : Event}

theorem DB.insertUpload_committed {file : File} {m : UploadManifest} {gen : Nat → Uuid}
    {planned : PlannedUpload} (ok : db.insertUpload file m gen = .ok (planned, db'))
    (member : v ∈ db'.versions) (committed : v.status = .committed) : v ∈ db.versions := by
  rw [(DB.insertUpload_files_versions ok).2] at member
  rcases mem_append_row.mp member with old | rfl
  · exact old
  · cases committed

/-- A version that is committed was so, or a commit has just returned it. -/
theorem Written.committed_from (written : Written s e db') (member : v ∈ db'.versions)
    (committed : v.status = .committed) :
    v ∈ s.db.versions ∨ ∃ ownerId f v', s.returned e = some (ownerId, f, v') ∧ v'.id = v.id := by
  cases written.versionStep with
  | begun ok =>
    cases (DB.beginUpload_inv ok).1 with
    | newFile _ _ _ _ inserted | newVersion _ _ _ _ _ _ inserted =>
      have old := DB.insertUpload_committed inserted member committed
      exact .inl old
    | resumed => exact .inl member
  | @committed i ownerId versionId wires targets stored result db' call ok =>
    obtain ⟨f, v'⟩ := result
    have returned : s.returned (.move i .commit) = some (ownerId, f, v') := by
      simp only [System.returned, call, ok]
    cases DB.commitUpload_inv ok with
    | already found before => exact .inl member
    | now found pending enough =>
      rcases mem_updateWhere.mp member with ⟨old, _, same, rfl⟩ | ⟨old, _⟩
      · refine .inr ⟨ownerId, _, _, returned, ?_⟩
        exact (DB.scanVersion_inv found).2.1.trans (of_decide_eq_true same).symm
      · exact .inl old
  | other _ _ versions =>
    exact .inl ((versions v member).resolve_right fun ended => ended.2 committed)

end Versions

/-! ### Reports -/

theorem receiptNonce_length {nonce : Bytes} (named : receiptNonce wire = some nonce) :
    nonce.length = 16 := by
  simp only [receiptNonce] at named
  repeat' split at named
  all_goals cases named
  exact not_not.mp ‹_›

theorem EgressRows.nonces {recs : List EgressRec} {rows : List DownloadReceipt}
    (made : EgressRows env fileId i recs rows) :
    rows.map DownloadReceipt.nonce = recs.map EgressRec.nonce := by
  induction recs generalizing i rows with
  | nil =>
    rw [made]
    rfl
  | cons rec_ recs ih =>
    obtain ⟨r, rest, rfl, row, more⟩ := made
    rw [map_cons, map_cons, row.nonce, ih more]

/-- An accepted report consumes receipts and publishes one event for each. -/
theorem UsageDB.reportDownload_accepted {s : UsageDB}
    (ok : s.reportDownload env userId fileId wires = (.ok (), s')) :
    ∃ (recs : List EgressRec) (added : List DownloadReceipt), s'.db = s.db ∧
      s'.published = s.published ++ recs.map (EgressRec.event env userId fileId) ∧
      s'.receipts = s.receipts ++ added ∧
      added.map DownloadReceipt.nonce = recs.map EgressRec.nonce ∧
      (UniqueOn DownloadReceipt.nonce s.receipts → UniqueOn DownloadReceipt.nonce s'.receipts) ∧
      ∀ r ∈ recs, r.nonce.length = 16 := by
  rw [reportDownload] at ok
  split at ok
  · cases ok
  split at ok <;> cases ok
  rename_i recs s₁ validated
  obtain ⟨⟨added, left, -, rows⟩, valid⟩ :=
    @reportWires_spec env s s userId fileId [] (InLoop.start s) 0 wires
  rw [validated] at left rows valid
  obtain rfl := left
  obtain ⟨all, distinct, -⟩ := (valid recs).mp rfl
  have nonces := (rows recs rfl).nonces
  have checked : ∀ r ∈ recs, r.nonce.length = 16 ∧ ∀ old ∈ s.receipts, old.nonce ≠ r.nonce := by
    intro r member
    obtain ⟨wire, -, -, -, named, -, fresh, -⟩ :=
      forall₂_right (forall₂_of_mapM (fun _ _ => verified_of_acceptable) all) member
    exact ⟨receiptNonce_length named, fresh⟩
  obtain ⟨stats, metered⟩ := UsageDB.meterEgress_frame
    { s with receipts := s.receipts ++ added } env userId fileId recs
  rw [metered]
  refine ⟨recs, added, rfl, rfl, rfl, nonces, fun unique => ?_,
    fun r member => (checked r member).1⟩
  rw [UniqueOn, map_append, nonces]
  refine nodup_append.mpr ⟨unique, distinct, fun nonce before nonce' new same => ?_⟩
  obtain ⟨old, inReceipts, rfl⟩ := mem_map.mp before
  obtain ⟨r, member, rfl⟩ := mem_map.mp new
  exact (checked r member).2 old inReceipts same

/-! ### The archive -/

/-- The history of commits is what the tables say: each version at most once, and every one
committed since the start; and the events published are those of the receipts consumed
since. -/
structure Archive.Accounts (start s : Archive) : Prop where
  once : UniqueOn UploadCommit.versionId s.commits
  recorded : ∀ c ∈ s.commits, ∃ v ∈ s.usage.db.versions,
    v.id = c.versionId ∧ v.sizeBytes = c.sizeBytes ∧ v.status ≠ .pending
  complete : ∀ v ∈ s.usage.db.versions, v.status = .committed →
    v ∈ start.usage.db.versions ∨ ∃ c ∈ s.commits, c.versionId = v.id
  receipts : ∃ new, s.usage.receipts = start.usage.receipts ++ new ∧
    new.map DownloadReceipt.nonce = s.usage.published.map UsageEvent.nonce

structure ArchiveInv (uuids : UuidPackage) (start s : Archive) : Prop where
  schema : s.usage.db.Schema
  accounts : start.Accounts s
  bus : s.bus.Kept (UsageMessage.msgId uuids)
  published : s.bus.published.Perm
    (s.commits.map UploadCommit.usage ++ s.usage.published.map egressUsage)
  receipt_pk : UniqueOn DownloadReceipt.nonce s.usage.receipts
  long : ∀ e ∈ s.usage.published, e.nonce.length = 16

/-- A control plane that has not published anything yet. -/
structure Archive.Begins (s : Archive) : Prop where
  schema : s.usage.db.Schema
  receipt_pk : UniqueOn DownloadReceipt.nonce s.usage.receipts
  commits : s.commits = []
  published : s.usage.published = []
  bus : s.bus = .empty

theorem Archive.Begins.inv {s : Archive} (begins : s.Begins) : ArchiveInv uuids s s where
  schema := begins.schema
  accounts :=
    { once := by
        rw [begins.commits]
        exact .nil _
      recorded := by
        rw [begins.commits]
        nofun
      complete := fun v member _ => .inl member
      receipts := ⟨[], by simp, by simp [begins.published]⟩ }
  bus := by
    rw [begins.bus]
    exact .empty
  published := by simp [begins.bus, begins.commits, begins.published, Delivery.empty]
  receipt_pk := begins.receipt_pk
  long := by
    rw [begins.published]
    nofun

section Steps

variable {sigOk : SigCheck} {start s : Archive}

/-- A step of the control plane keeps what is recorded of the commits so far. -/
theorem Archive.Accounts.recorded_step (accounts : start.Accounts s) {e : Event}
    (moved : step sigOk s.system e = some t) :
    ∀ c ∈ s.commits, ∃ v ∈ t.db.versions,
      v.id = c.versionId ∧ v.sizeBytes = c.sizeBytes ∧ v.status ≠ .pending := by
  intro c member
  obtain ⟨v, stored, same, size, settled⟩ := accounts.recorded c member
  obtain ⟨v', stored', kept⟩ := (step_grows moved).versions v stored
  obtain ⟨same', -, size'⟩ := kept.fields
  exact ⟨v', stored', same'.trans same, size'.trans size, kept.settled settled⟩

theorem ArchiveInv.system (inv : ArchiveInv uuids start s) {e : Event}
    (moved : step sigOk s.system e = some t) (quiet : s.system.returned e = none) :
    ArchiveInv uuids start (s.withSystem t) :=
  { inv with
    schema := step_schema s.system e t inv.schema moved
    accounts :=
      { inv.accounts with
        recorded := inv.accounts.recorded_step moved
        complete := by
          intro v member committed
          rcases (step_written moved).committed_from member committed with old | new
          · exact inv.accounts.complete v old committed
          · obtain ⟨_, _, _, returned, _⟩ := new
            cases quiet.symm.trans returned } }

/-- The database after a commit that returns. -/
theorem step_commit {s : System} {versionId : Uuid} {targets : List PlacementTarget}
    {stored : List Uuid} {result : File × FileVersion}
    (moved : step sigOk s (.move i .commit) = some t)
    (call : s.calls[i]? = some (.committing (.upload ownerId versionId) wires targets stored))
    (ok : s.db.commitUpload ownerId versionId stored = .ok (result, db')) : t.db = db' := by
  cases step_inv moved with
  | move current advanced =>
    cases call.symm.trans current
    cases advanced with
    | uploadRefused refused => cases ok.symm.trans refused
    | uploaded ok' =>
      cases ok.symm.trans ok'
      rfl

/-- What a first commit returns. -/
theorem System.returned_first {s : System} {e : Event} (moved : step sigOk s e = some t)
    (returned : s.returned e = some (ownerId, f, v))
    (first : ∀ old ∈ s.db.versions, old.id = v.id → old.status = .pending) :
    (∃ old ∈ s.db.versions, old.id = v.id) ∧ v ∈ t.db.versions ∧ v.status = .committed := by
  unfold System.returned at returned
  split at returned
  · split at returned
    · rename_i call
      split at returned <;> cases returned
      rename_i ok
      have after := step_commit moved call ok
      rw [after]
      cases DB.commitUpload_inv ok with
      | already found before =>
        rw [first _ (DB.scanVersion_inv found).1 rfl] at before
        cases before
      | now found pending enough =>
        obtain ⟨stored, same, _⟩ := DB.scanVersion_inv found
        refine ⟨⟨_, stored, rfl⟩, ?_, rfl⟩
        exact mem_updateWhere.mpr (.inl ⟨_, stored, decide_eq_true same, rfl⟩)
    · cases returned
  · cases returned

theorem ArchiveInv.commit (inv : ArchiveInv uuids start s) {e : Event}
    (moved : step sigOk s.system e = some t) (returned : s.system.returned e = some (ownerId, f, v))
    (first : ∀ old ∈ s.usage.db.versions, old.id = v.id → old.status = .pending) (now : Time) :
    ArchiveInv uuids start
      { s.withSystem t with
        commits := s.commits ++ [⟨ownerId, v.id, f.id, v.sizeBytes, now⟩]
        bus := s.bus.publish (UsageMessage.msgId uuids)
          (UploadCommit.usage ⟨ownerId, v.id, f.id, v.sizeBytes, now⟩) } := by
  obtain ⟨_, stored, committed⟩ := System.returned_first moved returned first
  constructor
  case schema => exact step_schema s.system e t inv.schema moved
  case accounts =>
    constructor
    case once =>
      refine inv.accounts.once.append_singleton fun c member same => ?_
      obtain ⟨old, isVersion, sameId, _, settled⟩ := inv.accounts.recorded c member
      exact settled (first old isVersion (sameId.trans same))
    case recorded =>
      intro c member
      rcases mem_append.mp member with before | new
      · exact inv.accounts.recorded_step moved c before
      · cases mem_singleton.mp new
        refine ⟨v, stored, rfl, rfl, ?_⟩
        rw [committed]
        nofun
    case complete =>
      intro v' member committed'
      rcases (step_written moved).committed_from member committed' with old | new
      · rcases inv.accounts.complete v' old committed' with before | ⟨c, isCommit, same⟩
        · exact .inl before
        · exact .inr ⟨c, mem_append_left _ isCommit, same⟩
      · obtain ⟨_, _, _, returned', same⟩ := new
        cases returned.symm.trans returned'
        exact .inr ⟨_, mem_append_right _ (mem_singleton.mpr rfl), same⟩
    case receipts => exact inv.accounts.receipts
  case bus => exact inv.bus.publish _
  case published =>
    refine (inv.published.append_right _).trans ?_
    rw [map_append, append_assoc, append_assoc]
    exact (perm_append_comm).append_left _
  case receipt_pk => exact inv.receipt_pk
  case long => exact inv.long

theorem ArchiveInv.report (inv : ArchiveInv uuids start s) {usage : UsageDB}
    (ok : s.usage.reportDownload env userId fileId wires = (.ok (), usage)) :
    ArchiveInv uuids start
      { s with
        usage := usage
        bus := ((usage.published.drop s.usage.published.length).map egressUsage).foldl
          (Delivery.publish (UsageMessage.msgId uuids)) s.bus } := by
  obtain ⟨recs, added, db, published, receipts, nonces, unique, long⟩ :=
    UsageDB.reportDownload_accepted ok
  have events : usage.published.drop s.usage.published.length =
      recs.map (EgressRec.event env userId fileId) := by
    rw [published, drop_left]
  rw [events]
  obtain ⟨kept, attempts⟩ :=
    inv.bus.publishes ((recs.map (EgressRec.event env userId fileId)).map egressUsage)
  constructor
  case schema => exact db ▸ inv.schema
  case accounts =>
    constructor
    case once => exact inv.accounts.once
    case recorded => exact db ▸ inv.accounts.recorded
    case complete => exact db ▸ inv.accounts.complete
    case receipts =>
      obtain ⟨new, before, sameNonces⟩ := inv.accounts.receipts
      refine ⟨new ++ added, ?_, ?_⟩
      · change usage.receipts = _
        rw [receipts, before, append_assoc]
      · change _ = usage.published.map _
        rw [published, map_append, map_append, sameNonces, nonces, map_map]
        rfl
  case bus => exact kept
  case published =>
    have grown := inv.published.append_right
      ((recs.map (EgressRec.event env userId fileId)).map egressUsage)
    rw [← attempts, append_assoc, ← map_append, ← published] at grown
    exact grown
  case receipt_pk => exact unique inv.receipt_pk
  case long =>
    change ∀ e ∈ usage.published, _
    rw [published]
    intro e member
    rcases mem_append.mp member with old | new
    · exact inv.long e old
    · obtain ⟨r, isRec, rfl⟩ := mem_map.mp new
      exact long r isRec

theorem ArchiveInv.plan (inv : ArchiveInv uuids start s) (tickets : s.usage.db.Tickets db fileId) :
    ArchiveInv uuids start { s with usage := { s.usage with db := db } } := by
  obtain ⟨added, _, rfl⟩ := tickets
  exact { inv with schema := { inv.schema with }, accounts := { inv.accounts with } }

/-- Every step keeps the invariant, if its commit is a first one. -/
theorem archiveStep_inv (s : Archive) (e : ArchiveEvent) (t : Archive)
    (inv : ArchiveInv uuids start s) (moved : archiveStep uuids sigOk s e = some t)
    (first : s.firstCommit e = true) : ArchiveInv uuids start t := by
  cases e with
  | system e now =>
    simp only [archiveStep] at moved
    split at moved
    · cases moved
    rename_i t' stepped
    split at moved <;> cases moved
    · exact inv.system stepped ‹_›
    · rename_i ownerId f v returned
      simp only [Archive.firstCommit, returned, Option.all_some, all_eq_true,
        decide_eq_true_eq] at first
      exact inv.commit stepped returned first now
  | planDownload env ownerId fileId =>
    cases moved
    exact inv.plan (s.usage.db.planDownload_tickets env ownerId fileId)
  | reportDownload env userId fileId wires =>
    simp only [archiveStep] at moved
    split at moved <;> cases moved
    exact inv.report ‹_›
  | deliver i =>
    simp only [archiveStep] at moved
    split at moved <;> cases moved
    exact
      { inv with
        accounts := { inv.accounts with }
        bus := inv.bus.deliver ‹_›
        published := by
          rw [Delivery.published_deliver ‹_›]
          exact inv.published }

end Steps

/-- The keys of everything published are distinct exactly if those of the commits are. -/
theorem ArchiveInv.unique_iff {start s : Archive} (inv : ArchiveInv uuids start s) :
    UniqueOn (UsageMessage.msgId uuids) s.bus.published ↔
      UniqueOn (fun c : UploadCommit => (c.ownerId, truncHour c.publishedAt)) s.commits := by
  have egress : UniqueOn (UsageMessage.msgId uuids) (s.usage.published.map egressUsage) := by
    have nonces : UniqueOn UsageEvent.nonce s.usage.published := by
      obtain ⟨new, grown, same⟩ := inv.accounts.receipts
      have all := inv.receipt_pk
      rw [UniqueOn, grown, map_append] at all
      rw [UniqueOn, ← same]
      exact all.of_append_right
    rw [UniqueOn, map_map]
    refine (nodup_map_iff_inj_on nonces.nodup).mpr fun e member e' member' same => ?_
    exact nonces.eq_of_key member member'
      (egressUsage_msgId (inv.long e member) (inv.long e' member') same)
  have commits : UniqueOn (UsageMessage.msgId uuids) (s.commits.map UploadCommit.usage) ↔
      UniqueOn (fun c : UploadCommit => (c.ownerId, truncHour c.publishedAt)) s.commits := by
    rw [UniqueOn, map_map]
    refine UniqueOn.iff_of_same fun c c' => ?_
    rw [Prod.mk.injEq]
    exact storageUsage_msgId c c'
  rw [← commits]
  constructor
  · intro unique
    have all := unique.perm inv.published.symm
    rw [UniqueOn, map_append] at all
    exact all.of_append_left
  · intro unique
    refine UniqueOn.perm ?_ inv.published
    rw [UniqueOn, map_append, nodup_append]
    refine ⟨unique, egress, fun id ofCommit id' ofReport same => ?_⟩
    simp only [map_map, mem_map] at ofCommit ofReport
    obtain ⟨c, _, rfl⟩ := ofCommit
    obtain ⟨e, member, rfl⟩ := ofReport
    exact storageUsage_ne_egressUsage c (inv.long e member) same

/-- The rows determine the bytes. -/
theorem ArchiveComplete.of_rows {s : Archive}
    (rows : s.bus.rows.Perm
      (s.commits.map UploadCommit.usage ++ s.usage.published.map egressUsage)) :
    ArchiveComplete s := by
  refine ⟨rows, ?_⟩
  rw [(rows.map _).sum_eq, map_append, sum_append, map_map, map_map]
  have none : ((s.usage.published.map ((fun row : UsageMessage =>
      match row.payload with
      | .storage sizeBytes _ => sizeBytes
      | .egress _ _ _ => 0) ∘ egressUsage)).sum : Int) = 0 := by
    refine sum_eq_zero fun n member => ?_
    obtain ⟨e, _, rfl⟩ := mem_map.mp member
    rfl
  rw [none, Int.add_zero]
  rfl

/-- For every control plane and every run of it with first commits and accepted reports,
with every message of the stream delivered at least once: the history of commits and reports
is what the tables say, and the archive is complete exactly if no two commits of one user
published in the same hour. -/
theorem archive_complete_iff (sigOk : SigCheck) (start : Archive) (begins : start.Begins)
    (events : List ArchiveEvent) (s : Archive)
    (run : exec (archiveStep uuids sigOk) start events = some s)
    (first : EveryStep (archiveStep uuids sigOk) (fun s e _ => s.firstCommit e = true) start events)
    (settled : s.bus.Settled) :
    start.Accounts s ∧
      (ArchiveComplete s ↔
        UniqueOn (fun c : UploadCommit => (c.ownerId, truncHour c.publishedAt)) s.commits) := by
  have inv : ArchiveInv uuids start s :=
    EveryState.last (EveryState.of_step archiveStep_inv begins.inv first) run
  refine ⟨inv.accounts, ?_⟩
  rw [← inv.unique_iff, ← inv.bus.rows_perm_iff settled]
  constructor
  · exact fun complete => complete.rows.trans inv.published.symm
  · exact fun rows => .of_rows (rows.trans inv.published)

namespace Sample

/-- The ids of one of two uploads. -/
def uploadId (k i : Nat) : Uuid := BitVec.ofNat 128 (5000 + 100 * k + i)

def uploadTarget (k i : Nat) : PlacementTarget where
  placement := ⟨14 * k + i + 1, uploadId k (10 + i), (node i).id, .pending⟩
  fragment := ⟨uploadId k (10 + i), uploadId k 2, i, 1, digest⟩
  node := node i

/-- Two uploads of one user whose shards are out and whose commits have matched the
receipts. -/
def twoPending : Archive where
  usage :=
    { db :=
        { DB.empty with
          buckets := [bucket]
          files := [0, 1].map fun k =>
            { id := uploadId k 0, bucketId := bucket.id, path := ['/', Char.ofNat (97 + k)],
              isFolder := false, currentVersion := none, status := .uploading, deletedAt := none }
          versions := [0, 1].map fun k =>
            { id := uploadId k 1, fileId := uploadId k 0, versionNo := 1, sizeBytes := 10,
              contentSha256 := digest, encryptionMeta := [], chunkSize := 1048576,
              ecDataShards := 10, ecParityShards := 4, status := .pending }
          chunks := [0, 1].map fun k => ⟨uploadId k 2, uploadId k 1, 0, 10, digest⟩
          fragments := [0, 1].flatMap fun k =>
            (List.range 14).map fun i => (uploadTarget k i).fragment
          nodes := (List.range 14).map node
          placements := [0, 1].flatMap fun k =>
            (List.range 14).map fun i => (uploadTarget k i).placement
          nextPlacementId := 29 }
      receipts := []
      stats := []
      published := [] }
  calls := [0, 1].map fun k =>
    .committing (.upload owner (uploadId k 1)) [] ((List.range 14).map (uploadTarget k))
      ((List.range 14).map fun i => uploadId k (10 + i))
  commits := []
  bus := .empty

/-- Both commit, with this clock, and the ledger handles what is in the stream, the first
message twice. -/
def commitsAt (first second : Time) : List ArchiveEvent :=
  [.system (.move 0 .commit) first, .deliver 0, .system (.move 1 .commit) second, .deliver 0]

theorem twoPending_schema : twoPending.usage.db.Schema := by
  constructor <;> decide +kernel

theorem twoPending_begins : twoPending.Begins :=
  ⟨twoPending_schema, .nil _, rfl, rfl, rfl⟩

end Sample

/-- Two commits of one user in different hours are archived. -/
theorem hourly_commits_archived :
    ∃ s, exec (archiveStep textNumber toySig) twoPending (commitsAt 0 3600 ++ [.deliver 1]) =
        some s ∧ ArchiveComplete s ∧ s.commits.length = 2 := by
  have evaluated : ∃ s ∈ exec (archiveStep textNumber toySig) twoPending
      (commitsAt 0 3600 ++ [.deliver 1]),
        s.bus.Settled ∧ s.commits.length = 2 ∧
          UniqueOn (fun c : UploadCommit => (c.ownerId, truncHour c.publishedAt)) s.commits := by
    decide +kernel
  obtain ⟨s, run, settled, two, unique⟩ := evaluated
  refine ⟨s, run, ?_, two⟩
  exact (archive_complete_iff toySig twoPending twoPending_begins _ s run
    (by decide +kernel) settled).2.mpr unique

/-- Two commits of one user in one hour leave one row: ten bytes of twenty. -/
theorem second_commit_dropped :
    ∃ s, exec (archiveStep textNumber toySig) twoPending (commitsAt 0 60) = some s ∧
      s.bus.Settled ∧ s.commits.map UploadCommit.sizeBytes = [10, 10] ∧
      s.bus.rows = [storageUsage owner 0 10 (uploadId 0 0)] ∧
      ¬ ArchiveComplete s := by
  have evaluated : ∃ s ∈ exec (archiveStep textNumber toySig) twoPending (commitsAt 0 60),
      s.bus.Settled ∧ s.commits.map UploadCommit.sizeBytes = [10, 10] ∧
        s.bus.rows = [storageUsage owner 0 10 (uploadId 0 0)] := by
    decide +kernel
  obtain ⟨s, run, settled, sizes, rows⟩ := evaluated
  refine ⟨s, run, settled, sizes, rows, fun complete => ?_⟩
  have bytes := complete.bytes
  rw [rows, sizes] at bytes
  exact absurd bytes (by decide)

end StoragePlatform
