/-
Module: StoragePlatform.Proofs.Versions
Purpose: How many pending and committed versions a live file has when uploads,
  aborts, commits and deletes interleave statement by statement.
Trusted boundary: none
Main exports: OneVersion, StillFree, VersionsSound, one_version_held
-/
import StoragePlatform.Store.Transactions
import StoragePlatform.Proofs.Steps

namespace StoragePlatform

open Lib List Sample

variable {db db' : DB} {v : FileVersion} {fileId ownerId versionId : Uuid} {t u : VersionTx}
variable {f file : File} {others : List VersionTx} {own : Bool} {now : Time} {m : UploadManifest}
variable {planned : PlannedUpload}

/-!
The database itself only keeps version numbers apart.  Numbers are handed out
without gaps, so of two transactions that insert a version of one file at the same
time the second one computes the number of the first and has to wait for it.  What
the unique key does not catch is a first transaction that has committed before the
second one computes its number: then the second gets the next number, whatever it
has read before.  `StillFree` says that this does not happen.
-/

/-- A live file has at most one pending and at most one committed version; it is
active with the committed one as its current version. -/
def OneVersion (db : DB) : Prop :=
  ∀ f ∈ db.files, f.deletedAt = none →
    (db.versions.countP fun v => v.fileId = f.id ∧ v.status = .pending) ≤ 1 ∧
    (db.versions.countP fun v => v.fileId = f.id ∧ v.status = .committed) ≤ 1 ∧
    ∀ v ∈ db.versions, v.fileId = f.id → v.status = .committed →
      f.currentVersion = some v.id ∧ f.status = .active
deriving Decidable

/-- The file of another transaction that an INSERT of a version is for. -/
def VersionTx.insertsInto? : VersionTx → Option File
  | .numbered file false _ => some file
  | _ => none

/-- What BeginUpload has read of a file that was there is still so when its INSERT
of a version gets through: the file is not active and has no pending version. -/
def StillFree (db : DB) (t : VersionTx) : Prop :=
  ∀ file ∈ t.insertsInto?,
    (∀ f ∈ db.files, f.id = file.id → f.status ≠ .active) ∧ db.pendingVersion file.id = none
deriving Decidable

/-! ### Version numbers -/

theorem DB.lt_nextVersionNo (member : v ∈ db.versions) :
    v.versionNo < db.nextVersionNo v.fileId := by
  refine Nat.lt_succ_of_le ((le_foldl_max 0 _).2 _ (mem_map.mpr ⟨v, ?_, rfl⟩))
  exact mem_filter.mpr ⟨member, decide_eq_true rfl⟩

/-- The next number is the first, or follows that of a version. -/
theorem DB.nextVersionNo_eq (db : DB) (fileId : Uuid) : db.nextVersionNo fileId = 1 ∨
    ∃ v ∈ db.versions, v.fileId = fileId ∧ db.nextVersionNo fileId = v.versionNo + 1 := by
  rcases foldl_max_mem 0 ((db.versions.filter fun v => v.fileId = fileId).map
    FileVersion.versionNo) with zero | highest
  · exact .inl (congrArg (· + 1) zero)
  · obtain ⟨v, listed, top⟩ := mem_map.mp highest
    obtain ⟨member, ofFile⟩ := mem_filter.mp listed
    exact .inr ⟨v, member, of_decide_eq_true ofFile, congrArg (· + 1) top.symm⟩

theorem DB.pendingVersion_eq_none (none_pending : db.pendingVersion fileId = none) :
    ∀ v ∈ db.versions, v.fileId = fileId → v.status ≠ .pending := by
  intro v member ofFile pending
  have empty := head?_eq_none_iff.mp none_pending
  have listed : v ∈ orderBy (fun a b : FileVersion => b.versionNo ≤ a.versionNo)
      (db.versions.filter fun v => v.fileId = fileId ∧ v.status = .pending) :=
    mem_orderBy.mpr (mem_filter.mpr ⟨member, decide_eq_true ⟨ofFile, pending⟩⟩)
  rw [empty] at listed
  cases listed

/-! ### The committed rows -/

/-- The invariant of the committed rows. -/
structure VersionsSound (db : DB) : Prop where
  file_pk : UniqueOn File.id db.files
  version_pk : UniqueOn FileVersion.id db.versions
  version_file : ∀ v ∈ db.versions, ∃ f ∈ db.files, f.id = v.fileId
  /-- Version numbers have no gaps. -/
  gapless : ∀ v ∈ db.versions, ∀ k, 0 < k → k < v.versionNo →
    ∃ w ∈ db.versions, w.fileId = v.fileId ∧ w.versionNo = k
  one : ∀ f ∈ db.files, f.deletedAt = none → ∀ v ∈ db.versions, ∀ w ∈ db.versions,
    v.fileId = f.id → w.fileId = f.id → v.current = true → w.current = true → v = w
  committed : ∀ f ∈ db.files, f.deletedAt = none → ∀ v ∈ db.versions, v.fileId = f.id →
    v.status = .committed → f.currentVersion = some v.id ∧ f.status = .active

theorem VersionsSound.number_taken (h : VersionsSound db) {k : Nat} (positive : 0 < k)
    (below : k < db.nextVersionNo fileId) :
    ∃ w ∈ db.versions, w.fileId = fileId ∧ w.versionNo = k := by
  rcases db.nextVersionNo_eq fileId with first | ⟨v, member, ofFile, top⟩
  · omega
  · rcases Nat.lt_or_eq_of_le (Nat.le_of_lt_succ (top ▸ below)) with less | same
    · obtain ⟨w, member', sameFile, number⟩ := h.gapless v member k positive less
      exact ⟨w, member', sameFile.trans ofFile, number⟩
    · exact ⟨v, member, ofFile, same.symm⟩

theorem VersionsSound.oneVersion (h : VersionsSound db) : OneVersion db := by
  intro f member live
  have few : ∀ status, (status = .pending ∨ status = .committed) →
      (db.versions.countP fun v => v.fileId = f.id ∧ v.status = status) ≤ 1 := by
    intro status current
    refine countP_le_one h.version_pk.nodup fun v inV w inW ofV ofW => ?_
    obtain ⟨sameV, statusV⟩ := of_decide_eq_true ofV
    obtain ⟨sameW, statusW⟩ := of_decide_eq_true ofW
    exact h.one f member live v inV w inW sameV sameW
      (by rw [FileVersion.current, statusV]; exact decide_eq_true current)
      (by rw [FileVersion.current, statusW]; exact decide_eq_true current)
  exact ⟨few _ (.inl rfl), few _ (.inr rfl), h.committed f member live⟩

/-! ### Open transactions -/

/-- The file a BeginUpload is for is in the table, or is its own and not there yet. -/
def FileKnown (db : DB) (file : File) (own : Bool) : Prop :=
  if own then ∀ f ∈ db.files, f.id ≠ file.id else ∃ f ∈ db.files, f.id = file.id

/-- The invariant of an open transaction. -/
def VersionTx.Sound (db : DB) : VersionTx → Prop
  | .fileRead _ file => ∃ f ∈ db.files, f.id = file.id
  | .fileReady _ file own => FileKnown db file own
  | .numbered file own v =>
    FileKnown db file own ∧ v.fileId = file.id ∧ v.status = .pending ∧ 0 < v.versionNo ∧
      v.versionNo ≤ db.nextVersionNo v.fileId
  | .begun file own v =>
    FileKnown db file own ∧ v.fileId = file.id ∧ v.status = .pending ∧
      v.versionNo = db.nextVersionNo v.fileId ∧ (∀ w ∈ db.versions, w.id ≠ v.id) ∧
      ∀ f ∈ db.files, f.id = v.fileId → f.deletedAt = none →
        ∀ w ∈ db.versions, w.fileId = f.id → w.current = false
  | .scanning file versionId => ∃ v ∈ db.versions, v.id = versionId ∧ v.fileId = file.id
  | .scanned file v | .versionSet file v | .fileSet file v =>
    v ∈ db.versions ∧ v.status = .pending ∧ v.fileId = file.id
  | _ => True

/-- Two open transactions have not inserted the same row and not locked the same
version. -/
structure VersionTx.Apart (t u : VersionTx) : Prop where
  files : ∀ f ∈ t.newFile?, ∀ g ∈ u.newFile?, f.id ≠ g.id
  versions : ∀ v ∈ t.newVersion?, ∀ w ∈ u.newVersion?,
    v.id ≠ w.id ∧ ¬(v.fileId = w.fileId ∧ v.versionNo = w.versionNo)
  locks : ∀ id ∈ t.versionLocks, id ∉ u.versionLocks

theorem VersionTx.Apart.symm (h : t.Apart u) : u.Apart t where
  files f hf g hg same := h.files g hg f hf same.symm
  versions v hv w hw :=
    ⟨fun same => (h.versions w hw v hv).1 same.symm,
      fun same => (h.versions w hw v hv).2 ⟨same.1.symm, same.2.symm⟩⟩
  locks id hid other := h.locks id other hid

theorem VersionTx.Apart.of_locks (file : t.newFile? = none) (version : t.newVersion? = none)
    (locks : ∀ id ∈ t.versionLocks, id ∉ u.versionLocks) : t.Apart u where
  files f hf := by simp [file] at hf
  versions v hv := by simp [version] at hv
  locks := locks

theorem VersionTx.Apart.of_file (version : t.newVersion? = none) (locks : t.versionLocks = [])
    (files : ∀ f ∈ t.newFile?, ∀ g ∈ u.newFile?, f.id ≠ g.id) : t.Apart u where
  files := files
  versions v hv := by simp [version] at hv
  locks id hid := by simp [locks] at hid

theorem VersionTx.Apart.of_nothing (file : t.newFile? = none) (version : t.newVersion? = none)
    (locks : t.versionLocks = []) (u : VersionTx) : t.Apart u :=
  .of_locks file version fun id hid => by simp [locks] at hid

/-! ### Starting and running a statement -/

theorem VersionTx.start_sound {request : VersionRequest}
    (started : VersionTx.start db request = some t) : t.Sound db ∧ ∀ u, t.Apart u := by
  cases request with
  | beginUpload ownerId m =>
    simp only [start] at started
    split at started
    · split at started
      · cases started
      split at started
      · cases started
        exact ⟨trivial, .of_nothing rfl rfl rfl⟩
      · rename_i file found
        have known : ∃ f ∈ db.files, f.id = file.id :=
          ⟨file, mem_of_find?_eq_some found, rfl⟩
        split at started
        · cases started
        split at started <;> cases started
        all_goals exact ⟨known, .of_nothing rfl rfl rfl⟩
    · cases started
  | abortUpload versionId =>
    cases started
    exact ⟨trivial, .of_nothing rfl rfl rfl⟩
  | commitUpload ownerId versionId =>
    simp only [start] at started
    split at started <;> cases started
    rename_i file v found
    obtain ⟨member, same, -, joined, -⟩ := DB.scanVersion_inv found
    exact ⟨⟨v, member, same, joined.symm⟩, .of_nothing rfl rfl rfl⟩
  | softDelete ownerId fileId now =>
    simp only [start] at started
    split at started <;> cases started
    exact ⟨trivial, .of_nothing rfl rfl rfl⟩

/-- The INSERT of a version that gets through has the next number of its file. -/
theorem VersionsSound.next_number (h : VersionsSound db) (positive : 0 < v.versionNo)
    (atMost : v.versionNo ≤ db.nextVersionNo v.fileId)
    (free : ∀ w ∈ db.versions, VersionTx.sameVersionKey v w = false) :
    v.versionNo = db.nextVersionNo v.fileId := by
  by_contra other
  obtain ⟨w, member, ofFile, number⟩ :=
    h.number_taken positive (Nat.lt_of_le_of_ne atMost other)
  exact of_decide_eq_false (free w member) (.inr ⟨ofFile, number⟩)

/-- A file that is not active and has no pending version has no current one. -/
theorem VersionsSound.none_current (h : VersionsSound db)
    (inactive : ∀ f ∈ db.files, f.id = file.id → f.status ≠ .active)
    (none_pending : db.pendingVersion file.id = none) (member : f ∈ db.files)
    (same : f.id = file.id) (live : f.deletedAt = none) :
    ∀ w ∈ db.versions, w.fileId = f.id → w.current = false := by
  intro w inVersions ofFile
  refine decide_eq_false ?_
  rintro (pending | committed)
  · exact DB.pendingVersion_eq_none none_pending w inVersions (ofFile.trans same) pending
  · exact inactive f member same (h.committed f member live w inVersions ofFile committed).2

theorem VersionTx.ran_sound {t' : VersionTx} (h : VersionsSound db) (sound : t.Sound db)
    (guard : StillFree db t) (ran : Ran db others t t') : t'.Sound db := by
  cases ran with
  | pendingRead | versionMarked | fileLocked => exact sound
  | fileInserted free =>
    exact fun g member same =>
      of_decide_eq_false (free g (mem_append_left _ member)) (.inl same)
  | versionNumbered =>
    exact ⟨sound, rfl, rfl, Nat.succ_pos _, Nat.le_refl _⟩
  | @versionInserted file own version free =>
    obtain ⟨known, ofFile, pending, positive, atMost⟩ := sound
    have free' : ∀ w ∈ db.versions, sameVersionKey version w = false := fun w member =>
      free w (mem_append_left _ member)
    refine ⟨known, ofFile, pending, h.next_number positive atMost free', ?_, ?_⟩
    · exact fun w member same => of_decide_eq_false (free' w member) (.inl same)
    · intro f member same live
      cases own with
      | true => exact absurd (same.trans ofFile) (known f member)
      | false =>
        obtain ⟨inactive, none_pending⟩ := guard file rfl
        exact h.none_current inactive none_pending member (same.trans ofFile) live
  | versionLocked _ member same pending =>
    obtain ⟨v, inVersions, sameId, ofFile⟩ := sound
    have : v = _ := h.version_pk.eq_of_key inVersions member (sameId.trans same.symm)
    exact ⟨member, pending, this ▸ ofFile⟩
  | nothingCounted | abortBegun | abortLocked | deleteBegun | filesLocked | expireBegun
  | versionsLocked => trivial

theorem VersionTx.ran_apart {t' : VersionTx} (member : u ∈ others) (apart : t.Apart u)
    (ran : Ran db others t t') : t'.Apart u := by
  cases ran with
  | fileInserted free =>
    refine .of_file rfl rfl fun f hf g hg same => ?_
    cases hf
    have listed : g ∈ db.files ++ others.filterMap newFile? :=
      mem_append_right _ (mem_filterMap.mpr ⟨u, member, hg⟩)
    exact of_decide_eq_false (free g listed) (.inl same.symm)
  | @versionInserted file own version free =>
    refine ⟨?_, ?_, fun id hid => absurd hid not_mem_nil⟩
    · have same : (begun file own version).newFile? = (numbered file own version).newFile? := by
        cases own <;> rfl
      rw [same]
      exact apart.files
    · intro v hv w hw
      cases hv
      have listed : w ∈ db.versions ++ others.filterMap newVersion? :=
        mem_append_right _ (mem_filterMap.mpr ⟨u, member, hw⟩)
      have differ := of_decide_eq_false (free w listed)
      exact ⟨fun same => differ (.inl same.symm),
        fun same => differ (.inr ⟨same.1.symm, same.2.symm⟩)⟩
  | @versionNumbered m file own id =>
    have same : (numbered file own (db.newVersion file.id m fun _ => id)).newFile? =
        (fileReady m file own).newFile? := by
      cases own <;> rfl
    exact .of_file rfl rfl (same ▸ apart.files)
  | @abortLocked versionId found hit unlocked =>
    refine .of_locks rfl rfl fun id hid => ?_
    cases hit with
    | false => cases hid
    | true =>
      rw [mem_singleton.mp hid]
      exact unlocked rfl u member
  | versionLocked unlocked _ same _ =>
    refine .of_locks rfl rfl fun id hid => ?_
    rw [mem_singleton.mp hid, same]
    exact unlocked u member
  | versionMarked | fileLocked => exact ⟨apart.files, apart.versions, apart.locks⟩
  | versionsLocked unlocked =>
    exact .of_locks rfl rfl fun id hid => unlocked id hid u member
  | pendingRead | nothingCounted | abortBegun | deleteBegun | filesLocked | expireBegun =>
    exact .of_nothing rfl rfl rfl u

/-! ### Rows that change in place -/

/-- The columns of a version that no UPDATE changes. -/
def FileVersion.numberKey (v : FileVersion) : Uuid × Uuid × Nat := (v.id, v.fileId, v.versionNo)

/-- What the writes of an abort, a commit and a delete have in common: keys stay, no
file comes back to life, no version becomes current again, and only locked versions
change. -/
structure Updated (locked : List Uuid) (db db' : DB) : Prop where
  fileIds : db'.files.map File.id = db.files.map File.id
  numberKeys : db'.versions.map FileVersion.numberKey = db.versions.map FileVersion.numberKey
  live : ∀ f' ∈ db'.files, f'.deletedAt = none →
    ∃ f ∈ db.files, f.id = f'.id ∧ f.deletedAt = none
  current : ∀ v' ∈ db'.versions, v'.current = true →
    ∃ v ∈ db.versions, v.id = v'.id ∧ v.fileId = v'.fileId ∧ v.current = true
  kept : ∀ v ∈ db.versions, v.id ∉ locked → v ∈ db'.versions

section Updated

variable {locked : List Uuid}

theorem Updated.of_updateWhere {selFile : File → Bool} {setFile : File → File}
    {selVersion : FileVersion → Bool} {setVersion : FileVersion → FileVersion}
    (files : db'.files = updateWhere selFile setFile db.files)
    (versions : db'.versions = updateWhere selVersion setVersion db.versions)
    (locks : ∀ v, selVersion v = true → v.id ∈ locked) (fileId : ∀ f, (setFile f).id = f.id)
    (live : ∀ f, (setFile f).deletedAt = none → f.deletedAt = none)
    (numberKey : ∀ v, (setVersion v).numberKey = v.numberKey)
    (current : ∀ v ∈ db.versions, selVersion v = true → (setVersion v).current = true →
      v.current = true) : Updated locked db db' where
  fileIds := by rw [files, map_updateWhere fileId]
  numberKeys := by rw [versions, map_updateWhere numberKey]
  live f' member isLive := by
    rw [files, mem_updateWhere] at member
    rcases member with ⟨f, inFiles, -, rfl⟩ | ⟨inFiles, -⟩
    · exact ⟨f, inFiles, (fileId f).symm, live f isLive⟩
    · exact ⟨f', inFiles, rfl, isLive⟩
  current v' member isCurrent := by
    rw [versions, mem_updateWhere] at member
    rcases member with ⟨v, inVersions, selected, rfl⟩ | ⟨inVersions, -⟩
    · have same := numberKey v
      exact ⟨v, inVersions, (congrArg (·.1) same).symm, (congrArg (·.2.1) same).symm,
        current v inVersions selected isCurrent⟩
    · exact ⟨v', inVersions, rfl, rfl, isCurrent⟩
  kept v member unlocked := by
    rw [versions, mem_updateWhere]
    exact .inr ⟨member, Bool.eq_false_iff.mpr fun selected => unlocked (locks v selected)⟩

theorem Updated.exists_file (up : Updated locked db db') {id : Uuid} :
    (∃ f ∈ db'.files, f.id = id) ↔ ∃ f ∈ db.files, f.id = id := by
  simp only [← mem_map, up.fileIds]

theorem Updated.exists_version (up : Updated locked db db') {key : Uuid × Uuid × Nat} :
    (∃ v ∈ db'.versions, v.numberKey = key) ↔ ∃ v ∈ db.versions, v.numberKey = key := by
  simp only [← mem_map, up.numberKeys]

/-- The version a version of the new database was before. -/
theorem Updated.before (up : Updated locked db db') {v' : FileVersion}
    (member : v' ∈ db'.versions) :
    ∃ v ∈ db.versions, v.id = v'.id ∧ v.fileId = v'.fileId ∧ v.versionNo = v'.versionNo := by
  obtain ⟨v, inVersions, same⟩ := up.exists_version.mp ⟨v', member, rfl⟩
  exact ⟨v, inVersions, congrArg (·.1) same, congrArg (·.2.1) same, congrArg (·.2.2) same⟩

theorem Updated.after (up : Updated locked db db') (member : v ∈ db.versions) :
    ∃ v' ∈ db'.versions, v'.id = v.id ∧ v'.fileId = v.fileId ∧ v'.versionNo = v.versionNo := by
  obtain ⟨v', inVersions, same⟩ := up.exists_version.mpr ⟨v, member, rfl⟩
  exact ⟨v', inVersions, congrArg (·.1) same, congrArg (·.2.1) same, congrArg (·.2.2) same⟩

theorem nextVersionNo_eq_keys (db : DB) (fileId : Uuid) :
    db.nextVersionNo fileId =
      (((db.versions.map FileVersion.numberKey).filter fun k => k.2.1 = fileId).map
        (·.2.2)).foldl max 0 + 1 := by
  rw [filter_map, map_map]
  rfl

theorem Updated.nextVersionNo (up : Updated locked db db') (fileId : Uuid) :
    db'.nextVersionNo fileId = db.nextVersionNo fileId := by
  rw [nextVersionNo_eq_keys, nextVersionNo_eq_keys, up.numberKeys]

theorem Updated.version_pk (up : Updated locked db db')
    (unique : UniqueOn FileVersion.id db.versions) : UniqueOn FileVersion.id db'.versions := by
  have ids : ∀ db : DB, db.versions.map FileVersion.id =
      (db.versions.map FileVersion.numberKey).map (·.1) := fun db => by
    rw [map_map]
    rfl
  rw [UniqueOn, ids, up.numberKeys, ← ids]
  exact unique

/-- `committed` is the one part that depends on what the rows become. -/
theorem VersionsSound.updated (h : VersionsSound db) (up : Updated locked db db')
    (committed : ∀ f ∈ db'.files, f.deletedAt = none → ∀ v ∈ db'.versions, v.fileId = f.id →
      v.status = .committed → f.currentVersion = some v.id ∧ f.status = .active) :
    VersionsSound db' where
  file_pk := by
    rw [UniqueOn, up.fileIds]
    exact h.file_pk
  version_pk := up.version_pk h.version_pk
  version_file v member := by
    obtain ⟨old, inVersions, -, ofFile, -⟩ := up.before member
    rw [← ofFile]
    exact up.exists_file.mpr (h.version_file old inVersions)
  gapless v member k positive below := by
    obtain ⟨old, inVersions, -, ofFile, number⟩ := up.before member
    obtain ⟨w, inVersions', ofFile', number'⟩ :=
      h.gapless old inVersions k positive (number ▸ below)
    obtain ⟨w', member', -, sameFile, sameNumber⟩ := up.after inVersions'
    exact ⟨w', member', sameFile.trans (ofFile'.trans ofFile), sameNumber.trans number'⟩
  one f member live v inV w inW ofV ofW currentV currentW := by
    obtain ⟨f₀, inFiles, sameFile, live₀⟩ := up.live f member live
    obtain ⟨v₀, inV₀, idV, fileV, currentV₀⟩ := up.current v inV currentV
    obtain ⟨w₀, inW₀, idW, fileW, currentW₀⟩ := up.current w inW currentW
    have same : v₀ = w₀ := h.one f₀ inFiles live₀ v₀ inV₀ w₀ inW₀
      (fileV.trans (ofV.trans sameFile.symm)) (fileW.trans (ofW.trans sameFile.symm))
      currentV₀ currentW₀
    subst same
    exact (up.version_pk h.version_pk).eq_of_key inV inW (idV.symm.trans idW)
  committed := committed

theorem FileKnown.updated (known : FileKnown db file own) (up : Updated locked db db') :
    FileKnown db' file own := by
  cases own with
  | true =>
    intro f member same
    obtain ⟨f₀, inFiles, sameId⟩ := up.exists_file.mp ⟨f, member, same⟩
    exact known f₀ inFiles sameId
  | false => exact up.exists_file.mpr known

/-- An open transaction does not notice updates of versions it has not locked. -/
theorem VersionTx.Sound.updated (sound : u.Sound db) (up : Updated locked db db')
    (apart : ∀ id ∈ locked, id ∉ u.versionLocks) : u.Sound db' := by
  cases u with
  | fileRead m file => exact up.exists_file.mpr sound
  | fileReady m file own => exact FileKnown.updated sound up
  | numbered file own v =>
    obtain ⟨known, ofFile, pending, positive, atMost⟩ := sound
    exact ⟨known.updated up, ofFile, pending, positive, up.nextVersionNo v.fileId ▸ atMost⟩
  | begun file own v =>
    obtain ⟨known, ofFile, pending, number, fresh, none_current⟩ := sound
    refine ⟨known.updated up, ofFile, pending, up.nextVersionNo v.fileId ▸ number, ?_, ?_⟩
    · intro w member same
      obtain ⟨w₀, inVersions, sameId, -⟩ := up.before member
      exact fresh w₀ inVersions (sameId.trans same)
    · intro f member same live w inW ofW
      obtain ⟨f₀, inFiles, sameFile, live₀⟩ := up.live f member live
      refine Bool.eq_false_iff.mpr fun isCurrent => ?_
      obtain ⟨w₀, inW₀, -, fileW, currentW⟩ := up.current w inW isCurrent
      have stale := none_current f₀ inFiles (sameFile.trans same) live₀ w₀ inW₀
        (fileW.trans (ofW.trans sameFile.symm))
      rw [stale] at currentW
      cases currentW
  | scanning file versionId =>
    obtain ⟨v, member, same, ofFile⟩ := sound
    obtain ⟨v', member', sameId, sameFile, -⟩ := up.after member
    exact ⟨v', member', sameId.trans same, sameFile.trans ofFile⟩
  | scanned file v | versionSet file v | fileSet file v =>
    obtain ⟨member, rest⟩ := sound
    have unlocked : v.id ∉ locked := fun locks => apart _ locks mem_cons_self
    exact ⟨up.kept v member unlocked, rest⟩
  | pathFree | placementsDropped | nothingStored | aborting | aborted | deleteRead
  | deletingFiles | filesDeleted | expiring | expired => trivial

end Updated

/-! ### New rows -/

section VersionAdded

/-- The database after the commit of a BeginUpload. -/
structure VersionAdded (db : DB) (file : File) (own : Bool) (v : FileVersion) (db' : DB) :
    Prop where
  files : db'.files = if own then db.files ++ [file] else db.files
  versions : db'.versions = db.versions ++ [v]

variable (ins : VersionAdded db file own v db')

include ins

theorem VersionAdded.mem_versions {w : FileVersion} :
    w ∈ db'.versions ↔ w ∈ db.versions ∨ w = v := by
  rw [ins.versions, mem_append, mem_singleton]

/-- A file row of the new database is an old one, or the new row of an id that was
not there. -/
theorem VersionAdded.mem_files (known : FileKnown db file own) (member : f ∈ db'.files) :
    f ∈ db.files ∨ (f = file ∧ ∀ g ∈ db.files, g.id ≠ file.id) := by
  rw [ins.files] at member
  cases own with
  | true =>
    rcases mem_append.mp member with old | new
    · exact .inl old
    · exact .inr ⟨mem_singleton.mp new, known⟩
  | false => exact .inl member

theorem VersionAdded.files_subset : db.files ⊆ db'.files := by
  rw [ins.files]
  split
  · exact subset_append_left _ _
  · exact List.Subset.refl _

theorem VersionAdded.file_mem (known : FileKnown db file own) :
    ∃ f ∈ db'.files, f.id = file.id := by
  cases own with
  | true => exact ⟨file, by rw [ins.files]; simp, rfl⟩
  | false =>
    obtain ⟨f, member, same⟩ := known
    exact ⟨f, ins.files_subset member, same⟩

theorem VersionAdded.nextVersionNo_le (fileId : Uuid) :
    db.nextVersionNo fileId ≤ db'.nextVersionNo fileId := by
  rcases db.nextVersionNo_eq fileId with first | ⟨w, member, rfl, top⟩
  · rw [first]
    exact Nat.succ_pos _
  · rw [top]
    exact DB.lt_nextVersionNo (ins.mem_versions.mpr (.inl member))

theorem VersionAdded.nextVersionNo_other (other : v.fileId ≠ fileId) :
    db'.nextVersionNo fileId = db.nextVersionNo fileId := by
  simp [DB.nextVersionNo, ins.versions, other]

theorem VersionsSound.inserted (h : VersionsSound db)
    (sound : (VersionTx.begun file own v).Sound db) : VersionsSound db' := by
  obtain ⟨known, ofFile, pending, number, fresh, none_current⟩ := sound
  have isPending : v.status ≠ .committed := by simp [pending]
  -- a file that is new has no versions yet
  have no_versions : (∀ g ∈ db.files, g.id ≠ file.id) → ∀ w ∈ db.versions, w.fileId ≠ file.id := by
    intro unknown w member same
    obtain ⟨g, inFiles, sameId⟩ := h.version_file w member
    exact unknown g inFiles (sameId.trans same)
  refine
    { file_pk := ?_, version_pk := ?_, version_file := ?_, gapless := ?_, one := ?_,
      committed := ?_ }
  · rw [ins.files]
    cases own with
    | true => exact h.file_pk.append_singleton known
    | false => exact h.file_pk
  · rw [ins.versions]
    exact h.version_pk.append_singleton fresh
  · intro w member
    rcases ins.mem_versions.mp member with old | rfl
    · obtain ⟨f, inFiles, same⟩ := h.version_file w old
      exact ⟨f, ins.files_subset inFiles, same⟩
    · rw [ofFile]
      exact ins.file_mem known
  · intro w member k positive below
    have taken : ∃ u ∈ db.versions, u.fileId = w.fileId ∧ u.versionNo = k := by
      rcases ins.mem_versions.mp member with old | rfl
      · exact h.gapless w old k positive below
      · exact h.number_taken positive (number ▸ below)
    obtain ⟨u, inVersions, same⟩ := taken
    exact ⟨u, ins.mem_versions.mpr (.inl inVersions), same⟩
  · intro f member live w inW u inU ofW ofU currentW currentU
    have alone : ∀ x ∈ db.versions, x.fileId = f.id → x.current = true → f.id ≠ v.fileId := by
      intro x old ofX current same
      rcases ins.mem_files known member with inFiles | ⟨rfl, unknown⟩
      · rw [none_current f inFiles same live x old ofX] at current
        cases current
      · exact no_versions unknown x old ofX
    rcases ins.mem_versions.mp inW with oldW | rfl <;>
      rcases ins.mem_versions.mp inU with oldU | rfl
    · rcases ins.mem_files known member with inFiles | ⟨rfl, unknown⟩
      · exact h.one f inFiles live w oldW u oldU ofW ofU currentW currentU
      · exact absurd ofW (no_versions unknown w oldW)
    · exact absurd ofU.symm (alone w oldW ofW currentW)
    · exact absurd ofW.symm (alone u oldU ofU currentU)
    · rfl
  · intro f member live w inW ofW committed
    rcases ins.mem_versions.mp inW with old | rfl
    · rcases ins.mem_files known member with inFiles | ⟨rfl, unknown⟩
      · exact h.committed f inFiles live w old ofW committed
      · exact absurd ofW (no_versions unknown w old)
    · exact absurd committed isPending

theorem FileKnown.inserted {file' : File} {own' : Bool} (known' : FileKnown db file' own')
    (apart : own' = true → own = true → file.id ≠ file'.id) : FileKnown db' file' own' := by
  cases own' with
  | true =>
    intro f member
    rw [ins.files] at member
    cases own with
    | true =>
      rcases mem_append_row.mp member with old | rfl
      · exact known' f old
      · exact apart rfl rfl
    | false => exact known' f member
  | false =>
    obtain ⟨f, member, same⟩ := known'
    exact ⟨f, ins.files_subset member, same⟩

/-- An open transaction does not notice the rows of another BeginUpload: of the same
file it could only have the same version number. -/
theorem VersionTx.Sound.inserted (sound' : u.Sound db)
    (sound : (VersionTx.begun file own v).Sound db)
    (apart : (VersionTx.begun file own v).Apart u) : u.Sound db' := by
  obtain ⟨known, ofFile, -, number, -⟩ := sound
  have stays : ∀ {file' : File} {own' : Bool}, FileKnown db file' own' →
      (own' = true → u.newFile? = some file') → FileKnown db' file' own' := by
    refine fun known' mine => known'.inserted ins fun isOwn isOwn' => ?_
    subst isOwn'
    exact apart.files file rfl _ (mine isOwn)
  cases u with
  | fileRead m file' =>
    obtain ⟨f, member, same⟩ := sound'
    exact ⟨f, ins.files_subset member, same⟩
  | fileReady m file' own' => exact stays sound' (by rintro rfl; rfl)
  | numbered file' own' v' =>
    obtain ⟨known', ofFile', pending', positive, atMost⟩ := sound'
    exact ⟨stays known' (by rintro rfl; rfl), ofFile', pending', positive,
      atMost.trans (ins.nextVersionNo_le _)⟩
  | begun file' own' v' =>
    obtain ⟨known', ofFile', pending', number', fresh', none_current'⟩ := sound'
    have keys := apart.versions v rfl v' rfl
    have otherFile : v.fileId ≠ v'.fileId := fun same =>
      keys.2 ⟨same, by rw [number, number', same]⟩
    refine ⟨stays known' (by rintro rfl; rfl), ofFile', pending', ?_, ?_, ?_⟩
    · rw [ins.nextVersionNo_other otherFile]
      exact number'
    · intro w member
      rcases ins.mem_versions.mp member with old | rfl
      · exact fresh' w old
      · exact keys.1
    · intro f member same live w inW ofW
      rcases ins.mem_files known member with inFiles | ⟨rfl, -⟩
      · rcases ins.mem_versions.mp inW with old | rfl
        · exact none_current' f inFiles same live w old ofW
        · exact absurd (ofW.trans same) otherFile
      · exact absurd (ofFile.trans same) otherFile
  | scanning file' versionId =>
    obtain ⟨w, member, rest⟩ := sound'
    exact ⟨w, ins.mem_versions.mpr (.inl member), rest⟩
  | scanned file' w | versionSet file' w | fileSet file' w =>
    exact ⟨ins.mem_versions.mpr (.inl sound'.1), sound'.2⟩
  | pathFree | placementsDropped | nothingStored | aborting | aborted | deleteRead
  | deletingFiles | filesDeleted | expiring | expired => trivial

end VersionAdded

/-! ### Commits -/

section Commits

/-- Updates that delete files and retire versions. -/
theorem VersionsSound.retired {locked : List Uuid} (h : VersionsSound db) {selFile : File → Bool}
    {selVersion : FileVersion → Bool} {setVersion : FileVersion → FileVersion}
    (files : db'.files = updateWhere selFile (File.softDelete now) db.files)
    (versions : db'.versions = updateWhere selVersion setVersion db.versions)
    (locks : ∀ v, selVersion v = true → v.id ∈ locked)
    (numberKey : ∀ v, (setVersion v).numberKey = v.numberKey)
    (retires : ∀ v, (setVersion v).current = false) :
    VersionsSound db' ∧ Updated locked db db' := by
  have up : Updated locked db db' :=
    .of_updateWhere files versions locks (fun _ => rfl) (fun _ live => by cases live) numberKey
      fun v _ _ current => by simp [retires] at current
  refine ⟨h.updated up fun f member live v inVersions ofFile committed => ?_, up⟩
  rw [files, mem_updateWhere] at member
  rw [versions, mem_updateWhere] at inVersions
  rcases member with ⟨old, -, -, rfl⟩ | ⟨inFiles, -⟩
  · cases live
  rcases inVersions with ⟨old, -, -, rfl⟩ | ⟨inVersions, -⟩
  · exact absurd (.inr committed) (of_decide_eq_false (retires old))
  · exact h.committed f inFiles live v inVersions ofFile committed

theorem VersionTx.aborted_commit {hit : Bool} (h : VersionsSound db)
    (committed : (VersionTx.aborted versionId hit).commit db = some db') :
    VersionsSound db' ∧ Updated (VersionTx.aborted versionId hit).versionLocks db db' := by
  have files : db.files = updateWhere (fun _ => false) (File.softDelete 0) db.files :=
    (updateWhere_of_none fun _ _ => rfl).symm
  cases hit with
  | false =>
    cases committed
    have versions : db.versions = updateWhere (fun _ => false) FileVersion.expire db.versions :=
      (updateWhere_of_none fun _ _ => rfl).symm
    exact h.retired files versions nofun (fun _ => rfl) fun _ => rfl
  | true =>
    cases committed
    exact h.retired files rfl (fun _ selected => mem_singleton.mpr (of_decide_eq_true selected))
      (fun _ => rfl) fun _ => rfl

/-- The commit of an upload: the version was the only current one of its file. -/
theorem VersionTx.fileSet_commit {version : FileVersion} (h : VersionsSound db)
    (sound : (VersionTx.fileSet file version).Sound db)
    (committed : (VersionTx.fileSet file version).commit db = some db') :
    VersionsSound db' ∧ Updated [version.id] db db' := by
  obtain ⟨inVersions, pending, ofFile⟩ := sound
  cases committed
  have isCurrent : version.current = true := decide_eq_true (.inl pending)
  have up : Updated [version.id] db
      { db with
        files := updateWhere (fun f => f.id = file.id)
          (fun f => { f with status := .active, currentVersion := some version.id }) db.files
        versions := updateWhere (fun v => v.id = version.id)
          (fun v => { v with status := .committed }) db.versions } := by
    refine .of_updateWhere rfl rfl
      (fun _ selected => mem_singleton.mpr (of_decide_eq_true selected)) (fun _ => rfl)
      (fun _ live => live) (fun _ => rfl) fun v member selected _ => ?_
    rw [h.version_pk.eq_of_key member inVersions (of_decide_eq_true selected)]
    exact isCurrent
  refine ⟨h.updated up fun f member live v inV ofV isCommitted => ?_, up⟩
  rcases mem_updateWhere.mp inV with ⟨v₀, inV₀, selected, rfl⟩ | ⟨inV₀, unselected⟩
  · -- the version just committed: its file is the one that became active
    have same := h.version_pk.eq_of_key inV₀ inVersions (of_decide_eq_true selected)
    subst same
    rcases mem_updateWhere.mp member with ⟨f₀, -, -, rfl⟩ | ⟨-, other⟩
    · exact ⟨rfl, rfl⟩
    · exact absurd (ofV.symm.trans ofFile) (of_decide_eq_false other)
  · rcases mem_updateWhere.mp member with ⟨f₀, inFiles, isFile, rfl⟩ | ⟨inFiles, -⟩
    · -- a second current version of the file
      have sameFile : f₀.id = version.fileId := (of_decide_eq_true isFile).trans ofFile.symm
      have same := h.one f₀ inFiles live v inV₀ version inVersions ofV sameFile.symm
        (decide_eq_true (.inr isCommitted)) isCurrent
      exact absurd (congrArg FileVersion.id same) (of_decide_eq_false unselected)
    · exact h.committed f inFiles live v inV₀ ofV isCommitted

theorem VersionTx.expired_commit {fileIds versionIds : List Uuid} (h : VersionsSound db)
    (committed : (VersionTx.expired now fileIds versionIds).commit db = some db') :
    VersionsSound db' ∧ Updated versionIds db db' := by
  cases committed
  exact h.retired rfl rfl (fun _ selected => of_decide_eq_true selected) (fun _ => rfl) fun _ => rfl

theorem VersionTx.commit_sound (h : VersionsSound db) (sound : t.Sound db)
    (committed : t.commit db = some db') :
    VersionsSound db' ∧ ∀ u : VersionTx, u.Sound db → t.Apart u → u.Sound db' := by
  cases t with
  | begun file own v =>
    cases committed
    exact ⟨h.inserted ⟨rfl, rfl⟩ sound,
      fun u sound' apart => sound'.inserted ⟨rfl, rfl⟩ sound apart⟩
  | aborted versionId hit =>
    obtain ⟨whole, up⟩ := VersionTx.aborted_commit h committed
    exact ⟨whole, fun u sound' apart => sound'.updated up apart.locks⟩
  | fileSet file v =>
    obtain ⟨whole, up⟩ := VersionTx.fileSet_commit h sound committed
    exact ⟨whole, fun u sound' apart => sound'.updated up apart.locks⟩
  | expired now fileIds versionIds =>
    obtain ⟨whole, up⟩ := VersionTx.expired_commit h committed
    exact ⟨whole, fun u sound' apart => sound'.updated up apart.locks⟩
  | _ => cases committed

end Commits

/-! ### Runs -/

/-- The invariant of the two tables and of everything open on them. -/
def versionInvariant : TxInvariant versionRules StillFree where
  whole := VersionsSound
  each db t := t.Sound db
  apart := VersionTx.Apart
  symm _ _ := VersionTx.Apart.symm
  started _ _ _ _ started := VersionTx.start_sound started
  ran _ _ _ _ _ whole each others guard ran :=
    have ran := VersionTx.next_inv ran
    ⟨VersionTx.ran_sound whole each guard ran,
      fun u member => VersionTx.ran_apart member (others u member).2 ran⟩
  committed _ _ _ whole each committed := VersionTx.commit_sound whole each committed

/-- In every run in which a version is inserted into an existing file only while the
file is not active and has no pending version, every live file has at most one
pending and at most one committed version. -/
theorem one_version_held {db : DB} (schema : db.Schema) (none_yet : db.versions = [])
    (events : List (TxEvent VersionRequest StatementInput))
    (guarded : EveryStep versionRules.step (TxGuarded StillFree) ⟨db, []⟩ events) :
    EveryState versionRules.step (fun s => OneVersion s.db) ⟨db, []⟩ events := by
  have start : VersionsSound db :=
    { file_pk := schema.file_pk
      version_pk := schema.version_pk
      version_file := schema.version_file
      gapless := by simp [none_yet]
      one := by simp [none_yet]
      committed := by simp [none_yet] }
  exact (versionInvariant.everyState start guarded).mono fun s h => h.whole.oneVersion

namespace Sample

abbrev VersionEvents := List (TxEvent VersionRequest StatementInput)

/-- An empty bucket. -/
def noFiles : DB := { DB.empty with buckets := [bucket] }

/-- BeginUpload of a new file, the only open transaction. -/
def newUpload : VersionEvents :=
  [.start (.beginUpload owner manifest), .next 0 (.newId (gen 0)), .next 0 (.newId (gen 1)),
    .next 0 .nothing, .commit 0]

/-- AbortUpload of a version with nothing stored. -/
def abortFirst : VersionEvents :=
  [.start (.abortUpload (gen 1)), .next 0 (.counted false), .next 0 .nothing, .next 0 .nothing,
    .commit 0]

/-- BeginUpload of a file that is there. -/
def uploadAgain (id : Uuid) : VersionEvents :=
  [.start (.beginUpload owner manifest), .next 0 .nothing, .next 0 (.newId id), .next 0 .nothing,
    .commit 0]

/-- CommitUpload with no chunk short. -/
def commitOf (id : Uuid) : VersionEvents :=
  [.start (.commitUpload owner id), .next 0 .nothing, .next 0 (.counted false), .next 0 .nothing,
    .commit 0]

def deleteFile : VersionEvents :=
  [.start (.softDelete owner (gen 0) 5), .next 0 .nothing, .next 0 .nothing, .next 0 .nothing,
    .next 0 .nothing, .commit 0]

/-- An upload that was aborted, begun again and committed, and the file deleted. -/
def retriedUpload : VersionEvents :=
  newUpload ++ abortFirst ++ uploadAgain (gen 2) ++ commitOf (gen 2) ++ deleteFile

end Sample

theorem retriedUpload_one_version :
    (exec versionRules.step ⟨noFiles, []⟩ retriedUpload).isSome = true ∧
      EveryState versionRules.step (fun s => OneVersion s.db) ⟨noFiles, []⟩
        retriedUpload := by
  refine ⟨by decide +kernel, one_version_held ?_ rfl retriedUpload (by decide +kernel)⟩
  constructor <;> decide +kernel

namespace Sample

/-- Two clients upload to the path of the aborted upload.  Both find no pending
version; the first one has committed when the second one inserts. -/
def racingBegins : VersionEvents :=
  newUpload ++ abortFirst ++
    [.start (.beginUpload owner manifest), .start (.beginUpload owner manifest),
      .next 0 .nothing, .next 1 .nothing,
      .next 0 (.newId (gen 2)), .next 0 .nothing, .commit 0,
      .next 0 (.newId (gen 3)), .next 0 .nothing, .commit 0]

end Sample

/-- The file has two pending versions, and two committed ones when both clients are
done. -/
theorem racingBegins_two_pending :
    (exec versionRules.step ⟨noFiles, []⟩ racingBegins).map (fun s =>
      (s.db.files.map fun f => (f.id, f.deletedAt),
        s.db.versions.map fun v => (v.fileId, v.versionNo, v.status))) =
      some ([(gen 0, none)],
        [(gen 0, 1, .aborted), (gen 0, 2, .pending),
          (gen 0, 3, .pending)]) ∧
    (exec versionRules.step ⟨noFiles, []⟩
      (racingBegins ++ commitOf (gen 2) ++
        commitOf (gen 3))).map (fun s =>
      s.db.versions.map fun v => (v.versionNo, v.status)) =
      some [(1, .aborted), (2, .committed), (3, .committed)] ∧
    ¬ EveryState versionRules.step (fun s => OneVersion s.db) ⟨noFiles, []⟩
      racingBegins := by
  refine ⟨by decide +kernel, by decide +kernel, fun every => ?_⟩
  have reached : (exec versionRules.step ⟨noFiles, []⟩ racingBegins).map
      (fun s => decide (OneVersion s.db)) = some false := by
    decide +kernel
  obtain ⟨s, run, violated⟩ := Option.map_eq_some_iff.mp reached
  exact of_decide_eq_false violated (every.last run)

/-! ### One transaction at a time

With nothing in between, the statements of a call do to files and versions what the
store function does that the other modules use.
-/

/-- The request runs alone, statement by statement, and leaves the files and versions
of `db'`. -/
def AloneGives (db : DB) (request : VersionRequest) (db' : DB) : Prop :=
  ∃ t inputs last, VersionTx.start db request = some t ∧
    versionRules.alone db t inputs = some last ∧
    last.files = db'.files ∧ last.versions = db'.versions

/-- The INSERT of a version gets through when there is no other transaction. -/
theorem next_numbered_alone {gen : Nat → Uuid} (own : Bool)
    (fresh : ∀ v ∈ db.versions, v.id ≠ gen 1) :
    VersionTx.next db [] (.numbered file own (db.newVersion file.id m fun _ => gen 1)) .nothing =
      some (.begun file own (db.newVersion file.id m fun _ => gen 1)) := by
  have free : ¬ (db.versions ++ ([] : List VersionTx).filterMap VersionTx.newVersion?).any
      (VersionTx.sameVersionKey (db.newVersion file.id m fun _ => gen 1)) = true := by
    rw [filterMap_nil, append_nil, any_eq_true]
    rintro ⟨w, member, clash⟩
    rcases of_decide_eq_true clash with same | ⟨ofFile, number⟩
    · exact fresh w member same
    · have below := DB.lt_nextVersionNo member
      rw [ofFile, number] at below
      exact Nat.lt_irrefl _ below
  simp only [VersionTx.next, free]
  rfl

/-- The rest of BeginUpload once it has its file. -/
theorem fileReady_alone {db db' : DB} {m : UploadManifest} {gen : Nat → Uuid} {file : File}
    {own : Bool} {planned : PlannedUpload}
    (ok : { db with files := if own then db.files ++ [file] else db.files }.insertUpload file m
      gen = .ok (planned, db')) :
    ∃ last, versionRules.alone db (.fileReady m file own) [.newId (gen 1), .nothing] = some last ∧
      last.files = db'.files ∧ last.versions = db'.versions := by
  obtain ⟨fresh, -⟩ := DB.insertUpload_inv ok
  obtain ⟨files, versions⟩ := DB.insertUpload_files_versions ok
  rw [TxRules.alone_cons rfl, TxRules.alone_cons (next_numbered_alone own fresh)]
  exact ⟨_, rfl, files.symm, versions.symm⟩

theorem beginUpload_alone {gen : Nat → Uuid}
    (begun : db.beginUpload ownerId m gen = .ok (planned, db')) (new : planned.resume = false) :
    AloneGives db (.beginUpload ownerId m) db' := by
  obtain ⟨begun, size, chunks, sha⟩ := DB.beginUpload_inv begun
  have valid : ¬ (m.chunkSize ≤ 0 ∨ m.chunks.isEmpty = true ∨ m.contentSha256.length ≠ 32) := by
    simp [sha, chunks, Int.not_le.mpr size]
  cases begun with
  | @newFile path b _ _ clean owned free fresh ok =>
    have freeFile : ¬ (db.files ++ ([] : List VersionTx).filterMap VersionTx.newFile?).any
        (VersionTx.sameFileKey (newFile m path fun _ => gen 0)) = true := by
      rw [filterMap_nil, append_nil, any_eq_true]
      rintro ⟨f, member, clash⟩
      rcases of_decide_eq_true clash with same | ⟨live, inBucket, atPath⟩
      · exact fresh f member same
      · exact find?_eq_none.mp free f member (decide_eq_true ⟨inBucket, atPath, live⟩)
    have inserted : VersionTx.next db [] (.pathFree m path) (.newId (gen 0)) =
        some (.fileReady m (newFile m path gen) true) := by
      simp only [VersionTx.next, freeFile]
      rfl
    obtain ⟨last, ran, same⟩ := @fileReady_alone db _ m gen (newFile m path gen) true _ ok
    refine ⟨.pathFree m path, [.newId (gen 0), .newId (gen 1), .nothing], last, ?_, ?_, same⟩
    · simp only [VersionTx.start, clean, owned, if_neg valid, free]
    · rw [TxRules.alone_cons inserted]
      exact ran
  | @newVersion path b file _ _ clean owned found inactive plain none_pending ok =>
    obtain ⟨last, ran, same⟩ := @fileReady_alone db _ m gen file false _ ok
    have usable : ¬ (file.status = .active ∨ file.isFolder = true) := by simp [inactive, plain]
    by_cases uploading : file.status = .uploading
    · have noted : VersionTx.next db [] (.fileRead m file) .nothing =
          some (.fileReady m file false) := by
        simp only [VersionTx.next, none_pending uploading]
      refine ⟨.fileRead m file, [.nothing, .newId (gen 1), .nothing], last, ?_, ?_, same⟩
      · simp only [VersionTx.start, clean, owned, if_neg valid, found, if_neg usable,
          if_pos uploading]
      · rw [TxRules.alone_cons noted]
        exact ran
    · refine ⟨.fileReady m file false, [.newId (gen 1), .nothing], last, ?_, ran, same⟩
      simp only [VersionTx.start, clean, owned, if_neg valid, found, if_neg usable,
        if_neg uploading]
  | resumed => cases new

theorem commitUpload_alone {stored : List Uuid} {version : FileVersion} (schema : db.Schema)
    (ok : db.commitUpload ownerId versionId stored = .ok ((file, version), db'))
    (member : v ∈ db.versions) (same : v.id = versionId) (pending : v.status = .pending) :
    AloneGives db (.commitUpload ownerId versionId) db' := by
  cases DB.commitUpload_inv ok with
  | already found before =>
    obtain ⟨member', same', -⟩ := DB.scanVersion_inv found
    have := schema.version_pk.eq_of_key member' member (same'.trans same.symm)
    simp [this, pending] at before
  | @now f v' found pending' enough =>
    obtain ⟨member', same', -⟩ := DB.scanVersion_inv found
    have located : (db.versions.find? fun v => v.id = versionId) = some v' :=
      schema.version_pk.find_key member' same'
    have locked : VersionTx.next db [] (.scanning f versionId) .nothing = some (.scanned f v') := by
      simp [VersionTx.next, located, pending']
    refine ⟨.scanning f versionId, [.nothing, .counted false, .nothing],
      { db with
        files := updateWhere (fun f' => f'.id = f.id)
          (fun f' => { f' with status := .active, currentVersion := some v'.id }) db.files
        versions := updateWhere (fun v => v.id = v'.id)
          (fun v => { v with status := .committed }) db.versions }, ?_, ?_, rfl, ?_⟩
    · simp only [VersionTx.start, found]
    · rw [TxRules.alone_cons locked]
      rfl
    · rw [same']

theorem abortUpload_alone (schema : db.Schema) (nothing_stored : ¬ db.placements.any fun p =>
      p.status = .stored ∧ db.fragmentOfVersion versionId p.fragmentId) :
    AloneGives db (.abortUpload versionId) (db.abortUpload versionId) := by
  have kept : ¬ (db.placements.filter fun p =>
      !(p.status = .pending ∧ db.fragmentOfVersion versionId p.fragmentId)).any fun p =>
        p.status = .stored ∧ db.fragmentOfVersion versionId p.fragmentId := by
    simp only [any_eq_true, mem_filter] at nothing_stored ⊢
    rintro ⟨p, ⟨member, -⟩, stored⟩
    exact nothing_stored ⟨p, member, stored⟩
  have ⟨files, versions⟩ : (db.abortUpload versionId).files = db.files ∧
      (db.abortUpload versionId).versions =
        updateWhere (fun v => v.id = versionId ∧ v.status = .pending)
          (fun v => { v with status := .aborted }) db.versions := by
    rw [DB.abortUpload, if_neg kept]
    exact ⟨rfl, rfl⟩
  have hit : VersionTx.next db [] (.aborting versionId
      (db.versions.any fun v => v.id = versionId ∧ v.status = .pending)) .nothing =
      some (.aborted versionId
        (db.versions.any fun v => v.id = versionId ∧ v.status = .pending)) := by
    simp only [VersionTx.next, any_nil, Bool.false_eq_true, and_false, if_false, and_self,
      Bool.decide_eq_true]
  have ran : versionRules.alone db (.placementsDropped versionId)
      [.counted false, .nothing, .nothing] = (VersionTx.aborted versionId
        (db.versions.any fun v => v.id = versionId ∧ v.status = .pending)).commit db := by
    rw [TxRules.alone_cons rfl, TxRules.alone_cons rfl, TxRules.alone_cons hit]
    rfl
  cases found : db.versions.any fun v => v.id = versionId ∧ v.status = .pending with
  | true =>
    rw [found] at ran
    obtain ⟨v, member, fits⟩ := any_eq_true.mp found
    obtain ⟨same, pending⟩ := of_decide_eq_true fits
    refine ⟨_, _, _, rfl, ran, files.symm, ?_⟩
    rw [versions]
    refine map_congr_left fun w inVersions => ?_
    have only : w.id = versionId → w.status = .pending := fun sameId => by
      rw [schema.version_pk.eq_of_key inVersions member (sameId.trans same.symm)]
      exact pending
    grind
  | false =>
    rw [found] at ran
    refine ⟨_, _, _, rfl, ran, files.symm, ?_⟩
    rw [versions, updateWhere_of_none fun v member => ?_]
    exact Bool.eq_false_iff.mpr (any_eq_false.mp found v member)

theorem softDeleteFile_alone (schema : db.Schema)
    (ok : db.softDeleteFile ownerId fileId now = .ok db') :
    AloneGives db (.softDelete ownerId fileId now) db' := by
  simp only [DB.softDeleteFile] at ok
  split at ok <;> cases ok
  rename_i file found
  let fileIds := (db.files.filter file.toDelete).map File.id
  let versionIds :=
    (db.versions.filter fun v => v.current ∧ db.versionOf file.inDelete v).map FileVersion.id
  -- the second look at the rows finds what the first one found
  have sameFiles : (db.files.filter fun f => f.id ∈ fileIds ∧ file.toDelete f).map File.id =
      fileIds := by
    refine congrArg (List.map File.id) (filter_congr fun f member => ?_)
    simp [fileIds, schema.file_pk.mem_filter_keys member]
  have sameVersions :
      (db.versions.filter fun v => v.id ∈ versionIds ∧ v.current).map FileVersion.id =
        versionIds := by
    refine congrArg (List.map FileVersion.id) (filter_congr fun v member => ?_)
    simp only [versionIds, schema.version_pk.mem_filter_keys member]
    grind
  have locked : VersionTx.next db [] (.deletingFiles file now fileIds) .nothing =
      some (.filesDeleted file now fileIds) := by
    have unlocked : ¬ (fileIds.any fun id => ([] : List VersionTx).any fun u =>
        id ∈ u.fileLocks) = true := by simp
    simp only [VersionTx.next, if_neg unlocked, sameFiles]
  have expired : VersionTx.next db [] (.expiring now fileIds versionIds) .nothing =
      some (.expired now fileIds versionIds) := by
    have unlocked : ¬ (versionIds.any fun id => ([] : List VersionTx).any fun u =>
        id ∈ u.versionLocks) = true := by simp
    simp only [VersionTx.next, if_neg unlocked, sameVersions]
  refine ⟨.deleteRead file now, [.nothing, .nothing, .nothing, .nothing],
    { db with
      files := updateWhere (fun f => f.id ∈ fileIds) (File.softDelete now) db.files
      versions := updateWhere (fun v => v.id ∈ versionIds) FileVersion.expire db.versions },
    ?_, ?_, schema.file_pk.updateWhere_keys _ _, schema.version_pk.updateWhere_keys _ _⟩
  · simp only [VersionTx.start, found]
  · rw [TxRules.alone_cons rfl, TxRules.alone_cons locked, TxRules.alone_cons rfl,
      TxRules.alone_cons expired]
    rfl

end StoragePlatform
